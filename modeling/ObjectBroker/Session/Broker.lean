import ObjectBroker.Session.Channel
import ObjectBroker.Session.Router

/-!
# `ObjectBroker.Session.Broker` — the connections of one broker

A broker numbers its connections from 1 and owns the table of those that are attached. A reference
is invoked over the connection it is bound to while that connection is attached; otherwise a
resolver is asked for a new one, and a copy of the reference bound to it is used. The resolver may
take its time, and the new connection gets its number when it is there and not when it is asked for.
A connection that was detached is out of the table but still works for who holds on to it.

A call that cannot finish at once is a `Call`, a value of its caller. It moves on only when it is
polled, and giving it up is an operation as well. Most calls are an `Exchange` over one connection;
an invocation that waits for its resolver has no connection yet.
-/

namespace ObjectBroker

/-- A connection: its router and its outgoing half. -/
structure Link where
  router : Router
  channel : Channel := {}
deriving DecidableEq

/-- What a resolver says when it is asked for a connection: that there is one, or why there is
    none. -/
inductive Resolution where
  | established
  | refused (f : Fault)
deriving DecidableEq

/-- What can be had of a resolver for now. -/
structure Supply where
  /-- Whether it is still at it; as long as it is held it does not answer. -/
  held : Bool := false
  /-- How many connections can still be established. -/
  available : Nat := 0
  /-- What it says when none can. -/
  refusal : Fault := .connectionLost
  /-- Whether a connection that it establishes lets nothing out at first, -/
  stuck : Bool := false
  /-- or fails whenever it is written to. -/
  broken : Bool := false
deriving DecidableEq

/-- Establishes connections for references that are bound to none of the attached ones. -/
structure Resolver extends Supply where
  /-- The references a connection was asked for, failures included. -/
  asked : List ObjectRef := []
  /-- The answers it has given, in order. -/
  answered : List Resolution := []
deriving DecidableEq

namespace Resolver

/-- Takes note of the reference that a connection is asked for. -/
def ask (r : Resolver) (reference : ObjectRef) : Resolver :=
  { r with asked := r.asked ++ [reference] }

/-- The answer to give now, if it is time. -/
def answer? (r : Resolver) : Option Resolution :=
  if r.held then none
  else if r.available = 0 then some (.refused r.refusal)
  else some .established

/-- Gives an answer. A connection that it hands over is no longer available. -/
def give (r : Resolver) (answer : Resolution) : Resolver :=
  match answer with
  | .established => { r with available := r.available - 1, answered := r.answered ++ [answer] }
  | .refused _ => { r with answered := r.answered ++ [answer] }

/-- The outgoing half of a connection that it establishes. -/
def channel (r : Resolver) : Channel := { held := r.stuck, broken := r.broken }

end Resolver

/-- The connections of one broker. -/
structure Broker where
  configuration : Configuration
  /-- Every connection ever attached, in order of their numbers. -/
  links : List Link := []
  /-- The connections in the table. -/
  attached : List ConnectionId := []
  next : UInt64 := 1
  resolver : Resolver := {}
deriving DecidableEq

namespace Broker

/-! ## The table of connections -/

/-- A connection that was attached at some time. -/
def link? (b : Broker) (id : ConnectionId) : Option Link :=
  b.links.find? (·.router.connection == id)

/-- Replaces a connection by a later state of it. -/
def setLink (b : Broker) (link : Link) : Broker :=
  { b with links := b.links.map fun l =>
      if l.router.connection = link.router.connection then link else l }

/-- Whether a connection is in the table. -/
def isAttached (b : Broker) (id : ConnectionId) : Bool := b.attached.contains id

/-- Takes over an established connection under a fresh number. -/
def attach (b : Broker) (role : Role) (channel : Channel := {}) : ConnectionId × Broker :=
  let id : ConnectionId := ⟨b.next⟩
  let link : Link := { router := .new id role (.ofConfiguration b.configuration), channel }
  (id, { b with
    links := b.links ++ [link]
    attached := b.attached ++ [id]
    next := b.next + 1 })

/-- Takes a connection out of the table; tells whether it was there. -/
def detach (b : Broker) (id : ConnectionId) : Bool × Broker :=
  (b.isAttached id, { b with attached := b.attached.filter (· != id) })

/-- Changes the router of a connection; without the connection there is nothing to change. -/
def onRouter {α : Type} (b : Broker) (id : ConnectionId) (absent : α)
    (operation : Router → α × Router) : α × Broker :=
  match b.link? id with
  | none => (absent, b)
  | some link =>
    let (a, router) := operation link.router
    (a, b.setLink { link with router })

/-- Changes the outgoing half of a connection. -/
def onChannel (b : Broker) (id : ConnectionId) (operation : Channel → Channel) : Broker :=
  match b.link? id with
  | none => b
  | some link => b.setLink { link with channel := operation link.channel }

end Broker

/-! ## Calls -/

/-- A message on its way over a connection, or the wait for the reply to one. -/
inductive Exchange where
  /-- A request whose message is not out yet. -/
  | sending (connection : ConnectionId) (id : UInt32) (t : Transmission)
  /-- A request that waits for its reply. -/
  | waiting (connection : ConnectionId) (id : UInt32)
  /-- Like `sending`, but it goes on to wait for its reply by itself. -/
  | invoking (connection : ConnectionId) (id : UInt32) (t : Transmission)
  /-- A message that is not answered. -/
  | posting (connection : ConnectionId) (t : Transmission)
deriving DecidableEq

/-- A call under way. -/
inductive Call where
  | exchanging (exchange : Exchange)
  /-- An invocation that has asked the resolver for a connection. Neither its number nor its message
      is there before the connection is. -/
  | resolving (reference : ObjectRef) (operation : String) (arguments : List Dynamic)

/-- How far a call has come. -/
inductive Progress where
  | pending (call : Call)
  /-- The request is out; what is left is the wait for its reply. -/
  | sent (id : UInt32) (call : Call)
  | replied (reply : IncomingReply)
  | done
  | failed (f : Fault)

namespace Broker

/-- Tries to get the message of an exchange out. -/
def advance (b : Broker) (id : ConnectionId) (t : Transmission) : Attempt × Broker :=
  match b.link? id with
  | none => (.failed .connectionLost, b)
  | some link =>
    let (attempt, channel) := link.channel.advance t
    (attempt, b.setLink { link with channel })

/-- Drops a request that nobody waits for any more. -/
def forget (b : Broker) (connection : ConnectionId) (id : UInt32) : Broker :=
  (b.onRouter connection () fun r => ((), r.forget id)).2

/-- Takes the outcome of a request, if it is decided. -/
def collect (b : Broker) (connection : ConnectionId) (id : UInt32) : Progress × Broker :=
  match (b.link? connection).bind (·.router.outcome? id) with
  | none => (.pending (.exchanging (.waiting connection id)), b)
  | some (.replied reply) => (.replied reply, b.forget connection id)
  | some (.failed f) => (.failed f, b.forget connection id)

/-- Lets an exchange move on as far as it can. -/
def follow (b : Broker) : Exchange → Progress × Broker
  | .sending connection id t =>
    match b.advance connection t with
    | (.waits t, b) => (.pending (.exchanging (.sending connection id t)), b)
    | (.written, b) => (.sent id (.exchanging (.waiting connection id)), b)
    | (.failed f, b) => (.failed f, b.forget connection id)
  | .invoking connection id t =>
    match b.advance connection t with
    | (.waits t, b) => (.pending (.exchanging (.invoking connection id t)), b)
    | (.written, b) => b.collect connection id
    | (.failed f, b) => (.failed f, b.forget connection id)
  | .waiting connection id => b.collect connection id
  | .posting connection t =>
    match b.advance connection t with
    | (.waits t, b) => (.pending (.exchanging (.posting connection t)), b)
    | (.written, b) => (.done, b)
    | (.failed f, b) => (.failed f, b)

/-- Gives an exchange up. One that waits for its reply has its request forgotten; one whose message
    is not out yet lets go of the channel, and its request stays outstanding. -/
def leave (b : Broker) : Exchange → Broker
  | .sending connection _ t | .invoking connection _ t | .posting connection t =>
    b.onChannel connection (·.abandon t)
  | .waiting connection id => b.forget connection id

/-! ## Sending -/

/-- Numbers a request on a connection and starts the exchange made of it. -/
def start (b : Broker) (connection : ConnectionId) (reference : ObjectRef) (operation : String)
    (arguments : List Dynamic) (exchange : UInt32 → Transmission → Exchange) : Progress × Broker :=
  match b.onRouter connection (.error .connectionLost)
    (·.request reference operation arguments) with
  | (.ok (id, message), b) => b.follow (exchange id { message })
  | (.error f, b) => (.failed f, b)

/-- Sends a request over a connection and leaves the wait for its reply to the caller. -/
def send (b : Broker) (connection : ConnectionId) (reference : ObjectRef) (operation : String)
    (arguments : List Dynamic) : Progress × Broker :=
  b.start connection reference operation arguments (.sending connection)

/-- Sends a request over a connection and waits for its reply. -/
def invokeOn (b : Broker) (connection : ConnectionId) (reference : ObjectRef) (operation : String)
    (arguments : List Dynamic) : Progress × Broker :=
  b.start connection reference operation arguments (.invoking connection)

/-! ## Invoking -/

/-- The attached connection a reference is bound to. -/
def route? (b : Broker) (reference : ObjectRef) : Option ConnectionId :=
  reference.connection.filter b.isAttached

/-- Takes over a connection that the resolver has established. -/
def connect (b : Broker) : ConnectionId × Broker :=
  { b with resolver := b.resolver.give .established }.attach .initiator b.resolver.channel

/-- Goes on with an invocation that waits for its resolver. A connection that the resolver has
    established is attached, and the request goes over it with a copy of the reference that is bound
    to it. -/
def resolve (b : Broker) (reference : ObjectRef) (operation : String) (arguments : List Dynamic) :
    Progress × Broker :=
  match b.resolver.answer? with
  | none => (.pending (.resolving reference operation arguments), b)
  | some (.refused f) => (.failed f, { b with resolver := b.resolver.give (.refused f) })
  | some .established =>
    let (connection, b) := b.connect
    b.invokeOn connection (reference.reboundTo connection) operation arguments

/-- Invokes an operation of an object, over the connection its reference is bound to or, if that
    is not attached, over a new one that the resolver is asked for. -/
def invoke (b : Broker) (reference : ObjectRef) (operation : String) (arguments : List Dynamic) :
    Progress × Broker :=
  if reference.isNil then
    (.failed (.preconditionNotMet .nilReference), b)
  else
    match b.route? reference with
    | some connection => b.invokeOn connection reference operation arguments
    | none =>
      { b with resolver := b.resolver.ask reference }.resolve reference operation arguments

/-- Lets a call move on as far as it can. -/
def poll (b : Broker) : Call → Progress × Broker
  | .exchanging exchange => b.follow exchange
  | .resolving reference operation arguments => b.resolve reference operation arguments

/-- Gives a call up. One that still waits for its resolver has left no trace on any connection. -/
def abandon (b : Broker) : Call → Broker
  | .exchanging exchange => b.leave exchange
  | .resolving _ _ _ => b

/-! ## Answering and closing -/

/-- Answers a request received on a connection. -/
def reply (b : Broker) (connection : ConnectionId) (id : UInt32) (status : ReplyStatus)
    (results : List Dynamic) : Progress × Broker :=
  match b.link? connection with
  | none => (.failed .connectionLost, b)
  | some link =>
    match link.router.replyMessage id status results with
    | .ok message => b.follow (.posting connection { message })
    | .error f => (.failed f, b)

/-- Ends a connection and tells the peer. -/
def close (b : Broker) (connection : ConnectionId) : Progress × Broker :=
  match b.onRouter connection none Router.close with
  | (some message, b) => b.follow (.posting connection { message })
  | (none, b) => (.done, b)

/-! ## Receiving -/

/-- Takes in a message received on a connection. -/
def handle (b : Broker) (connection : ConnectionId) (message : List UInt8) :
    Except Fault (Option IncomingRequest) × Broker :=
  b.onRouter connection (.error .connectionLost) (·.handle message)

/-- Takes an outstanding request back; tells whether there was one. -/
def unregister (b : Broker) (connection : ConnectionId) (id : UInt32) : Bool × Broker :=
  b.onRouter connection false (·.unregister id)

/-- Decodes the arguments of a request on a connection. -/
def decodeArguments (b : Broker) (connection : ConnectionId) (request : IncomingRequest)
    (types : List TypeDesc) : Except Fault (List Dynamic) × Broker :=
  b.onRouter connection (.error .connectionLost) (·.decodeArguments request types)

/-- Decodes the results of a reply on a connection of the caller's choice. -/
def decodeResultsOn (b : Broker) (connection : ConnectionId) (reply : IncomingReply)
    (types : List TypeDesc) : Except Fault (List Dynamic) × Broker :=
  b.onRouter connection (.error .connectionLost) (·.decodeResults reply types)

/-- Decodes the results of a reply on the connection it arrived on, which has to be attached. -/
def decodeResults (b : Broker) (reply : IncomingReply) (types : List TypeDesc) :
    Except Fault (List Dynamic) × Broker :=
  if b.isAttached reply.connection then b.decodeResultsOn reply.connection reply types
  else (.error .connectionLost, b)

end Broker

end ObjectBroker
