import ObjectBroker.Session.Message
import ObjectBroker.Session.RequestIds

/-!
# `ObjectBroker.Session.Router` — requests and replies over one connection

Both ends of a connection send requests. A router numbers the requests of its end, remembers which
are outstanding, and hands each reply to the request of its number. It is a value: an operation
gives its result and the router after it.

A request is outstanding from the moment it is numbered, so that an early reply finds it. It is
decided once, by a reply, by being unregistered, or by the end of the connection, and what comes
later changes nothing. Who waits for it takes the outcome, or gives up and has it forgotten.
-/

namespace ObjectBroker

/-- The stages in the life of a connection. -/
inductive ConnectionState where
  | established
  /-- The peer has sent at least one reference, which is bound to this connection. -/
  | hasInboundRefs
  | closed
deriving DecidableEq

/-- A request received from the peer. -/
structure IncomingRequest where
  header : RequestHeader
  body : MessageBody
deriving DecidableEq

/-- A reply received from the peer, with the connection it arrived on. -/
structure IncomingReply where
  connection : ConnectionId
  header : ReplyHeader
  body : MessageBody
deriving DecidableEq

/-- How a request ended: with a reply, or with the fault its sender gets in its place. -/
inductive RequestOutcome where
  | replied (reply : IncomingReply)
  | failed (fault : Fault)
deriving DecidableEq

/-- A request that somebody waits for. -/
structure Slot where
  id : UInt32
  outcome? : Option RequestOutcome := none
deriving DecidableEq

/-- One end of an established connection. -/
structure Router where
  connection : ConnectionId
  codec : Codec
  state : ConnectionState := .established
  ids : RequestIds
  slots : List Slot := []
deriving DecidableEq

namespace Router

/-- The router of a new connection; its codec binds what it reads to that connection. -/
def new (connection : ConnectionId) (role : Role) (codec : Codec) : Router :=
  { connection, codec := codec.boundTo connection, ids := .ofRole role }

/-- Whether the connection is closed. -/
def isClosed (r : Router) : Bool := r.state = .closed

/-! ## Outstanding requests -/

/-- The requests that are waited for and not decided. -/
def pending (r : Router) : List UInt32 :=
  (r.slots.filter (·.outcome?.isNone)).map (·.id)

/-- The outcome of a request, if it is decided and still waited for. -/
def outcome? (r : Router) (id : UInt32) : Option RequestOutcome :=
  (r.slots.find? (·.id == id)).bind (·.outcome?)

/-- Gives a request its outcome, unless it has one. -/
def decide (r : Router) (id : UInt32) (outcome : RequestOutcome) : Router :=
  { r with slots := r.slots.map fun slot =>
      if slot.id = id then { slot with outcome? := slot.outcome?.or (some outcome) } else slot }

/-- Drops a request that nobody waits for any more. -/
def forget (r : Router) (id : UInt32) : Router :=
  { r with slots := r.slots.filter (·.id != id) }

/-- Decides a request by taking it back; tells whether it was outstanding. -/
def unregister (r : Router) (id : UInt32) : Bool × Router :=
  if r.pending.contains id then
    (true, r.decide id (.failed (.preconditionNotMet (.unregistered id))))
  else
    (false, r)

/-- Ends the connection and decides every outstanding request. -/
def markClosed (r : Router) : Router :=
  { r with
    state := .closed
    slots := r.slots.map fun slot =>
      { slot with outcome? := slot.outcome?.or (some (.failed .connectionLost)) } }

/-! ## Sending -/

/-- Checks that a reference can be invoked over this connection: it designates an object, it is
    bound to this connection, and the connection is open. -/
def checkTarget (r : Router) (reference : ObjectRef) : Except Fault Unit :=
  if reference.isNil then .error (.preconditionNotMet .nilReference)
  else if reference.connection ≠ some r.connection then .error .foreignConnection
  else if r.isClosed then .error .connectionLost
  else .ok ()

/-- Numbers a request and remembers it as outstanding. -/
def register (r : Router) : Except Fault (UInt32 × Router) :=
  match r.ids.take with
  | .ok (id, ids) => .ok (id, { r with ids, slots := r.slots ++ [{ id }] })
  | .error f => .error f

/-- Numbers a request and gives the message to send for it. A request that cannot be written is
    not outstanding, but its number is used up. -/
def request (r : Router) (reference : ObjectRef) (operation : String)
    (arguments : List Dynamic) : Except Fault (UInt32 × List UInt8) × Router :=
  match r.checkTarget reference with
  | .error f => (.error f, r)
  | .ok () =>
    match r.register with
    | .error f => (.error f, r)
    | .ok (id, r') =>
      match (r.codec.request ⟨id, true, reference.key, operation⟩ arguments).message with
      | .ok message => (.ok (id, message), r')
      | .error f => (.error f, r'.forget id)

/-- The message that answers a request of the peer. -/
def replyMessage (r : Router) (id : UInt32) (status : ReplyStatus) (results : List Dynamic) :
    Except Fault (List UInt8) :=
  if r.isClosed then .error .connectionLost
  else (r.codec.reply ⟨id, status⟩ results).message

/-- Ends the connection; gives the message that tells the peer, unless it was closed before. -/
def close (r : Router) : Option (List UInt8) × Router :=
  if r.isClosed then (none, r)
  else (some (Codec.closing r.codec.settings), r.markClosed)

/-! ## Receiving -/

/-- Takes in a received message. A request is handed out to be executed, a reply decides the
    request of its number or is discarded, and a message under other encoding parameters, like one
    that announces the end, closes the connection. -/
def handle (r : Router) (message : List UInt8) :
    Except Fault (Option IncomingRequest) × Router :=
  if r.isClosed then
    (.error .connectionLost, r)
  else
    match Message.parse r.codec.settings message with
    | .error (.encodingMismatch cause) => (.error (.encodingMismatch cause), r.markClosed)
    | .error f => (.error f, r)
    | .ok (.request header body) => (.ok (some ⟨header, body⟩), r)
    | .ok (.reply header body) =>
      (.ok none, r.decide header.id (.replied ⟨r.connection, header, body⟩))
    | .ok .closing => (.ok none, r.markClosed)

/-- Notes that the peer has sent references, if some are among the values. -/
def noteReferences (r : Router) (xs : List Dynamic) : Router :=
  if r.state = .established ∧ xs.any (·.payload.hasReference) then
    { r with state := .hasInboundRefs }
  else
    r

/-- Decodes the values of a received message; the references among them are bound to this
    connection. -/
def decodeBody (r : Router) (body : MessageBody) (types : List TypeDesc) :
    Except Fault (List Dynamic) × Router :=
  match body.decode r.codec types with
  | .ok xs => (.ok xs, r.noteReferences xs)
  | .error f => (.error f, r)

/-- Decodes the arguments of a received request. -/
def decodeArguments (r : Router) (request : IncomingRequest) (types : List TypeDesc) :
    Except Fault (List Dynamic) × Router :=
  r.decodeBody request.body types

/-- Decodes the results of a received reply. -/
def decodeResults (r : Router) (reply : IncomingReply) (types : List TypeDesc) :
    Except Fault (List Dynamic) × Router :=
  r.decodeBody reply.body types

end Router

end ObjectBroker
