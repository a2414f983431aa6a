import ObjectBroker.Proofs.Session.Links

/-!
# `ObjectBroker.Proofs.Session.Account` — a broker and the record of its dealings

An `Account` is a broker with a record of its dealings: the numbers it has handed out and the
connections it has let go, the references that were decoded, and the invocations, each with the
states of the broker around every one of its steps. What an invocation has asked and written is read
off these states. Between two of its steps anything may happen: something is done on any connection,
connections come and go, get stuck and break, and the resolver goes on with its work.

Which way an invocation takes is settled when it is made. It is refused, or it goes over the
connection of its reference, or it asks the resolver. In the last case what becomes of it is settled
when the resolver answers, in whatever state the broker is by then: that state, and not the one in
which the resolver was asked, has the number of the connection that the request goes over.
`Invocation.Routed` has a constructor for each way, and every step of the invocation keeps it.
-/

namespace ObjectBroker

/-! ## Dealings of a broker -/

namespace Broker

/-- The router of a connection, while the connection is in the table. -/
def router? (b : Broker) (id : ConnectionId) : Option Router :=
  if b.isAttached id then (b.link? id).map (·.router) else none

/-- What was written to a connection since. -/
def writtenSince (before b : Broker) (id : ConnectionId) : List (List UInt8) :=
  (b.sentOn id).drop (before.sentOn id).length

/-- What the resolver was asked for since. -/
def askedSince (before b : Broker) : List ObjectRef :=
  b.resolver.asked.drop before.resolver.asked.length

/-- What the resolver has answered since. -/
def answeredSince (before b : Broker) : List Resolution :=
  b.resolver.answered.drop before.resolver.answered.length

/-- The connections that were attached since. -/
def attachedSince (before b : Broker) : List ConnectionId :=
  (b.links.drop before.links.length).map (·.router.connection)

end Broker

/-- An invocation: the broker it was made of, how far it has come, and the states of the broker
    before and after each of its steps. -/
structure Invocation where
  before : Broker
  reference : ObjectRef
  operation : String
  arguments : List Dynamic
  progress : Progress
  steps : List (Broker × Broker) := []
  givenUp : Bool := false

namespace Invocation

/-- What its steps have written to a connection. -/
def written (inv : Invocation) (id : ConnectionId) : List (List UInt8) :=
  inv.steps.flatMap fun s => s.1.writtenSince s.2 id

/-- What its steps have asked the resolver for. -/
def asked (inv : Invocation) : List ObjectRef :=
  inv.steps.flatMap fun s => s.1.askedSince s.2

/-- What the resolver has answered in its steps. -/
def answered (inv : Invocation) : List Resolution :=
  inv.steps.flatMap fun s => s.1.answeredSince s.2

/-- The connections that its steps have attached. -/
def attached (inv : Invocation) : List ConnectionId :=
  inv.steps.flatMap fun s => s.1.attachedSince s.2

/-- One more step took the broker from the one state to the other. -/
def note (inv : Invocation) (b b' : Broker) : Invocation :=
  { inv with steps := inv.steps ++ [(b, b')] }

/-- One more step took the broker to another state, and the invocation has come so far. -/
def after (inv : Invocation) (b : Broker) (result : Progress × Broker) : Invocation :=
  { inv.note b result.2 with progress := result.1 }

/-- An invocation that was made of a broker, with this result so far. -/
def made (b : Broker) (reference : ObjectRef) (operation : String) (arguments : List Dynamic)
    (result : Progress × Broker) : Invocation :=
  Invocation.after { before := b, reference, operation, arguments, progress := result.1 } b result

/-- The call that is left of it. -/
def call? (inv : Invocation) : Option Call :=
  match inv.progress with
  | .pending call => if inv.givenUp then none else some call
  | .sent _ _ | .replied _ | .done | .failed _ => none

end Invocation

/-- A broker, the numbers it has handed out and those of connections that it has let go, the
    references that were decoded on each connection, and the invocations. -/
structure Account where
  broker : Broker
  handedOut : List (ConnectionId × Role) := []
  detached : List ConnectionId := []
  decoded : List (ConnectionId × ObjectRef) := []
  invocations : List Invocation := []

/-- What can happen to a broker. -/
inductive Action where
  | attach (role : Role)
  | detach (id : ConnectionId)
  /-- The resolver is held or goes on, and what can be had of it changes. -/
  | setResolver (supply : Supply)
  | invoke (reference : ObjectRef) (operation : String) (arguments : List Dynamic)
  /-- An invocation moves on as far as it can. -/
  | proceed (n : Nat)
  /-- An invocation is given up. -/
  | giveUp (n : Nat)
  | decodeArguments (id : ConnectionId) (request : IncomingRequest) (types : List TypeDesc)
  | decodeResultsOn (id : ConnectionId) (reply : IncomingReply) (types : List TypeDesc)
  | decodeResults (reply : IncomingReply) (types : List TypeDesc)
  | carry (traffic : Traffic)

namespace Account

/-- A new broker. -/
def start (configuration : Configuration) : Account := { broker := { configuration } }

/-- A step of an invocation took the broker to another state. What it has attached was handed
    out. -/
def record (a : Account) (broker : Broker) (invocations : List Invocation) : Account :=
  { a with
    broker, invocations
    handedOut := a.handedOut ++ (a.broker.attachedSince broker).map fun id => (id, .initiator) }

/-- An invocation takes a step, if a call is left of it. -/
def onCall (a : Account) (n : Nat) (move : Invocation → Call → Invocation × Broker) : Account :=
  match a.invocations[n]? with
  | none => a
  | some inv =>
    match inv.call? with
    | none => a
    | some call =>
      let (inv, broker) := move inv call
      a.record broker (a.invocations.set n inv)

/-- Values were decoded on a connection, or not. -/
def learn (a : Account) (id : ConnectionId) (result : Except Fault (List Dynamic) × Broker) :
    Account :=
  { a with
    broker := result.2
    decoded := a.decoded ++ (result.1.toOption.getD []).flatMap fun x =>
      x.payload.references.map fun r => (id, r) }

/-- One action. -/
def step (a : Account) : Action → Account
  | .attach role =>
    let (id, broker) := a.broker.attach role
    { a with broker, handedOut := a.handedOut ++ [(id, role)] }
  | .detach id =>
    let (found, broker) := a.broker.detach id
    { a with broker, detached := if found then a.detached ++ [id] else a.detached }
  | .setResolver supply =>
    let resolver := { a.broker.resolver with toSupply := supply }
    { a with broker := { a.broker with resolver } }
  | .invoke reference operation arguments =>
    let result := a.broker.invoke reference operation arguments
    a.record result.2 (a.invocations ++ [.made a.broker reference operation arguments result])
  | .proceed n =>
    a.onCall n fun inv call =>
      let result := a.broker.poll call
      (inv.after a.broker result, result.2)
  | .giveUp n =>
    a.onCall n fun inv call =>
      let broker := a.broker.abandon call
      ({ inv.note a.broker broker with givenUp := true }, broker)
  | .decodeArguments id request types => a.learn id (a.broker.decodeArguments id request types)
  | .decodeResultsOn id reply types => a.learn id (a.broker.decodeResultsOn id reply types)
  | .decodeResults reply types => a.learn reply.connection (a.broker.decodeResults reply types)
  | .carry traffic => { a with broker := a.broker.carry traffic }

/-- Actions one after the other. -/
def run (a : Account) (actions : List Action) : Account := actions.foldl step a

end Account

/-! ## What a step of a broker shows -/

namespace Broker

variable {b b' : Broker} {resolver : Resolver} {id : ConnectionId} {out : List (List UInt8)}

theorem Writes.writtenSince_self (h : b.Writes id out b') : b.writtenSince b' id = out := by
  rw [Broker.writtenSince, h.sent_eq, List.drop_left]

theorem Writes.writtenSince_other (h : b.Writes id out b') {other : ConnectionId}
    (hne : other ≠ id) : b.writtenSince b' other = [] := by
  rw [Broker.writtenSince, h.sentOn_other hne, List.drop_length]

theorem Writes.askedSince (h : b.Writes id out b') : b.askedSince b' = [] := by
  rw [Broker.askedSince, h.resolver_eq, List.drop_length]

theorem Writes.answeredSince (h : b.Writes id out b') : b.answeredSince b' = [] := by
  rw [Broker.answeredSince, h.resolver_eq, List.drop_length]

theorem attachedSince_eq (b b' : Broker) :
    b.attachedSince b' = (b'.links.map (·.router.connection)).drop b.links.length := by
  rw [attachedSince, List.map_drop]

theorem Writes.attachedSince (h : b.Writes id out b') : b.attachedSince b' = [] := by
  have hlength : (b.links.map (·.router.connection)).length = b.links.length := List.length_map _
  rw [attachedSince_eq, h.connections_eq, ← hlength, List.drop_length]

/-! ## The table -/

/-- A connection is found where it was, and the new one is found besides. -/
theorem link?_attach (b : Broker) (role : Role) (channel : Channel) (id : ConnectionId) :
    (b.attach role channel).2.link? id = (b.link? id).or
      (if id = ⟨b.next⟩ then some ⟨.new ⟨b.next⟩ role (.ofConfiguration b.configuration), channel⟩
        else none) := by
  unfold link? attach
  rw [List.find?_append]
  by_cases h : id = ⟨b.next⟩
  · subst h
    simp [Router.new]
  · simp [Router.new, h, Ne.symm h]

theorem link?_attach_self (h : b.link? ⟨b.next⟩ = none) (role : Role) (channel : Channel) :
    (b.attach role channel).2.link? ⟨b.next⟩
      = some ⟨.new ⟨b.next⟩ role (.ofConfiguration b.configuration), channel⟩ := by
  rw [link?_attach, h, Option.none_or, if_pos rfl]

theorem connections_attach (b : Broker) (role : Role) (channel : Channel) :
    (b.attach role channel).2.links.map (·.router.connection)
      = b.links.map (·.router.connection) ++ [⟨b.next⟩] := by
  simp [attach, Router.new]

theorem link?_connect_self (h : b.link? ⟨b.next⟩ = none) :
    b.connect.2.link? ⟨b.next⟩
      = some ⟨.new ⟨b.next⟩ .initiator (.ofConfiguration b.configuration), b.resolver.channel⟩ :=
  link?_attach_self (b := { b with resolver := b.resolver.give .established }) h .initiator _

/-- Nothing has been written to a connection that the resolver has only just established. -/
theorem sentOn_connect (h : b.link? ⟨b.next⟩ = none) (id : ConnectionId) :
    b.connect.2.sentOn id = b.sentOn id := by
  unfold sentOn
  by_cases hid : id = ⟨b.next⟩
  · subst hid
    rw [link?_connect_self h, h]
    rfl
  · rw [connect, link?_attach, if_neg hid, Option.or_none]
    rfl

/-- A step that takes over a connection and uses it has attached that connection, -/
theorem attachedSince_of_connect (h : ({ b with resolver } : Broker).connect.2.Writes id out b') :
    b.attachedSince b' = [⟨b.next⟩] := by
  rw [attachedSince_eq, h.connections_eq, connect, connections_attach]
  exact List.drop_left' (List.length_map _)

/-- and has written on no other. -/
theorem writtenSince_of_connect (hunused : b.link? ⟨b.next⟩ = none)
    (h : ({ b with resolver } : Broker).connect.2.Writes ⟨b.next⟩ out b') :
    b.writtenSince b' ⟨b.next⟩ = out ∧ ∀ id, id ≠ ⟨b.next⟩ → b.writtenSince b' id = [] := by
  have hbefore : ∀ id, ({ b with resolver } : Broker).connect.2.sentOn id = b.sentOn id :=
    sentOn_connect (b := { b with resolver }) hunused
  constructor
  · rw [writtenSince, ← hbefore]
    exact h.writtenSince_self
  · intro id hid
    rw [writtenSince, ← hbefore]
    exact h.writtenSince_other hid

/-- A step of an invocation changes the resolver and one connection at most: one that there was, or
    one that it takes over. -/
inductive Moves (b b' : Broker) : Prop where
  | keeps {resolver : Resolver} {id : ConnectionId} {out : List (List UInt8)}
      (h : ({ b with resolver } : Broker).Writes id out b')
  | adds {resolver : Resolver} {out : List (List UInt8)}
      (h : ({ b with resolver } : Broker).connect.2.Writes ⟨b.next⟩ out b')

/-- A reference that is invoked over a new connection is a single request on its way over it. -/
theorem single_rebound (h : b.link? ⟨b.next⟩ = none) (resolver : Resolver)
    (reference : ObjectRef) (operation : String) (arguments : List Dynamic) :
    let result := ({ b with resolver } : Broker).connect.2.invokeOn ⟨b.next⟩
      (reference.reboundTo ⟨b.next⟩) operation arguments
    ∃ out, ({ b with resolver } : Broker).connect.2.Writes ⟨b.next⟩ out result.2 ∧
      result.1.Single ⟨b.next⟩
        ((Codec.ofConfiguration b.configuration).Requests reference operation arguments) out := by
  have hlink := link?_connect_self (b := { b with resolver }) h
  -- The connection that a reference is bound to does not show in the request.
  exact single_invokeOn hlink rfl (reference.reboundTo ⟨b.next⟩) operation arguments

/-! ## What the resolver does -/

/-- The resolver keeps the invocation waiting, or refuses, or has a connection for it. -/
theorem resolve_cases (b : Broker) (reference : ObjectRef) (operation : String)
    (arguments : List Dynamic) :
    (b.resolver.held = true ∧ b.resolve reference operation arguments
        = (.pending (.resolving reference operation arguments), b)) ∨
      (∃ f, b.resolve reference operation arguments
        = (.failed f, { b with resolver := b.resolver.give (.refused f) })) ∨
      b.resolve reference operation arguments
        = b.connect.2.invokeOn ⟨b.next⟩ (reference.reboundTo ⟨b.next⟩) operation arguments := by
  unfold resolve Resolver.answer?
  by_cases hheld : b.resolver.held = true
  · rw [if_pos hheld]
    exact .inl ⟨hheld, rfl⟩
  · rw [if_neg hheld]
    by_cases havailable : b.resolver.available = 0
    · rw [if_pos havailable]
      exact .inr (.inl ⟨_, rfl⟩)
    · rw [if_neg havailable]
      exact .inr (.inr rfl)

/-- Polling the resolver is no asking. -/
theorem moves_resolve (hunused : b.link? ⟨b.next⟩ = none) (resolver : Resolver)
    (reference : ObjectRef) (operation : String) (arguments : List Dynamic) :
    let b' := (({ b with resolver } : Broker).resolve reference operation arguments).2
    b.Moves b' ∧ b'.resolver.asked = resolver.asked := by
  rcases ({ b with resolver } : Broker).resolve_cases reference operation arguments with
    ⟨-, hresolve⟩ | ⟨f, hresolve⟩ | hresolve
  · rw [hresolve]
    exact ⟨.keeps (.refl _ ⟨0⟩), rfl⟩
  · rw [hresolve]
    exact ⟨.keeps (.refl _ ⟨0⟩), rfl⟩
  · rw [hresolve]
    obtain ⟨out, hwrites, -⟩ := single_rebound hunused resolver reference operation arguments
    refine ⟨.adds hwrites, ?_⟩
    rw [hwrites.resolver_eq]
    rfl

/-- The three ways of an invocation: it is refused, it goes over the connection of its reference, or
    the resolver is asked and polled for the first time. -/
theorem invoke_cases (b : Broker) (reference : ObjectRef) (operation : String)
    (arguments : List Dynamic) :
    (reference.isNil = true ∧ b.invoke reference operation arguments
        = (.failed (.preconditionNotMet .nilReference), b)) ∨
      reference.isNil = false ∧
        ((∃ target, b.route? reference = some target ∧ b.invoke reference operation arguments
            = b.invokeOn target reference operation arguments) ∨
          b.route? reference = none ∧ b.invoke reference operation arguments
            = ({ b with resolver := b.resolver.ask reference } : Broker).resolve reference operation
                arguments) := by
  unfold invoke
  cases hnil : reference.isNil with
  | true => exact .inl ⟨rfl, rfl⟩
  | false =>
    refine .inr ⟨rfl, ?_⟩
    cases hroute : b.route? reference with
    | some target => exact .inl ⟨target, rfl, rfl⟩
    | none => exact .inr ⟨rfl, rfl⟩

end Broker

/-! ## One invocation -/

namespace Invocation

/-- Nothing was written. -/
def Silent (inv : Invocation) : Prop := ∀ id, inv.written id = []

/-- The invocation is a single request on its way over a connection, and uses no other. -/
def OnWay (c : Codec) (target : ConnectionId) (inv : Invocation) : Prop :=
  (∀ id, id ≠ target → inv.written id = []) ∧
    inv.progress.Single target (c.Requests inv.reference inv.operation inv.arguments)
      (inv.written target)

/-- The invocation waits for its resolver. It has written nothing, and the resolver was held in
    each of its steps so far. -/
structure Waits (inv : Invocation) : Prop where
  answered_eq : inv.answered = []
  attached_eq : inv.attached = []
  silent : inv.Silent
  held : inv.givenUp = false → ∀ s ∈ inv.steps, s.1.resolver.held = true

/-- The resolver has refused, and with that the invocation has failed. -/
structure Unresolved (f : Fault) (inv : Invocation) : Prop where
  answered_eq : inv.answered = [.refused f]
  attached_eq : inv.attached = []
  silent : inv.Silent
  progress_eq : inv.progress = .failed f

/-- A step from the one state of the broker to the other, in which a connection is attached and the
    reference of the invocation invoked over it. -/
structure Rebinds (target : ConnectionId) (inv : Invocation) (b b' : Broker) : Prop where
  /-- The connection has the number that is next in that state, and none had it before. -/
  target_eq : target = ⟨b.next⟩
  link?_eq_none : b.link? target = none
  /-- What is invoked over it is a copy of the reference that is bound to it, -/
  invoke_eq : ∃ resolver, b' = (({ b with resolver } : Broker).connect.2.invokeOn target
    (inv.reference.reboundTo target) inv.operation inv.arguments).2
  /-- and that it does not turn down. -/
  accepts : (b.connect.2.link? target).map
    (·.router.checkTarget (inv.reference.reboundTo target)) = some (.ok ())

/-- The resolver has given the invocation a connection, which was attached in that same step. -/
structure Reroutes (handedOut : List (ConnectionId × Role)) (target : ConnectionId)
    (inv : Invocation) : Prop where
  answered_eq : inv.answered = [.established]
  attached_eq : inv.attached = [target]
  mem_handedOut : (target, .initiator) ∈ handedOut
  rebinds : ∃ s ∈ inv.steps, inv.Rebinds target s.1 s.2

/-- The way that an invocation has taken, and how far it has come on it. -/
inductive Routed (c : Codec) (handedOut : List (ConnectionId × Role)) (inv : Invocation) :
    Prop where
  | refused (hnil : inv.reference.isNil = true) (hasked : inv.asked = []) (hsilent : inv.Silent)
      {f : Fault} (hfailed : inv.progress = .failed f)
  | bound (hobject : inv.reference.isNil = false) {target : ConnectionId}
      (hroute : inv.before.route? inv.reference = some target) (hasked : inv.asked = [])
      (hway : inv.OnWay c target)
  | resolving (hobject : inv.reference.isNil = false)
      (hroute : inv.before.route? inv.reference = none) (hasked : inv.asked = [inv.reference])
      (hwaits : inv.Waits)
      (hpending : inv.progress = .pending (.resolving inv.reference inv.operation inv.arguments))
  | unresolved (hobject : inv.reference.isNil = false)
      (hroute : inv.before.route? inv.reference = none) (hasked : inv.asked = [inv.reference])
      {f : Fault} (hunresolved : inv.Unresolved f)
  | rerouted (hobject : inv.reference.isNil = false)
      (hroute : inv.before.route? inv.reference = none) (hasked : inv.asked = [inv.reference])
      {target : ConnectionId} (hreroutes : inv.Reroutes handedOut target)
      (hway : inv.OnWay c target)

variable {c : Codec} {handedOut : List (ConnectionId × Role)} {inv : Invocation}
  {target : ConnectionId} {b b' : Broker} {progress : Progress} {givenUp : Bool}

theorem Routed.mono (h : inv.Routed c handedOut) (more : List (ConnectionId × Role)) :
    inv.Routed c (handedOut ++ more) := by
  cases h with
  | refused hnil hasked hsilent hfailed => exact .refused hnil hasked hsilent hfailed
  | bound hobject hroute hasked hway => exact .bound hobject hroute hasked hway
  | resolving hobject hroute hasked hwaits hpending =>
    exact .resolving hobject hroute hasked hwaits hpending
  | unresolved hobject hroute hasked hunresolved =>
    exact .unresolved hobject hroute hasked hunresolved
  | rerouted hobject hroute hasked hreroutes hway =>
    refine .rerouted hobject hroute hasked ?_ hway
    exact { hreroutes with mem_handedOut := List.mem_append_left _ hreroutes.mem_handedOut }

/-! ### One step more -/

@[simp] theorem written_note (inv : Invocation) (b b' : Broker) (id : ConnectionId) :
    (inv.note b b').written id = inv.written id ++ b.writtenSince b' id := by
  simp [written, note]

@[simp] theorem asked_note (inv : Invocation) (b b' : Broker) :
    (inv.note b b').asked = inv.asked ++ b.askedSince b' := by
  simp [asked, note]

@[simp] theorem answered_note (inv : Invocation) (b b' : Broker) :
    (inv.note b b').answered = inv.answered ++ b.answeredSince b' := by
  simp [answered, note]

@[simp] theorem attached_note (inv : Invocation) (b b' : Broker) :
    (inv.note b b').attached = inv.attached ++ b.attachedSince b' := by
  simp [attached, note]

section Writes

variable {id : ConnectionId} {more : List (List UInt8)}

/-- A step that only uses a connection asks nothing, -/
theorem asked_note_of_writes (inv : Invocation) (h : b.Writes id more b') :
    (inv.note b b').asked = inv.asked := by
  rw [asked_note, h.askedSince, List.append_nil]

/-- is given no answer, -/
theorem answered_note_of_writes (inv : Invocation) (h : b.Writes id more b') :
    (inv.note b b').answered = inv.answered := by
  rw [answered_note, h.answeredSince, List.append_nil]

/-- and attaches nothing. -/
theorem attached_note_of_writes (inv : Invocation) (h : b.Writes id more b') :
    (inv.note b b').attached = inv.attached := by
  rw [attached_note, h.attachedSince, List.append_nil]

end Writes

/-- What was left of an invocation is how far it has come. -/
theorem of_call? {call : Call} (h : inv.call? = some call) :
    inv.progress = .pending call ∧ inv.givenUp = false := by
  unfold call? at h
  split at h
  · rename_i heq
    split at h
    · cases h
    · rename_i hkept
      cases h
      exact ⟨heq, Bool.eq_false_iff.2 hkept⟩
  · cases h
  · cases h
  · cases h
  · cases h

/-- A request on its way is still so after a step that uses its connection and no other. -/
theorem OnWay.note (h : inv.OnWay c target) {more : List (List UInt8)}
    (hwrites : b.Writes target more b')
    (hsingle : progress.Single target (c.Requests inv.reference inv.operation inv.arguments)
      (inv.written target ++ more)) :
    ({ inv.note b b' with progress, givenUp } : Invocation).OnWay c target := by
  refine ⟨fun id hid => ?_, ?_⟩
  · exact (written_note inv b b' id).trans (by rw [h.1 id hid, hwrites.writtenSince_other hid]; rfl)
  · have hwritten := written_note inv b b' target
    rw [hwrites.writtenSince_self] at hwritten
    exact hwritten ▸ hsingle

/-- A request on its way does not wait for a connection any more. -/
theorem OnWay.progress_ne_resolving (h : inv.OnWay c target) {reference : ObjectRef}
    {operation : String} {arguments : List Dynamic} :
    inv.progress ≠ .pending (.resolving reference operation arguments) := by
  intro hpending
  have hsingle := h.2
  rw [hpending] at hsingle
  cases hsingle

theorem Reroutes.note (h : inv.Reroutes handedOut target) {more : List (List UInt8)}
    (hwrites : b.Writes target more b') :
    ({ inv.note b b' with progress, givenUp } : Invocation).Reroutes handedOut target where
  answered_eq := (inv.answered_note_of_writes hwrites).trans h.answered_eq
  attached_eq := (inv.attached_note_of_writes hwrites).trans h.attached_eq
  mem_handedOut := h.mem_handedOut
  rebinds := by
    obtain ⟨s, hs, hrebinds⟩ := h.rebinds
    exact ⟨s, List.mem_append_left _ hs, { hrebinds with }⟩

/-- An invocation that has an exchange left goes over the connection of the exchange, and its way
    stays the same after a step that uses that connection and no other. -/
theorem Routed.of_exchanging (h : inv.Routed c handedOut) {exchange : Exchange}
    (hpending : inv.progress = .pending (.exchanging exchange)) :
    ∃ target, inv.OnWay c target ∧
      ∀ {b b' : Broker} {more : List (List UInt8)} {progress : Progress} {givenUp : Bool},
        b.Writes target more b' →
        progress.Single target (c.Requests inv.reference inv.operation inv.arguments)
          (inv.written target ++ more) →
        ({ inv.note b b' with progress, givenUp } : Invocation).Routed c handedOut := by
  cases h with
  | bound hobject hroute hnone hway =>
    refine ⟨_, hway, fun hwrites hsingle => ?_⟩
    exact .bound hobject hroute ((inv.asked_note_of_writes hwrites).trans hnone)
      (hway.note hwrites hsingle)
  | rerouted hobject hroute honce hreroutes hway =>
    refine ⟨_, hway, fun hwrites hsingle => ?_⟩
    exact .rerouted hobject hroute ((inv.asked_note_of_writes hwrites).trans honce)
      (hreroutes.note hwrites) (hway.note hwrites hsingle)
  | refused _ _ _ hfailed => cases hpending.symm.trans hfailed
  | resolving _ _ _ _ hresolving => cases hpending.symm.trans hresolving
  | unresolved _ _ _ hunresolved => cases hpending.symm.trans hunresolved.progress_eq

/-- An invocation that is left with the resolver has only asked it so far. -/
theorem Routed.left_resolving (h : inv.Routed c handedOut) {reference : ObjectRef}
    {operation : String} {arguments : List Dynamic}
    (hpending : inv.progress = .pending (.resolving reference operation arguments)) :
    inv.reference.isNil = false ∧ inv.before.route? inv.reference = none ∧
      inv.asked = [inv.reference] ∧ inv.Waits ∧
      Call.resolving reference operation arguments
        = .resolving inv.reference inv.operation inv.arguments := by
  cases h with
  | resolving hobject hroute hasked hwaits hresolving =>
    exact ⟨hobject, hroute, hasked, hwaits,
      Progress.pending.inj (hpending.symm.trans hresolving)⟩
  | refused _ _ _ hfailed => cases hpending.symm.trans hfailed
  | unresolved _ _ _ hunresolved => cases hpending.symm.trans hunresolved.progress_eq
  | bound _ _ _ hway => exact absurd hpending hway.progress_ne_resolving
  | rerouted _ _ _ _ hway => exact absurd hpending hway.progress_ne_resolving

/-! ### The answer of the resolver

An invocation gets its answer in the step in which it asks or in a later one. In the first case the
resolver has meanwhile been asked, and otherwise it is as it was: `resolver` is what is polled. -/

section Answer

variable {resolver : Resolver} {result : Progress × Broker}

/-- A change of the resolver shows on no connection. -/
theorem Waits.note_resolver (h : inv.Waits) (resolver : Resolver) :
    (inv.note b { b with resolver }).attached = [] ∧
      (inv.note b { b with resolver }).Silent := by
  have hsame : ∀ id, ({ b with resolver } : Broker).Writes id [] { b with resolver } :=
    Broker.Writes.refl _
  constructor
  · rw [attached_note, h.attached_eq]
    exact (hsame ⟨0⟩).attachedSince
  · intro id
    rw [written_note, h.silent id]
    exact (hsame id).writtenSince_self

/-- The answer that the resolver gives is the first that the invocation gets. -/
theorem Waits.note_give (h : inv.Waits) (hanswered : resolver.answered = b.resolver.answered)
    {answer : Resolution} (hgiven : b'.resolver.answered = resolver.answered ++ [answer]) :
    (inv.note b b').answered = [answer] := by
  rw [answered_note, h.answered_eq, Broker.answeredSince, hgiven, hanswered, List.drop_left]
  rfl

/-- The resolver does not answer yet. -/
theorem Waits.still (h : inv.Waits) (hanswered : resolver.answered = b.resolver.answered)
    (hheld : b.resolver.held = true) (progress : Progress) :
    (inv.after b (progress, { b with resolver })).Waits where
  answered_eq := by
    refine (answered_note inv b _).trans ?_
    rw [h.answered_eq, Broker.answeredSince, hanswered, List.drop_length]
    rfl
  attached_eq := (h.note_resolver resolver).1
  silent := (h.note_resolver resolver).2
  held := by
    intro hkept s hs
    rcases List.mem_append.1 hs with hs | hs
    · exact h.held hkept s hs
    · rw [List.mem_singleton.1 hs]
      exact hheld

/-- The resolver refuses. -/
theorem Waits.unresolved (h : inv.Waits) (hanswered : resolver.answered = b.resolver.answered)
    (f : Fault) :
    (inv.after b (.failed f, { b with resolver := resolver.give (.refused f) })).Unresolved f where
  answered_eq := h.note_give hanswered rfl
  attached_eq := (h.note_resolver _).1
  silent := (h.note_resolver _).2
  progress_eq := rfl

/-- The resolver has a connection, which gets the number that is next by now. -/
theorem Waits.reroutes (h : inv.Waits) (hanswered : resolver.answered = b.resolver.answered)
    (hobject : inv.reference.isNil = false) (hunused : b.link? ⟨b.next⟩ = none)
    (hc : c = .ofConfiguration b.configuration)
    (hresult : result = ({ b with resolver } : Broker).connect.2.invokeOn ⟨b.next⟩
      (inv.reference.reboundTo ⟨b.next⟩) inv.operation inv.arguments) :
    b.attachedSince result.2 = [⟨b.next⟩] ∧
      (inv.after b result).Reroutes (handedOut ++ [(⟨b.next⟩, .initiator)]) ⟨b.next⟩ ∧
      (inv.after b result).OnWay c ⟨b.next⟩ := by
  obtain ⟨out, hwrites, hsingle⟩ := Broker.single_rebound hunused resolver inv.reference
    inv.operation inv.arguments
  rw [← hresult] at hwrites hsingle
  have hattached := Broker.attachedSince_of_connect hwrites
  obtain ⟨hself, hother⟩ := Broker.writtenSince_of_connect hunused hwrites
  have hrebinds : (inv.after b result).Rebinds ⟨b.next⟩ b result.2 := {
    target_eq := rfl
    link?_eq_none := hunused
    invoke_eq := ⟨_, congrArg Prod.snd hresult⟩
    accepts := by
      rw [Broker.link?_connect_self hunused]
      simp [Router.checkTarget, Router.new, Router.isClosed, after, note, hobject] }
  refine ⟨hattached, ?_, fun id hid => (written_note inv b result.2 id).trans ?_, ?_⟩
  · exact {
      answered_eq := h.note_give hanswered (congrArg Resolver.answered hwrites.resolver_eq)
      attached_eq := by
        refine (attached_note inv b result.2).trans ?_
        rw [h.attached_eq, hattached]
        rfl
      mem_handedOut := List.mem_append_right _ (List.mem_singleton_self _)
      rebinds := ⟨(b, result.2), List.mem_append_right _ (List.mem_singleton_self _), hrebinds⟩ }
  · rw [h.silent id, hother id hid]
    rfl
  · have hwritten := written_note inv b result.2 ⟨b.next⟩
    rw [h.silent, hself, List.nil_append] at hwritten
    rw [hc]
    exact hwritten ▸ hsingle

/-- **The answer of the resolver.** An invocation that waits, and one that has only just asked, goes
    on waiting if the resolver is held. Otherwise it fails with what the resolver says, or is on its
    way over a connection that is attached for it in this very step. -/
theorem routed_of_resolve (hresult : result =
      ({ b with resolver } : Broker).resolve inv.reference inv.operation inv.arguments)
    (hobject : inv.reference.isNil = false) (hroute : inv.before.route? inv.reference = none)
    (hasked : inv.asked ++ resolver.asked.drop b.resolver.asked.length = [inv.reference])
    (hanswered : resolver.answered = b.resolver.answered) (hheld : resolver.held = b.resolver.held)
    (hwaits : inv.Waits) (hunused : b.link? ⟨b.next⟩ = none)
    (hc : c = .ofConfiguration b.configuration) :
    (inv.after b result).Routed c
      (handedOut ++ (b.attachedSince result.2).map fun id => (id, .initiator)) := by
  have hpolled := (Broker.moves_resolve hunused resolver inv.reference inv.operation
    inv.arguments).2
  have hasked' : (inv.after b result).asked = [inv.reference] := by
    refine (asked_note inv b result.2).trans ?_
    rw [Broker.askedSince, hresult, hpolled]
    exact hasked
  rcases ({ b with resolver } : Broker).resolve_cases inv.reference inv.operation inv.arguments with
    ⟨hholds, hresolve⟩ | ⟨f, hresolve⟩ | hresolve
  · obtain rfl := hresult.trans hresolve
    exact .resolving hobject hroute hasked'
      (hwaits.still hanswered (hheld.symm.trans hholds) _) rfl
  · obtain rfl := hresult.trans hresolve
    exact .unresolved hobject hroute hasked' (hwaits.unresolved hanswered f)
  · obtain ⟨hattached, hreroutes, hway⟩ :=
      hwaits.reroutes hanswered hobject hunused hc (hresult.trans hresolve)
    rw [hattached]
    exact .rerouted hobject hroute hasked' hreroutes hway

/-- Giving up an invocation that waits for its resolver changes nothing. -/
theorem Routed.giveUp_resolving (h : inv.Routed c handedOut) {reference : ObjectRef}
    {operation : String} {arguments : List Dynamic}
    (hpending : inv.progress = .pending (.resolving reference operation arguments)) :
    ({ inv.note b b with givenUp := true } : Invocation).Routed c handedOut := by
  obtain ⟨hobject, hroute, hasked, hwaits, hcall⟩ := h.left_resolving hpending
  have hsame := Broker.Writes.refl b ⟨0⟩
  refine .resolving hobject hroute ((inv.asked_note_of_writes hsame).trans hasked) ?_
    (hpending.trans (congrArg _ hcall))
  exact {
    answered_eq := (inv.answered_note_of_writes hsame).trans hwaits.answered_eq
    attached_eq := (inv.attached_note_of_writes hsame).trans hwaits.attached_eq
    silent := (hwaits.note_resolver b.resolver).2
    held := fun hkept => by cases hkept }

end Answer

end Invocation

end ObjectBroker
