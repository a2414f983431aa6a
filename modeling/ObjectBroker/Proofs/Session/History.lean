import Mathlib.Logic.Relation
import ObjectBroker.Session.Router

/-!
# `ObjectBroker.Proofs.Session.History` — a router and those who wait for its replies

A router remembers requests by number. Whether it hands each reply to the right caller can only be
said with the callers in view: who sent what, who still waits, and what has happened since. A
`Session` is a router together with that. What is kept on the side of the callers is history, not
state: each ticket lists the operations performed since its request was numbered.

Operations come in any order. A request is under way between `send` and either `sent` or
`sendFailed`, and anything may happen meanwhile, replies to it included. A request whose sending is
given up half-way is neither out nor failed, and no part of this.

## Contents
- `Operation` and `Operation.decision?`: what an operation means for a request.
- `Ticket`, `Session`, `Session.step`, `Session.run`.
- `Router.slots_decide`, `Router.slots_unregister`, `Router.slots_handle`, `Router.slots_close`:
  each operation as one change to every slot.
- `Router.SameEnd`, `Router.decodeBody_eq`: what operations leave alone.
- `Router.request_cases`: what a request does to the router.
- `Router.Later`, `Session.later_run`: the same router after anything has been done to it.
- `Router.handedOver?`, `Router.decoded`: what an operation gives, and `Session.handedOver`,
  `Session.decoded` for operations one after the other.
-/

namespace ObjectBroker

/-! ## Operations -/

/-- What can happen to a router and its callers. -/
inductive Operation where
  /-- A request is numbered and written, and its message is on its way out. -/
  | send (reference : ObjectRef) (operation : String) (arguments : List Dynamic)
  /-- The message of a request is out; its sender waits for the reply from now on. -/
  | sent (id : UInt32)
  /-- The message of a request could not be sent. -/
  | sendFailed (id : UInt32)
  /-- A message arrives, whatever it contains. -/
  | handle (message : List UInt8)
  | unregister (id : UInt32)
  /-- The sender of a request looks for its outcome, and takes it if there is one. -/
  | collect (id : UInt32)
  /-- The sender of a request no longer waits. -/
  | drop (id : UInt32)
  | reply (id : UInt32) (status : ReplyStatus) (results : List Dynamic)
  | decodeArguments (request : IncomingRequest) (types : List TypeDesc)
  | decodeResults (reply : IncomingReply) (types : List TypeDesc)
  | close

/-- The outcome an operation has for a request, if the request is still undecided: a well-formed
    reply of its number is its outcome, unregistering it fails it, and so does the end of the
    connection, which is either announced, or due to foreign encoding parameters, or decided here.
    Every other operation means nothing to the request. -/
def Operation.decision? (connection : ConnectionId) (s : Settings) (id : UInt32) :
    Operation → Option RequestOutcome
  | .handle message =>
    match Message.parse s message with
    | .ok (.reply header body) =>
      if id = header.id then some (.replied ⟨connection, header, body⟩) else none
    | .ok .closing | .error (.encodingMismatch _) => some (.failed .connectionLost)
    | .ok (.request _ _) | .error _ => none
  | .unregister other =>
    if id = other then some (.failed (.preconditionNotMet (.unregistered id))) else none
  | .close => some (.failed .connectionLost)
  | .send _ _ _ | .sent _ | .sendFailed _ | .collect _ | .drop _ | .reply _ _ _
  | .decodeArguments _ _ | .decodeResults _ _ => none

/-! ## Sessions -/

/-- A request as its sender sees it: the number, whether the message is still on its way out, and
    what has happened since the request was numbered, the earliest first. -/
structure Ticket where
  id : UInt32
  sending : Bool := true
  since : List Operation := []

/-- The outcome of a request by its history: the first operation that has one for it decides. -/
def Ticket.outcome? (connection : ConnectionId) (s : Settings) (t : Ticket) :
    Option RequestOutcome :=
  t.since.findSome? (Operation.decision? connection s t.id)

/-- A router, the requests in the hands of their senders, and all the numbers used so far. -/
structure Session where
  router : Router
  tickets : List Ticket := []
  issued : List UInt32 := []

/-- The number a request takes, whether or not it can then be written. -/
def Router.numbered? (r : Router) (reference : ObjectRef) : Option UInt32 :=
  match r.checkTarget reference with
  | .ok () => r.ids.next?
  | .error _ => none

namespace Session

/-- A new connection. -/
def start (connection : ConnectionId) (role : Role) (codec : Codec) : Session :=
  { router := .new connection role codec }

/-- An operation becomes part of the history of every request. -/
def observe (s : Session) (op : Operation) : Session :=
  { s with tickets := s.tickets.map fun t => { t with since := t.since ++ [op] } }

/-- The sender of a request lets go of it, at the stage it is in. -/
def discard (s : Session) (id : UInt32) (sending : Bool) : Session :=
  if s.tickets.any fun t => t.id == id && t.sending == sending then
    { s with router := s.router.forget id, tickets := s.tickets.filter (·.id != id) }
  else
    s

/-- Carries an operation out. Only a request that is under way can be out or fail, and only one
    that is out can be waited for or dropped. Answering a request of the peer leaves the router as
    it is, whether the answer can be sent or not. -/
def perform (s : Session) : Operation → Session
  | .send reference operation arguments =>
    let issued := s.issued ++ (s.router.numbered? reference).toList
    match s.router.request reference operation arguments with
    | (.ok (id, _), router) => ⟨router, s.tickets ++ [{ id }], issued⟩
    | (.error _, router) => ⟨router, s.tickets, issued⟩
  | .sent id =>
    { s with tickets := s.tickets.map fun t => { t with sending := t.sending && t.id != id } }
  | .sendFailed id => s.discard id true
  | .handle message => { s with router := (s.router.handle message).2 }
  | .unregister id => { s with router := (s.router.unregister id).2 }
  | .collect id => if (s.router.outcome? id).isSome then s.discard id false else s
  | .drop id => s.discard id false
  | .reply _ _ _ => s
  | .decodeArguments request types =>
    { s with router := (s.router.decodeArguments request types).2 }
  | .decodeResults reply types => { s with router := (s.router.decodeResults reply types).2 }
  | .close => { s with router := s.router.close.2 }

/-- One operation, noted and carried out. -/
def step (s : Session) (op : Operation) : Session := (s.observe op).perform op

/-- Operations one after the other. -/
def run (s : Session) (ops : List Operation) : Session := ops.foldl step s

end Session

/-! ## What operations do to the slots of a router -/

/-- A slot takes an outcome if it has none. -/
def Slot.absorb (slot : Slot) (outcome? : Option RequestOutcome) : Slot :=
  { slot with outcome? := slot.outcome?.or outcome? }

@[simp] theorem Slot.absorb_none (slot : Slot) : slot.absorb none = slot := by
  simp only [absorb, Option.or_none]

theorem Slot.absorb_of_isSome {slot : Slot} (h : slot.outcome?.isSome = true)
    (outcome? : Option RequestOutcome) : slot.absorb outcome? = slot := by
  obtain ⟨first, hfirst⟩ := Option.isSome_iff_exists.1 h
  cases slot
  simp_all only [absorb, Option.some_or]

namespace Router

variable {r : Router}

/-- Every request is decided. -/
def Settled (r : Router) : Prop := ∀ slot ∈ r.slots, slot.outcome?.isSome = true

theorem Settled.map_absorb (h : r.Settled) (decision : Slot → Option RequestOutcome) :
    r.slots.map (fun slot => slot.absorb (decision slot)) = r.slots := by
  have hsame : ∀ slot ∈ r.slots, slot.absorb (decision slot) = slot := fun slot hslot =>
    Slot.absorb_of_isSome (h slot hslot) _
  rw [List.map_congr_left hsame, List.map_id']

theorem settled_markClosed (r : Router) : r.markClosed.Settled := by
  intro slot hslot
  obtain ⟨before, -, rfl⟩ := List.mem_map.1 hslot
  simp only [Option.isSome_or, Option.isSome_some, Bool.or_true]

theorem slots_decide (r : Router) (id : UInt32) (outcome : RequestOutcome) :
    (r.decide id outcome).slots
      = r.slots.map fun slot => slot.absorb (if slot.id = id then some outcome else none) := by
  refine List.map_congr_left fun slot _ => ?_
  by_cases hid : slot.id = id
  · simp only [hid, if_true, Slot.absorb]
  · simp only [hid, if_false, Slot.absorb_none]

/-- A request that is remembered and undecided is outstanding. -/
theorem mem_pending_iff {id : UInt32} :
    id ∈ r.pending ↔ ∃ slot ∈ r.slots, slot.outcome? = none ∧ slot.id = id := by
  simp only [pending, List.mem_map, List.mem_filter, Option.isNone_iff_eq_none, and_assoc]

variable (connection : ConnectionId) (s : Settings)

theorem slots_unregister (r : Router) (id : UInt32) :
    (r.unregister id).2.slots = r.slots.map fun slot =>
      slot.absorb ((Operation.unregister id).decision? connection s slot.id) := by
  unfold unregister
  split
  · rw [slots_decide]
    refine List.map_congr_left fun slot _ => ?_
    by_cases hid : slot.id = id
    · subst hid
      rfl
    · simp only [Operation.decision?, hid, if_false]
  · -- Nothing outstanding has the number, so what has it is decided already.
    rename_i hpending
    have hsame : ∀ slot ∈ r.slots,
        slot.absorb ((Operation.unregister id).decision? connection s slot.id) = slot := by
      intro slot hslot
      by_cases hid : slot.id = id
      · refine Slot.absorb_of_isSome ?_ _
        cases hdecided : slot.outcome? with
        | some outcome => rfl
        | none =>
          have hmem : id ∈ r.pending := mem_pending_iff.2 ⟨slot, hslot, hdecided, hid⟩
          exact absurd (List.contains_iff_mem.2 hmem) hpending
      · simp only [Operation.decision?, hid, if_false, Slot.absorb_none]
    rw [List.map_congr_left hsame, List.map_id']

/-- A message, whatever it contains, unless the connection is closed already. -/
theorem slots_handle (hopen : r.isClosed = true → r.Settled) (message : List UInt8)
    (hconnection : r.connection = connection) (hsettings : r.codec.settings = s) :
    (r.handle message).2.slots = r.slots.map fun slot =>
      slot.absorb ((Operation.handle message).decision? connection s slot.id) := by
  subst hconnection hsettings
  unfold handle
  split
  · rename_i hclosed
    exact ((hopen hclosed).map_absorb _).symm
  · simp only [Operation.decision?]
    cases hparse : Message.parse r.codec.settings message with
    | error f =>
      cases f with
      | encodingMismatch cause => rfl
      | _ => simp only [Slot.absorb_none, List.map_id']
    | ok m =>
      cases m with
      | request header body => simp only [Slot.absorb_none, List.map_id']
      | reply header body => exact slots_decide r _ _
      | closing => rfl

theorem slots_close (hopen : r.isClosed = true → r.Settled) :
    r.close.2.slots = r.slots.map fun slot =>
      slot.absorb (Operation.close.decision? connection s slot.id) := by
  unfold close
  split
  · rename_i hclosed
    exact ((hopen hclosed).map_absorb _).symm
  · rfl

/-- A message that closes the connection leaves nothing on it undecided. -/
theorem isClosed_handle (r : Router) (message : List UInt8) :
    (r.handle message).2.isClosed = r.isClosed ∨ (r.handle message).2.Settled := by
  unfold handle
  split
  · exact .inl rfl
  · split
    · exact .inr (settled_markClosed r)
    · exact .inl rfl
    · exact .inl rfl
    · exact .inl rfl
    · exact .inr (settled_markClosed r)

theorem isClosed_close (r : Router) : r.close.2.isClosed = r.isClosed ∨ r.close.2.Settled := by
  unfold close
  split
  · exact .inl rfl
  · exact .inr (settled_markClosed r)

theorem isClosed_unregister (r : Router) (id : UInt32) :
    (r.unregister id).2.isClosed = r.isClosed := by
  unfold unregister
  split <;> rfl

/-! ## What operations leave alone -/

/-- The router of the same end of the same connection, with the same numbers left. -/
structure SameEnd (r r' : Router) : Prop where
  connection : r'.connection = r.connection
  codec : r'.codec = r.codec
  ids : r'.ids = r.ids

theorem sameEnd_unregister (r : Router) (id : UInt32) : r.SameEnd (r.unregister id).2 := by
  unfold unregister
  split <;> exact ⟨rfl, rfl, rfl⟩

theorem sameEnd_handle (r : Router) (message : List UInt8) : r.SameEnd (r.handle message).2 := by
  unfold handle
  split
  · exact ⟨rfl, rfl, rfl⟩
  · split <;> exact ⟨rfl, rfl, rfl⟩

theorem sameEnd_close (r : Router) : r.SameEnd r.close.2 := by
  unfold close
  split <;> exact ⟨rfl, rfl, rfl⟩

/-- Decoding values may note that references have come in, and nothing else. -/
theorem decodeBody_eq (r : Router) (body : MessageBody) (types : List TypeDesc) :
    (r.decodeBody body types).2 = r ∨
      r.isClosed = false ∧ (r.decodeBody body types).2 = { r with state := .hasInboundRefs } := by
  unfold decodeBody
  split
  · unfold noteReferences
    split
    · rename_i hnoted
      refine .inr ⟨?_, rfl⟩
      simp only [isClosed, hnoted.1]
      rfl
    · exact .inl rfl
  · exact .inl rfl

/-! ## What a request does -/

/-- The router once a request has its number. -/
def remember (r : Router) (id : UInt32) (ids : RequestIds) : Router :=
  { r with ids, slots := r.slots ++ [{ id }] }

/-- A request is refused, and the router is as it was; or it takes the next number and is remembered
    under it, and is forgotten again if it cannot be written. -/
theorem request_cases (r : Router) (reference : ObjectRef) (operation : String)
    (arguments : List Dynamic) :
    (r.numbered? reference = none ∧
      ∃ f, r.request reference operation arguments = (.error f, r)) ∨
    ∃ id ids, r.numbered? reference = some id ∧ r.ids.take = .ok (id, ids) ∧
      r.isClosed = false ∧
      ((∃ message, r.request reference operation arguments = (.ok (id, message), r.remember id ids)) ∨
        ∃ f, r.request reference operation arguments = (.error f, (r.remember id ids).forget id)) := by
  unfold numbered? request
  cases htarget : r.checkTarget reference with
  | error f => exact .inl ⟨rfl, f, rfl⟩
  | ok _ =>
    -- The last check of the target is that the connection is open.
    have hopen : r.isClosed = false := by
      unfold checkTarget at htarget
      split at htarget
      · cases htarget
      · split at htarget
        · cases htarget
        · split at htarget
          · cases htarget
          · rename_i hopen
            exact Bool.eq_false_iff.2 hopen
    cases hnext : r.ids.next? with
    | none =>
      have htake : r.ids.take = .error (.preconditionNotMet .idsExhausted) := by
        simp only [RequestIds.take, hnext]
      refine .inl ⟨rfl, .preconditionNotMet .idsExhausted, ?_⟩
      simp only [register, htake]
    | some id =>
      have htake : r.ids.take = .ok (id, ⟨RequestIds.successor? id⟩) := by
        simp only [RequestIds.take, hnext]
      refine .inr ⟨id, ⟨RequestIds.successor? id⟩, rfl, htake, hopen, ?_⟩
      simp only [register, htake]
      split
      · exact .inl ⟨_, rfl⟩
      · exact .inr ⟨_, rfl⟩

/-! ## A router at a later time -/

/-- What can be done to a router. -/
inductive Change : Router → Router → Prop where
  | request (r : Router) (reference : ObjectRef) (operation : String) (arguments : List Dynamic) :
      Change r (r.request reference operation arguments).2
  | forget (r : Router) (id : UInt32) : Change r (r.forget id)
  | unregister (r : Router) (id : UInt32) : Change r (r.unregister id).2
  | handle (r : Router) (message : List UInt8) : Change r (r.handle message).2
  | decodeBody (r : Router) (body : MessageBody) (types : List TypeDesc) :
      Change r (r.decodeBody body types).2
  | close (r : Router) : Change r r.close.2

/-- The same router after anything has been done to it. -/
def Later : Router → Router → Prop := Relation.ReflTransGen Change

/-- Nothing that is done to a router gives it another connection or another codec. -/
theorem Change.same {r r' : Router} (h : r.Change r') :
    r'.connection = r.connection ∧ r'.codec = r.codec := by
  cases h with
  | request reference operation arguments =>
    rcases r.request_cases reference operation arguments with
      ⟨-, f, hrequest⟩ | ⟨id, ids, -, -, -, ⟨message, hrequest⟩ | ⟨f, hrequest⟩⟩
    · rw [hrequest]
      exact ⟨rfl, rfl⟩
    · rw [hrequest]
      exact ⟨rfl, rfl⟩
    · rw [hrequest]
      exact ⟨rfl, rfl⟩
  | forget id => exact ⟨rfl, rfl⟩
  | unregister id => exact ⟨(r.sameEnd_unregister id).connection, (r.sameEnd_unregister id).codec⟩
  | handle message => exact ⟨(r.sameEnd_handle message).connection, (r.sameEnd_handle message).codec⟩
  | decodeBody body types =>
    rcases r.decodeBody_eq body types with hsame | ⟨-, hnoted⟩
    · rw [hsame]
      exact ⟨rfl, rfl⟩
    · rw [hnoted]
      exact ⟨rfl, rfl⟩
  | close => exact ⟨r.sameEnd_close.connection, r.sameEnd_close.codec⟩

theorem Later.same {r r' : Router} (h : r.Later r') :
    r'.connection = r.connection ∧ r'.codec = r.codec := by
  induction h with
  | refl => exact ⟨rfl, rfl⟩
  | tail _ hchange ih =>
    obtain ⟨hconnection, hcodec⟩ := hchange.same
    exact ⟨hconnection.trans ih.1, hcodec.trans ih.2⟩

/-! ## What operations give -/

/-- The message that an operation hands to the connection. -/
def handedOver? (r : Router) : Operation → Option (List UInt8)
  | .send reference operation arguments =>
    match (r.request reference operation arguments).1 with
    | .ok (_, message) => some message
    | .error _ => none
  | .reply id status results => (r.replyMessage id status results).toOption
  | .close => r.close.1
  | .sent _ | .sendFailed _ | .handle _ | .unregister _ | .collect _ | .drop _
  | .decodeArguments _ _ | .decodeResults _ _ => none

/-- The values that an operation decodes. -/
def decoded (r : Router) : Operation → List Dynamic
  | .decodeArguments request types => (r.decodeArguments request types).1.toOption.getD []
  | .decodeResults reply types => (r.decodeResults reply types).1.toOption.getD []
  | .send _ _ _ | .sent _ | .sendFailed _ | .handle _ | .unregister _ | .collect _ | .drop _
  | .reply _ _ _ | .close => []

end Router

namespace Session

/-- Whatever is done on a connection, the router is the same one at a later time. -/
theorem later_step (σ : Session) (op : Operation) : σ.router.Later (σ.step op).router := by
  have hdiscard : ∀ id sending, σ.router.Later ((σ.observe op).discard id sending).router := by
    intro id sending
    unfold discard
    split
    · exact .single (.forget _ id)
    · exact .refl
  cases op with
  | send reference operation arguments =>
    have hrequest := Router.Change.request σ.router reference operation arguments
    unfold step perform
    dsimp only [observe]
    split
    · rename_i heq
      rw [heq] at hrequest
      exact .single hrequest
    · rename_i heq
      rw [heq] at hrequest
      exact .single hrequest
  | sent id => exact .refl
  | sendFailed id => exact hdiscard id true
  | handle message => exact .single (.handle _ message)
  | unregister id => exact .single (.unregister _ id)
  | collect id =>
    unfold step perform
    dsimp only
    split
    · exact hdiscard id false
    · exact .refl
  | drop id => exact hdiscard id false
  | reply id status results => exact .refl
  | decodeArguments request types => exact .single (.decodeBody _ request.body types)
  | decodeResults reply types => exact .single (.decodeBody _ reply.body types)
  | close => exact .single (.close _)

theorem later_run (σ : Session) (ops : List Operation) : σ.router.Later (σ.run ops).router := by
  induction ops generalizing σ with
  | nil => exact .refl
  | cons op ops ih => exact (σ.later_step op).trans (ih (σ.step op))

/-- The messages that operations one after the other hand to the connection. -/
def handedOver (σ : Session) : List Operation → List (List UInt8)
  | [] => []
  | op :: ops => (σ.router.handedOver? op).toList ++ (σ.step op).handedOver ops

/-- The values that operations one after the other decode. -/
def decoded (σ : Session) : List Operation → List Dynamic
  | [] => []
  | op :: ops => σ.router.decoded op ++ (σ.step op).decoded ops

theorem run_append (σ : Session) (ops more : List Operation) :
    σ.run (ops ++ more) = (σ.run ops).run more :=
  List.foldl_append

end Session

end ObjectBroker
