import ObjectBroker.Proofs.Session.Correlation
import ObjectBroker.Proofs.Session.Preamble
import ObjectBroker.Proofs.Values.Received

/-!
# `ObjectBroker.Proofs.Session.LifeCycle` — the stages in the life of a connection

A connection is established, then it may turn out that the peer has sent references over it, and at
some time it is closed. Which stage it is in has to follow from what was done with it and from
nothing else. In particular, what a peer sends must close the connection in two cases only, and
nothing may open it again.

The stage after any operations is told from the operations: whether one of them closes, and whether
one of them has decoded a reference to some object. A connection that is closed is over. It has
nothing outstanding, refuses whatever is asked of it, and sends nothing; what was outstanding has
failed.
-/

namespace ObjectBroker

/-- Whether an operation closes a connection of these parameters: it is closed on this side, or a
    message is taken in that announces the end or was written under other parameters. -/
def Operation.Closes (s : Settings) : Operation → Prop
  | .close => True
  | .handle message => Message.AnnouncesEnd s message ∨ Message.Foreign s message
  | .send _ _ _ | .sent _ | .sendFailed _ | .unregister _ | .collect _ | .drop _ | .reply _ _ _
  | .decodeArguments _ _ | .decodeResults _ _ => False

/-- Whether the value holds a reference to some object, at any depth. -/
def Dynamic.HoldsReference (x : Dynamic) : Prop := ∃ r ∈ x.payload.references, r.isNil = false

/-! ## One operation -/

namespace Router

variable {r : Router}

theorem isClosed_iff : r.isClosed = true ↔ r.state = .closed := by
  simp only [isClosed, decide_eq_true_eq]

theorem state_request (r : Router) (reference : ObjectRef) (operation : String)
    (arguments : List Dynamic) : (r.request reference operation arguments).2.state = r.state := by
  rcases r.request_cases reference operation arguments with
    ⟨-, f, hrequest⟩ | ⟨id, ids, -, -, -, ⟨message, hrequest⟩ | ⟨f, hrequest⟩⟩
  · rw [hrequest]
  · rw [hrequest]
    rfl
  · rw [hrequest]
    rfl

theorem state_unregister (r : Router) (id : UInt32) : (r.unregister id).2.state = r.state := by
  unfold unregister
  split <;> rfl

theorem state_close (r : Router) : r.close.2.state = .closed := by
  unfold close
  split
  · rename_i hclosed
    exact isClosed_iff.1 hclosed
  · rfl

/-- A message closes the connection if it is one of those that do, and leaves the stage as it is
    otherwise. -/
theorem state_handle (r : Router) (message : List UInt8) :
    ((Operation.handle message).Closes r.codec.settings →
        (r.handle message).2.state = .closed) ∧
      (¬(Operation.handle message).Closes r.codec.settings →
        (r.handle message).2.state = r.state) := by
  have hend := Message.parse_closing_iff r.codec.settings message
  have hforeign := Message.parse_mismatch_iff r.codec.settings message
  simp only [Operation.Closes, ← hend, ← hforeign]
  unfold handle
  split
  · rename_i hclosed
    exact ⟨fun _ => isClosed_iff.1 hclosed, fun _ => rfl⟩
  · split
    · rename_i cause hparse
      exact ⟨fun _ => rfl, fun h => absurd (.inr ⟨cause, hparse⟩) h⟩
    · rename_i f hmismatch hparse
      refine ⟨?_, fun _ => rfl⟩
      rintro (h | ⟨cause, h⟩)
      · rw [hparse] at h
        cases h
      · rw [hparse] at h
        cases h
        exact absurd rfl (hmismatch cause)
    · rename_i hparse
      simp [hparse]
    · rename_i hparse
      simp [hparse, decide]
    · rename_i hparse
      exact ⟨fun _ => rfl, fun h => absurd (.inl hparse) h⟩

/-- Decoding values notes the references among them, on a connection that is merely established. -/
theorem state_decodeBody (r : Router) (body : MessageBody) (types : List TypeDesc) :
    (r.decodeBody body types).2.state =
      if r.state = .established ∧
          ((r.decodeBody body types).1.toOption.getD []).any (·.payload.hasReference) then
        .hasInboundRefs
      else
        r.state := by
  cases hbody : body.decode r.codec types with
  | ok xs =>
    have hdecode : r.decodeBody body types = (.ok xs, r.noteReferences xs) := by
      simp only [decodeBody, hbody]
    rw [hdecode]
    show (r.noteReferences xs).state = if r.state = .established ∧ xs.any (·.payload.hasReference)
      then .hasInboundRefs else r.state
    unfold noteReferences
    by_cases hnoted : r.state = .established ∧ xs.any (·.payload.hasReference)
    · rw [if_pos hnoted, if_pos hnoted]
    · rw [if_neg hnoted, if_neg hnoted]
  | error f =>
    have hdecode : r.decodeBody body types = (.error f, r) := by
      simp only [decodeBody, hbody]
    rw [hdecode]
    simp [Except.toOption]

end Router

namespace Session

variable {connection : ConnectionId} {s : Settings} {role : Role} {σ : Session}

theorem state_discard (σ : Session) (id : UInt32) (sending : Bool) :
    (σ.discard id sending).router.state = σ.router.state := by
  unfold discard
  split <;> rfl

/-- **One step.** An operation that closes does so at any stage. Any other leaves the stage as it
    is, except that an established connection has inbound references from the first on that is
    decoded. -/
theorem state_step (σ : Session) (op : Operation) :
    (op.Closes σ.router.codec.settings → (σ.step op).router.state = .closed) ∧
      (¬op.Closes σ.router.codec.settings → (σ.step op).router.state =
        if σ.router.state = .established ∧
            (σ.router.decoded op).any (·.payload.hasReference) then
          .hasInboundRefs
        else
          σ.router.state) := by
  -- An operation that does not close and decodes nothing leaves the stage as it is.
  have hquiet : ∀ {state : ConnectionState} {op : Operation},
      ¬op.Closes σ.router.codec.settings → σ.router.decoded op = [] → state = σ.router.state →
      (op.Closes σ.router.codec.settings → state = .closed) ∧
        (¬op.Closes σ.router.codec.settings → state =
          if σ.router.state = .established ∧
              (σ.router.decoded op).any (·.payload.hasReference) then
            .hasInboundRefs
          else
            σ.router.state) := by
    intro state op hopen hnothing hstate
    refine ⟨fun h => absurd h hopen, fun _ => ?_⟩
    rw [hnothing, hstate]
    simp
  cases op with
  | send reference operation arguments =>
    refine hquiet id rfl ?_
    have hrequest := σ.router.state_request reference operation arguments
    unfold step perform
    dsimp only [observe]
    split
    · rename_i heq
      rwa [heq] at hrequest
    · rename_i heq
      rwa [heq] at hrequest
  | sent id => exact hquiet (fun h => h) rfl rfl
  | sendFailed id => exact hquiet (fun h => h) rfl (state_discard _ id true)
  | handle message =>
    obtain ⟨hcloses, hopen⟩ := σ.router.state_handle message
    refine ⟨hcloses, fun h => ?_⟩
    exact (hquiet h rfl (hopen h)).2 h
  | unregister id => exact hquiet (fun h => h) rfl (σ.router.state_unregister id)
  | collect id =>
    refine hquiet (fun h => h) rfl ?_
    unfold step perform
    dsimp only
    split
    · exact state_discard _ id false
    · rfl
  | drop id => exact hquiet (fun h => h) rfl (state_discard _ id false)
  | reply id status results => exact hquiet (fun h => h) rfl rfl
  | decodeArguments request types =>
    exact ⟨fun h => h.elim, fun _ => σ.router.state_decodeBody request.body types⟩
  | decodeResults reply types =>
    exact ⟨fun h => h.elim, fun _ => σ.router.state_decodeBody reply.body types⟩
  | close => exact ⟨fun _ => σ.router.state_close, fun h => absurd trivial h⟩

/-! ## Operations one after the other -/

/-- A connection is closed from the first operation on that closes it. -/
theorem closed_run_iff (h : σ.Tracked connection s role) (ops : List Operation) :
    (σ.run ops).router.state = .closed ↔
      σ.router.state = .closed ∨ ∃ op ∈ ops, op.Closes s := by
  induction ops generalizing σ with
  | nil => simp [run]
  | cons op ops ih =>
    obtain ⟨hcloses, hopen⟩ := σ.state_step op
    rw [h.settings_eq] at hcloses hopen
    have hrun := ih (tracked_step h op)
    show ((σ.step op).run ops).router.state = .closed ↔ _
    rw [hrun]
    by_cases hop : op.Closes s
    · simp [hop, hcloses hop]
    · have hstage : (σ.step op).router.state = .closed ↔ σ.router.state = .closed := by
        rw [hopen hop]
        split
        · rename_i hnoted
          simp [hnoted.1]
        · rfl
      simp [hop, hstage]

/-- An open connection has inbound references from the first on that is decoded. -/
theorem noted_run_iff (h : σ.Tracked connection s role) (ops : List Operation)
    (hopen : ∀ op ∈ ops, ¬op.Closes s) (hstart : σ.router.state ≠ .closed) :
    (σ.run ops).router.state = .hasInboundRefs ↔
      σ.router.state = .hasInboundRefs ∨
        (σ.decoded ops).any (·.payload.hasReference) = true := by
  induction ops generalizing σ with
  | nil => simp [run, decoded]
  | cons op ops ih =>
    obtain ⟨hop, hops⟩ := List.forall_mem_cons.1 hopen
    have hstage := (σ.state_step op).2 (h.settings_eq ▸ hop)
    have hstep : (σ.step op).router.state ≠ .closed := by
      rw [hstage]
      split
      · simp
      · exact hstart
    have hrun := ih (tracked_step h op) hops hstep
    show ((σ.step op).run ops).router.state = .hasInboundRefs ↔ _
    rw [hrun, decoded, List.any_append, Bool.or_eq_true, hstage]
    cases hstate : σ.router.state with
    | established => simp
    | hasInboundRefs => simp
    | closed => exact absurd hstate hstart

/-! ## The end of a connection -/

/-- A connection that is closed: nothing is outstanding, everything that is asked of it fails and
    changes nothing, and whatever is done next, no message is handed to it. -/
structure Over (connection : ConnectionId) (σ : Session) : Prop where
  closed : σ.router.state = .closed
  pending_eq : σ.router.pending = []
  request : ∀ reference operation arguments, reference.isNil = false →
    reference.connection = some connection →
    σ.router.request reference operation arguments = (.error .connectionLost, σ.router)
  reply : ∀ id status results, σ.router.replyMessage id status results = .error .connectionLost
  handle : ∀ message, σ.router.handle message = (.error .connectionLost, σ.router)
  silent : ∀ op, σ.router.handedOver? op = none

theorem over_of_closed (h : σ.Tracked connection s role) (hclosed : σ.router.state = .closed) :
    σ.Over connection := by
  have hisClosed : σ.router.isClosed = true := Router.isClosed_iff.2 hclosed
  exact {
    closed := hclosed
    pending_eq := by
      refine List.eq_nil_iff_forall_not_mem.2 fun id hid => ?_
      obtain ⟨slot, hslot, hundecided, -⟩ := Router.mem_pending_iff.1 hid
      have hdecided := h.settled hisClosed slot hslot
      rw [hundecided] at hdecided
      cases hdecided
    request := by
      intro reference operation arguments hnil hbound
      have htarget : σ.router.checkTarget reference = .error .connectionLost := by
        simp [Router.checkTarget, hnil, hbound, h.connection_eq, hisClosed]
      simp only [Router.request, htarget]
    reply := by
      intro id status results
      rw [Router.replyMessage, if_pos hisClosed]
    handle := by
      intro message
      rw [Router.handle, if_pos hisClosed]
    silent := by
      intro op
      cases op with
      | send reference operation arguments =>
        rcases σ.router.request_cases reference operation arguments with
          ⟨-, f, hrequest⟩ | ⟨id, ids, -, -, hopen, -⟩
        · simp only [Router.handedOver?, hrequest]
        · rw [hisClosed] at hopen
          cases hopen
      | reply id status results =>
        simp only [Router.handedOver?, Router.replyMessage, hisClosed, if_true]
        rfl
      | close => simp only [Router.handedOver?, Router.close, hisClosed, if_true]
      | _ => rfl }

/-- A closed connection stays closed, and nothing is handed to it. -/
theorem handedOver_of_closed (h : σ.Tracked connection s role)
    (hclosed : σ.router.state = .closed) (ops : List Operation) : σ.handedOver ops = [] := by
  induction ops generalizing σ with
  | nil => rfl
  | cons op ops ih =>
    have hstep : (σ.step op).router.state = .closed :=
      (closed_run_iff h [op]).2 (.inl hclosed)
    rw [handedOver, (over_of_closed h hclosed).silent op, ih (tracked_step h op) hstep]
    rfl

/-- An operation that closes means the loss of the connection to every request. -/
theorem decision?_of_closes {op : Operation} (hop : op.Closes s) (id : UInt32) :
    op.decision? connection s id = some (.failed .connectionLost) := by
  cases op with
  | handle message =>
    rcases hop with hend | hforeign
    · simp only [Operation.decision?, (Message.parse_closing_iff s message).2 hend]
    · obtain ⟨cause, hparse⟩ := (Message.parse_mismatch_iff s message).2 hforeign
      simp only [Operation.decision?, hparse]
  | close => rfl
  | _ => exact hop.elim

/-- What is outstanding when the connection is closed fails for the loss of it, and its sender still
    has it in hand. -/
theorem lost_step (h : σ.Tracked connection s role) {op : Operation} (hop : op.Closes s)
    {id : UInt32} (hid : id ∈ σ.router.pending) :
    (∃ t ∈ (σ.step op).tickets, t.id = id) ∧
      (σ.step op).router.outcome? id = some (.failed .connectionLost) := by
  obtain ⟨slot, hslot, hundecided, rfl⟩ := Router.mem_pending_iff.1 hid
  rw [h.slots_eq] at hslot
  obtain ⟨t, ht, rfl⟩ := List.mem_map.1 hslot
  have hnoted : { t with since := t.since ++ [op] } ∈ (σ.step op).tickets := by
    have hobserved : { t with since := t.since ++ [op] } ∈ (σ.observe op).tickets :=
      List.mem_map_of_mem ht
    cases op with
    | handle message => exact hobserved
    | close => exact hobserved
    | _ => exact hop.elim
  refine ⟨⟨_, hnoted, rfl⟩, ?_⟩
  have houtcome := (tracked_step h op).outcome_eq hnoted
  rw [Ticket.outcome?, List.findSome?_append] at houtcome
  -- Nothing had decided the request before, so the operation does.
  have hbefore : t.since.findSome? (Operation.decision? connection s t.id) = none := hundecided
  rw [hbefore, Option.none_or, List.findSome?_singleton, decision?_of_closes hop] at houtcome
  exact houtcome

end Session

/-! ## The life of a connection -/

/-- The message that an operation sends when it closes a connection of these parameters: closing it
    on this side tells the peer, and the other ways do not. -/
def Operation.farewell? (s : Settings) : Operation → Option (List UInt8)
  | .close => some (Codec.closing s)
  | _ => none

/-- **Life cycle.** What is known of a connection after operations one after the other. -/
structure LifeCycle (connection : ConnectionId) (s : Settings) (start : Session)
    (ops : List Operation) : Prop where
  /-- It is closed if one of the operations closes a connection, -/
  closed_iff : (start.run ops).router.state = .closed ↔ ∃ op ∈ ops, op.Closes s
  /-- has inbound references if none does and a reference to some object was decoded, -/
  noted_iff : (start.run ops).router.state = .hasInboundRefs ↔
    (∀ op ∈ ops, ¬op.Closes s) ∧ ∃ x ∈ start.decoded ops, x.HoldsReference
  /-- and is merely established otherwise. -/
  established_iff : (start.run ops).router.state = .established ↔
    (∀ op ∈ ops, ¬op.Closes s) ∧ ∀ x ∈ start.decoded ops, ¬x.HoldsReference
  /-- Once it is closed it is over, whatever is done next. -/
  ended : (start.run ops).router.state = .closed → ∀ more,
    ((start.run ops).run more).Over connection ∧ (start.run ops).handedOver more = []
  /-- An operation that closes it sends nothing, or the message that says so. -/
  farewell : (start.run ops).router.state ≠ .closed → ∀ op, op.Closes s →
    (start.run ops).router.handedOver? op = op.farewell? s
  /-- That message is sent by the side that closes, and whoever takes it in under the same
      parameters is told of the end. -/
  announced : ∃ message, Operation.farewell? s .close = some message ∧
    Message.parse s message = .ok .closing ∧ Message.AnnouncesEnd s message
  /-- What is outstanding then fails for the loss of the connection. Its sender has it in hand, and
      finds the fault at any later time at which that is still so. -/
  lost : (start.run ops).router.state ≠ .closed → ∀ op, op.Closes s →
    ∀ id ∈ (start.run ops).router.pending,
      (∃ t ∈ ((start.run ops).step op).tickets, t.id = id) ∧
        ∀ more, ∀ t ∈ (((start.run ops).step op).run more).tickets, t.id = id →
          (((start.run ops).step op).run more).router.outcome? id
            = some (.failed .connectionLost)

/-- The life of a connection of either side, after any operations in any order. -/
theorem life_cycle (connection : ConnectionId) (role : Role) (codec : Codec)
    (ops : List Operation) :
    LifeCycle connection codec.settings (.start connection role codec) ops := by
  have hstart := Session.tracked_start connection role codec
  have hrun := Session.tracked_run hstart ops
  have hclosed : ((Session.start connection role codec).run ops).router.state = .closed ↔
      ∃ op ∈ ops, op.Closes codec.settings := by
    rw [Session.closed_run_iff hstart ops]
    exact ⟨fun h => h.resolve_left (by rintro ⟨⟩), .inr⟩
  have hnoted : ((Session.start connection role codec).run ops).router.state = .hasInboundRefs ↔
      (∀ op ∈ ops, ¬op.Closes codec.settings) ∧
        ∃ x ∈ (Session.start connection role codec).decoded ops, x.HoldsReference := by
    by_cases hopen : ∀ op ∈ ops, ¬op.Closes codec.settings
    · rw [Session.noted_run_iff hstart ops hopen (by rintro ⟨⟩), List.any_eq_true]
      simp only [Payload.hasReference_iff]
      exact ⟨fun h => ⟨hopen, h.resolve_left (by rintro ⟨⟩)⟩, fun h => .inr h.2⟩
    · -- A connection that is closed has no other stage.
      have hstage : ((Session.start connection role codec).run ops).router.state = .closed := by
        rw [hclosed]
        simpa using hopen
      rw [hstage]
      exact ⟨fun h => (by cases h), fun h => absurd h.1 hopen⟩
  exact {
    closed_iff := hclosed
    noted_iff := hnoted
    established_iff := by
      have hopen : (∀ op ∈ ops, ¬op.Closes codec.settings) ↔
          ((Session.start connection role codec).run ops).router.state ≠ .closed := by
        rw [ne_eq, hclosed]
        simp
      rw [hopen] at hnoted ⊢
      cases hstage : ((Session.start connection role codec).run ops).router.state with
      | established => simpa [hstage] using hnoted
      | hasInboundRefs => simpa [hstage] using hnoted
      | closed => simp
    ended := by
      intro hstage more
      have hmore := Session.tracked_run hrun more
      have hstill := (Session.closed_run_iff hrun more).2 (.inl hstage)
      exact ⟨Session.over_of_closed hmore hstill, Session.handedOver_of_closed hrun hstage more⟩
    farewell := by
      intro hstage op hop
      have hopen : ¬((Session.start connection role codec).run ops).router.isClosed = true :=
        fun h => hstage (Router.isClosed_iff.1 h)
      cases op with
      | handle message => rfl
      | close =>
        rw [Router.handedOver?, Router.close, if_neg hopen, hrun.settings_eq]
        rfl
      | _ => exact hop.elim
    announced := by
      have hend : Message.AnnouncesEnd codec.settings (Codec.closing codec.settings) :=
        ⟨Nat.le_refl 4, rfl, rfl, rfl⟩
      exact ⟨_, rfl, (Message.parse_closing_iff _ _).2 hend, hend⟩
    lost := by
      intro hstage op hop id hid
      obtain ⟨hheld, hlost⟩ := Session.lost_step hrun hop hid
      refine ⟨hheld, ?_⟩
      rintro more t ht rfl
      exact (Session.tracked_step hrun op).final_run more ht hlost }

end ObjectBroker
