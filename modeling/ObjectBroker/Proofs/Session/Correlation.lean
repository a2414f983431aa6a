import Mathlib.Data.List.Induction
import Mathlib.Data.List.Nodup
import ObjectBroker.Proofs.Session.History

/-!
# `ObjectBroker.Proofs.Session.Correlation` — every reply reaches the request it answers

Whatever happens on a connection, in whatever order, each request that its sender has not let go of
has exactly the outcome its own history gives it, and is outstanding exactly until then. Nothing that
happens to other requests, and nothing a peer sends, changes that.

What carries the proof is that the slots of the router are the tickets of its callers, read through
their histories, and that no number is used twice. The first says what happens to a ticket by its
number; the second, that the number is nobody else's.
-/

namespace ObjectBroker

/-- The remainder by two of the numbers of a side. -/
def Role.parity : Role → Nat
  | .initiator => 1
  | .acceptor => 0

/-- What the router remembers of a request, by its history. -/
def Ticket.slot (connection : ConnectionId) (s : Settings) (t : Ticket) : Slot :=
  ⟨t.id, t.outcome? connection s⟩

namespace Session

/-! ## The invariant -/

/-- The router remembers what the callers hold, and numbers are not used twice. -/
structure Tracked (connection : ConnectionId) (s : Settings) (role : Role) (σ : Session) :
    Prop where
  connection_eq : σ.router.connection = connection
  settings_eq : σ.router.codec.settings = s
  /-- The slots are the tickets, read through their histories. -/
  slots_eq : σ.router.slots = σ.tickets.map (·.slot connection s)
  /-- Nothing is outstanding on a closed connection. -/
  settled : σ.router.isClosed = true → σ.router.Settled
  /-- Callers hold requests under numbers that were handed out, each under its own. -/
  held : (σ.tickets.map (·.id)).Sublist σ.issued
  increasing : σ.issued.Pairwise (· < ·)
  parity_eq : ∀ id ∈ σ.issued, id.toNat % 2 = role.parity
  /-- The next number is above all those handed out. -/
  fresh : ∀ next, σ.router.ids.next? = some next →
    next.toNat % 2 = role.parity ∧ ∀ id ∈ σ.issued, id < next

variable {connection : ConnectionId} {s : Settings} {role : Role} {σ : Session}

theorem tracked_start (connection : ConnectionId) (role : Role) (codec : Codec) :
    (start connection role codec).Tracked connection codec.settings role where
  connection_eq := rfl
  settings_eq := rfl
  slots_eq := rfl
  settled := by
    intro h
    cases h
  held := .slnil
  increasing := .nil
  parity_eq := by
    intro id hid
    cases hid
  fresh := by
    intro next hnext
    refine ⟨?_, fun id hid => by cases hid⟩
    cases role <;> cases hnext <;> rfl

theorem Tracked.nodup (h : σ.Tracked connection s role) : (σ.tickets.map (·.id)).Nodup :=
  (h.increasing.imp fun hlt heq => absurd (heq ▸ hlt) (UInt32.lt_irrefl _)).sublist h.held

/-! ## Steps that change every slot alike -/

/-- One more operation in the history of a request decides it, unless it is decided. -/
theorem slot_observe (op : Operation) (t : Ticket) :
    ({ t with since := t.since ++ [op] } : Ticket).slot connection s
      = (t.slot connection s).absorb (op.decision? connection s t.id) := by
  simp only [Ticket.slot, Ticket.outcome?, Slot.absorb, List.findSome?_append,
    List.findSome?_singleton]

/-- An operation that gives every slot its decision, and changes nothing else of what is tracked. -/
theorem Tracked.react {op : Operation} {r : Router} (h : σ.Tracked connection s role)
    (hend : σ.router.SameEnd r)
    (hslots : r.slots = σ.router.slots.map fun slot =>
      slot.absorb (op.decision? connection s slot.id))
    (hclosed : r.isClosed = σ.router.isClosed ∨ r.Settled) :
    ({ σ.observe op with router := r } : Session).Tracked connection s role where
  connection_eq := hend.connection.trans h.connection_eq
  settings_eq := hend.codec ▸ h.settings_eq
  slots_eq := by
    rw [hslots, h.slots_eq, observe, List.map_map, List.map_map]
    exact List.map_congr_left fun t _ => (slot_observe op t).symm
  settled := by
    intro hr
    rcases hclosed with hclosed | hsettled
    · -- The connection was closed before, so every slot had its outcome and has kept it.
      have hbefore := h.settled (hclosed ▸ hr)
      rw [hbefore.map_absorb] at hslots
      exact fun slot hslot => hbefore slot (hslots ▸ hslot)
    · exact hsettled
  held := by
    simp only [observe, List.map_map]
    exact h.held
  increasing := h.increasing
  parity_eq := h.parity_eq
  fresh := hend.ids ▸ h.fresh

/-- An operation that means nothing to any request is only noted. -/
theorem Tracked.note {op : Operation} (h : σ.Tracked connection s role)
    (hsilent : ∀ id, op.decision? connection s id = none) :
    (σ.observe op).Tracked connection s role := by
  refine Tracked.react h ⟨rfl, rfl, rfl⟩ ?_ (.inl rfl)
  simp only [hsilent, Slot.absorb_none, List.map_id']

/-! ## Steps that change what is held -/

/-- A request that its sender lets go of is forgotten. -/
theorem Tracked.discard (h : σ.Tracked connection s role) (id : UInt32) (sending : Bool) :
    (σ.discard id sending).Tracked connection s role := by
  unfold Session.discard
  split
  · exact {
      connection_eq := h.connection_eq
      settings_eq := h.settings_eq
      slots_eq := by
        simp only [Router.forget, h.slots_eq, List.filter_map]
        rfl
      settled := fun hclosed slot hslot => h.settled hclosed slot ((List.mem_filter.1 hslot).1)
      held := (List.filter_sublist.map _).trans h.held
      increasing := h.increasing
      parity_eq := h.parity_eq
      fresh := h.fresh }
  · exact h

/-- The stage a request is in does not matter to the router. -/
theorem Tracked.restage (h : σ.Tracked connection s role) (stage : Ticket → Bool) :
    ({ σ with tickets := σ.tickets.map fun t => { t with sending := stage t } } :
      Session).Tracked connection s role where
  connection_eq := h.connection_eq
  settings_eq := h.settings_eq
  slots_eq := by
    rw [h.slots_eq, List.map_map]
    rfl
  settled := h.settled
  held := by
    rw [List.map_map]
    exact h.held
  increasing := h.increasing
  parity_eq := h.parity_eq
  fresh := h.fresh

/-! ## Requests -/

/-- A number that is taken leaves its successor to be taken next. -/
theorem next?_of_take {ids rest : RequestIds} {id : UInt32} (h : ids.take = .ok (id, rest)) :
    ids.next? = some id ∧ rest.next? = RequestIds.successor? id := by
  unfold RequestIds.take at h
  split at h
  · rename_i next hnext
    injection h with h
    injection h with hid hrest
    subst hid hrest
    exact ⟨hnext, rfl⟩
  · cases h

/-- A number is used up, whether or not a request comes of it. -/
theorem Tracked.number {id : UInt32} {ids : RequestIds} (h : σ.Tracked connection s role)
    (htake : σ.router.ids.take = .ok (id, ids)) :
    ({ σ with router := { σ.router with ids }, issued := σ.issued ++ [id] } :
      Session).Tracked connection s role := by
  obtain ⟨hid, hsuccessor⟩ := next?_of_take htake
  obtain ⟨hparity, hlt⟩ := h.fresh id hid
  exact {
    connection_eq := h.connection_eq
    settings_eq := h.settings_eq
    slots_eq := h.slots_eq
    settled := h.settled
    held := h.held.trans (List.sublist_append_left _ _)
    increasing := by
      refine List.pairwise_append.2 ⟨h.increasing, List.pairwise_singleton _ _, ?_⟩
      intro earlier hearlier later hlater
      rw [List.mem_singleton.1 hlater]
      exact hlt earlier hearlier
    parity_eq := by
      intro n hn
      rcases List.mem_append.1 hn with hn | hn
      · exact h.parity_eq n hn
      · rw [List.mem_singleton.1 hn]
        exact hparity
    fresh := by
      intro next hnext
      have htwo := RequestIds.toNat_of_successor? (hsuccessor ▸ hnext)
      refine ⟨by omega, ?_⟩
      intro n hn
      have hle : n.toNat ≤ id.toNat := by
        rcases List.mem_append.1 hn with hn | hn
        · exact Nat.le_of_lt (UInt32.lt_iff_toNat_lt.1 (hlt n hn))
        · exact Nat.le_of_eq (congrArg UInt32.toNat (List.mem_singleton.1 hn))
      exact UInt32.lt_iff_toNat_lt.2 (by omega) }

/-- A request that takes a number is remembered under it. -/
theorem Tracked.remember {id : UInt32} {ids : RequestIds} (h : σ.Tracked connection s role)
    (hopen : σ.router.isClosed = false) (htake : σ.router.ids.take = .ok (id, ids)) :
    (⟨σ.router.remember id ids, σ.tickets ++ [⟨id, true, []⟩], σ.issued ++ [id]⟩ :
      Session).Tracked connection s role where
  connection_eq := h.connection_eq
  settings_eq := h.settings_eq
  slots_eq := by
    simp only [Router.remember, h.slots_eq, List.map_append]
    rfl
  settled := by
    intro hclosed
    -- Numbering a request does not close the connection, and it was open.
    have : σ.router.isClosed = true := hclosed
    rw [hopen] at this
    cases this
  held := by
    rw [List.map_append]
    exact h.held.append (List.Sublist.refl [id])
  increasing := (h.number htake).increasing
  parity_eq := (h.number htake).parity_eq
  fresh := (h.number htake).fresh

/-- Nothing is remembered under a number that is still to be taken. -/
theorem Tracked.slot_ne {id : UInt32} {ids : RequestIds} (h : σ.Tracked connection s role)
    (htake : σ.router.ids.take = .ok (id, ids)) : ∀ slot ∈ σ.router.slots, slot.id ≠ id := by
  have hfresh := (h.fresh id (next?_of_take htake).1).2
  intro slot hslot
  -- Every slot is that of a ticket, and so has a number that was handed out before.
  rw [h.slots_eq] at hslot
  obtain ⟨t, ht, rfl⟩ := List.mem_map.1 hslot
  have hlt : t.id < id := hfresh t.id (h.held.subset (List.mem_map_of_mem ht))
  exact UInt32.ne_of_lt hlt

/-- A request that cannot be written is forgotten as if it had never been remembered. -/
theorem Tracked.forget_remember {id : UInt32} {ids : RequestIds}
    (h : σ.Tracked connection s role) (htake : σ.router.ids.take = .ok (id, ids)) :
    (σ.router.remember id ids).forget id = { σ.router with ids } := by
  have hother : ∀ slot ∈ σ.router.slots, (slot.id != id) = true := fun slot hslot =>
    bne_iff_ne.2 (h.slot_ne htake slot hslot)
  simp only [Router.remember, Router.forget, List.filter_append, List.filter_eq_self.2 hother]
  simp

theorem Tracked.send (h : σ.Tracked connection s role) (reference : ObjectRef)
    (operation : String) (arguments : List Dynamic) :
    (σ.perform (.send reference operation arguments)).Tracked connection s role := by
  unfold perform
  rcases σ.router.request_cases reference operation arguments with
    ⟨hnumber, f, hrequest⟩ | ⟨id, ids, hnumber, htake, hopen, ⟨message, hrequest⟩ | ⟨f, hrequest⟩⟩
  · simp only [hrequest, hnumber, Option.toList_none, List.append_nil]
    exact h
  · simp only [hrequest, hnumber, Option.toList_some]
    exact h.remember hopen htake
  · simp only [hrequest, hnumber, Option.toList_some, h.forget_remember htake]
    exact h.number htake

/-- Decoding the values of a message concerns no request. -/
theorem Tracked.decodeBody (h : σ.Tracked connection s role) (body : MessageBody)
    (types : List TypeDesc) :
    ({ σ with router := (σ.router.decodeBody body types).2 } : Session).Tracked connection s
      role := by
  rcases σ.router.decodeBody_eq body types with heq | ⟨-, heq⟩
  · rw [heq]
    exact h
  · rw [heq]
    exact { h with
      settled := by
        intro hclosed
        cases hclosed }

/-! ## Every step -/

/-- **One step.** Whatever is done next, the router keeps track. -/
theorem tracked_step (h : σ.Tracked connection s role) (op : Operation) :
    (σ.step op).Tracked connection s role := by
  cases op with
  | send reference operation arguments =>
    exact Tracked.send (h.note fun _ => rfl) reference operation arguments
  | sent id => exact Tracked.restage (h.note fun _ => rfl) fun t => t.sending && t.id != id
  | sendFailed id => exact Tracked.discard (h.note fun _ => rfl) id true
  | handle message =>
    have hslots := Router.slots_handle connection s h.settled message h.connection_eq
      h.settings_eq
    exact h.react (σ.router.sameEnd_handle message) hslots (σ.router.isClosed_handle message)
  | unregister id =>
    exact h.react (σ.router.sameEnd_unregister id) (σ.router.slots_unregister connection s id)
      (.inl (σ.router.isClosed_unregister id))
  | collect id =>
    have hnoted : (σ.observe (.collect id)).Tracked connection s role := h.note fun _ => rfl
    unfold step perform
    dsimp only
    split
    · exact hnoted.discard id false
    · exact hnoted
  | drop id => exact Tracked.discard (h.note fun _ => rfl) id false
  | reply id status results => exact h.note fun _ => rfl
  | decodeArguments request types =>
    exact Tracked.decodeBody (h.note fun _ => rfl) request.body types
  | decodeResults reply types => exact Tracked.decodeBody (h.note fun _ => rfl) reply.body types
  | close =>
    exact h.react σ.router.sameEnd_close (Router.slots_close connection s h.settled)
      σ.router.isClosed_close

theorem tracked_run (h : σ.Tracked connection s role) (ops : List Operation) :
    (σ.run ops).Tracked connection s role := by
  induction ops generalizing σ with
  | nil => exact h
  | cons op ops ih => exact ih (tracked_step h op)

/-! ## Where tickets come from -/

/-- A request that is held after an operation was held before, with the operation added to its
    history; or it has just taken its number and been written, and has no history. -/
theorem held_before {op : Operation} {t : Ticket} (ht : t ∈ (σ.step op).tickets) :
    (∃ t₀ ∈ σ.tickets, t.id = t₀.id ∧ t.since = t₀.since ++ [op]) ∨
      (∃ ids, σ.router.ids.take = .ok (t.id, ids)) ∧ t.since = [] ∧
        ∃ reference operation arguments message, op = .send reference operation arguments ∧
          (σ.router.request reference operation arguments).1 = .ok (t.id, message) := by
  have hnoted : ∀ t ∈ (σ.observe op).tickets,
      ∃ t₀ ∈ σ.tickets, t.id = t₀.id ∧ t.since = t₀.since ++ [op] := by
    intro t ht
    obtain ⟨t₀, ht₀, rfl⟩ := List.mem_map.1 ht
    exact ⟨t₀, ht₀, rfl, rfl⟩
  have hdiscard : ∀ id sending, t ∈ ((σ.observe op).discard id sending).tickets →
      t ∈ (σ.observe op).tickets := by
    intro id sending ht
    unfold Session.discard at ht
    split at ht
    · exact (List.mem_filter.1 ht).1
    · exact ht
  cases op with
  | send reference operation arguments =>
    unfold step perform at ht
    rcases σ.router.request_cases reference operation arguments with
      ⟨-, f, hrequest⟩ | ⟨id, ids, -, htake, -, ⟨message, hrequest⟩ | ⟨f, hrequest⟩⟩
    · simp only [observe, hrequest] at ht
      exact .inl (hnoted t ht)
    · simp only [observe, hrequest] at ht
      rcases List.mem_append.1 ht with ht | ht
      · exact .inl (hnoted t ht)
      · obtain rfl := List.mem_singleton.1 ht
        exact .inr ⟨⟨ids, htake⟩, rfl, reference, operation, arguments, message, rfl,
          congrArg Prod.fst hrequest⟩
    · simp only [observe, hrequest] at ht
      exact .inl (hnoted t ht)
  | sent id =>
    obtain ⟨t₁, ht₁, rfl⟩ := List.mem_map.1 ht
    exact .inl (hnoted t₁ ht₁)
  | sendFailed id => exact .inl (hnoted t (hdiscard id true ht))
  | collect id =>
    unfold step perform at ht
    dsimp only at ht
    split at ht
    · exact .inl (hnoted t (hdiscard id false ht))
    · exact .inl (hnoted t ht)
  | drop id => exact .inl (hnoted t (hdiscard id false ht))
  | _ => exact .inl (hnoted t ht)

/-- The numbers that were handed out stay on record. -/
theorem issued_prefix_step (σ : Session) (op : Operation) :
    σ.issued <+: (σ.step op).issued := by
  have hdiscard : ∀ id sending, ((σ.observe op).discard id sending).issued = σ.issued := by
    intro id sending
    unfold Session.discard
    split <;> rfl
  cases op with
  | send reference operation arguments =>
    unfold step perform
    dsimp only [observe]
    split <;> exact List.prefix_append _ _
  | sendFailed id => exact (hdiscard id true).symm ▸ List.prefix_rfl
  | collect id =>
    unfold step perform
    dsimp only
    split
    · exact (hdiscard id false).symm ▸ List.prefix_rfl
    · exact List.prefix_rfl
  | drop id => exact (hdiscard id false).symm ▸ List.prefix_rfl
  | _ => exact List.prefix_rfl

theorem issued_prefix_run (σ : Session) (ops : List Operation) :
    σ.issued <+: (σ.run ops).issued := by
  induction ops generalizing σ with
  | nil => exact List.prefix_rfl
  | cons op ops ih => exact (σ.issued_prefix_step op).trans (ih (σ.step op))

/-! ## What callers rely on -/

/-- **Correlation.** What holds between a router and its callers after any operations. -/
structure Correlated (connection : ConnectionId) (s : Settings) (role : Role) (σ : Session) :
    Prop where
  /-- A request that is held has the outcome its own history gives it, and none before. -/
  outcome_eq : ∀ t ∈ σ.tickets, σ.router.outcome? t.id = t.outcome? connection s
  /-- An outcome is final: whatever is done next, a request that is still held keeps it. -/
  final : ∀ op, ∀ t ∈ (σ.step op).tickets, ∀ outcome,
    σ.router.outcome? t.id = some outcome → (σ.step op).router.outcome? t.id = some outcome
  /-- Outstanding are exactly the requests that are held and undecided. -/
  pending_eq : σ.router.pending
    = (σ.tickets.filter fun t => (t.outcome? connection s).isNone).map (·.id)
  /-- Requests are held under numbers that were handed out, each under its own. -/
  held : (σ.tickets.map (·.id)).Sublist σ.issued
  /-- A request that is refused or cannot be written leaves no entry behind. -/
  refused : ∀ reference operation arguments f r,
    σ.router.request reference operation arguments = (.error f, r) → r.slots = σ.router.slots
  /-- A request whose message cannot be sent leaves no entry behind. -/
  unsent : ∀ t ∈ σ.tickets, t.sending = true →
    ∀ slot ∈ (σ.step (.sendFailed t.id)).router.slots, slot.id ≠ t.id
  /-- Numbers increase, so none is used again. -/
  increasing : σ.issued.Pairwise (· < ·)
  /-- The numbers of the side that opened the connection are odd, those of the other even. -/
  parity_eq : ∀ id ∈ σ.issued, id.toNat % 2 = role.parity

/-- A ticket is found by its number. -/
theorem Tracked.find?_ticket (h : σ.Tracked connection s role) {t : Ticket} (ht : t ∈ σ.tickets) :
    σ.tickets.find? (·.id == t.id) = some t := by
  cases hfound : σ.tickets.find? (·.id == t.id) with
  | none =>
    have := List.find?_eq_none.1 hfound t ht
    simp at this
  | some found =>
    -- Some ticket with the number is found, and the number is on no other ticket.
    have hid : found.id = t.id := by simpa using List.find?_some hfound
    have hmem : found ∈ σ.tickets := List.mem_of_find?_eq_some hfound
    rw [List.inj_on_of_nodup_map h.nodup hmem ht hid]

/-- A request that is held has the outcome its own history gives it. -/
theorem Tracked.outcome_eq (h : σ.Tracked connection s role) {t : Ticket} (ht : t ∈ σ.tickets) :
    σ.router.outcome? t.id = t.outcome? connection s := by
  have hslot : (·.id == t.id) ∘ (fun t : Ticket => t.slot connection s)
      = fun other => other.id == t.id := rfl
  rw [Router.outcome?, h.slots_eq, List.find?_map, hslot, h.find?_ticket ht]
  rfl

/-- A request that is decided is held, and decided by its history. -/
theorem Tracked.exists_ticket (h : σ.Tracked connection s role) {id : UInt32}
    {outcome : RequestOutcome} (hdecided : σ.router.outcome? id = some outcome) :
    ∃ t ∈ σ.tickets, t.id = id ∧ t.outcome? connection s = some outcome := by
  obtain ⟨slot, hfound, hdecided⟩ := Option.bind_eq_some_iff.1 hdecided
  have hid : slot.id = id := by simpa using List.find?_some hfound
  have hslot := List.mem_of_find?_eq_some hfound
  rw [h.slots_eq] at hslot
  obtain ⟨t, ht, rfl⟩ := List.mem_map.1 hslot
  exact ⟨t, ht, hid, hdecided⟩

/-- An outcome is final. -/
theorem Tracked.final (h : σ.Tracked connection s role) {op : Operation} {t : Ticket}
    (ht : t ∈ (σ.step op).tickets) {outcome : RequestOutcome}
    (hdecided : σ.router.outcome? t.id = some outcome) :
    (σ.step op).router.outcome? t.id = some outcome := by
  rcases held_before ht with ⟨t₀, ht₀, hid, hsince⟩ | ⟨⟨ids, htake⟩, -⟩
  · -- The operation comes last in the history, behind the one that decided.
    rw [hid, h.outcome_eq ht₀] at hdecided
    rw [(tracked_step h op).outcome_eq ht, Ticket.outcome?, hsince, List.findSome?_append, hid]
    rw [Ticket.outcome?] at hdecided
    rw [hdecided, Option.some_or]
  · -- Under a number that was not taken yet nothing was decided.
    obtain ⟨slot, hslot, -⟩ := Option.bind_eq_some_iff.1 hdecided
    have hid : slot.id = t.id := by simpa using List.find?_some hslot
    exact absurd hid (h.slot_ne htake slot (List.mem_of_find?_eq_some hslot))

/-- An outcome stays for as long as the request is held, whatever is done in the meantime. -/
theorem Tracked.final_run (h : σ.Tracked connection s role) (ops : List Operation) {t : Ticket}
    (ht : t ∈ (σ.run ops).tickets) {outcome : RequestOutcome}
    (hdecided : σ.router.outcome? t.id = some outcome) :
    (σ.run ops).router.outcome? t.id = some outcome := by
  induction ops using List.reverseRecOn generalizing t with
  | nil => exact hdecided
  | append_singleton ops op ih =>
    have hbefore := tracked_run h ops
    rw [run_append] at ht ⊢
    rcases held_before ht with ⟨t₀, ht₀, hid, -⟩ | ⟨⟨ids, htake⟩, -⟩
    · rw [hid] at hdecided
      exact hbefore.final ht (hid ▸ ih ht₀ hdecided)
    · -- A number that is decided was handed out, so it cannot be taken again.
      obtain ⟨t₀, ht₀, hid, -⟩ := h.exists_ticket hdecided
      have hissued : t₀.id ∈ (σ.run ops).issued :=
        (σ.issued_prefix_run ops).subset (h.held.subset (List.mem_map_of_mem ht₀))
      have hlt := (hbefore.fresh t.id (next?_of_take htake).1).2 t₀.id hissued
      exact absurd hid (UInt32.ne_of_lt hlt)

theorem Tracked.correlated (h : σ.Tracked connection s role) : σ.Correlated connection s role where
  outcome_eq := fun t ht => h.outcome_eq ht
  final := fun op t ht outcome hdecided => h.final ht hdecided
  pending_eq := by
    rw [Router.pending, h.slots_eq, List.filter_map, List.map_map]
    rfl
  held := h.held
  refused := by
    intro reference operation arguments f r hrefused
    rcases σ.router.request_cases reference operation arguments with
      ⟨-, f', hrequest⟩ | ⟨id, ids, -, htake, -, ⟨message, hrequest⟩ | ⟨f', hrequest⟩⟩
    · rw [hrequest] at hrefused
      cases hrefused
      rfl
    · rw [hrequest] at hrefused
      cases hrefused
    · rw [hrequest, h.forget_remember htake] at hrefused
      cases hrefused
      rfl
  unsent := by
    intro t ht hsending slot hslot
    have hheld : ((σ.observe (.sendFailed t.id)).tickets.any fun other =>
        other.id == t.id && other.sending == true) = true := by
      refine List.any_eq_true.2 ⟨_, List.mem_map_of_mem ht, ?_⟩
      simp [hsending]
    rw [step, perform, Session.discard, if_pos hheld] at hslot
    simpa using (List.mem_filter.1 hslot).2
  increasing := h.increasing
  parity_eq := h.parity_eq

end Session

/-- **Request correlation.** On a connection of either side, after any operations in any order,
    each request its sender holds has the outcome that the first decisive operation since it was
    numbered gives it, and is outstanding until then; requests that fail leave no entry; and
    numbers increase and keep to the side. -/
theorem correlated_run (connection : ConnectionId) (role : Role) (codec : Codec)
    (ops : List Operation) :
    ((Session.start connection role codec).run ops).Correlated connection codec.settings role :=
  (Session.tracked_run (Session.tracked_start connection role codec) ops).correlated

/-- A reference to an object at the other end of the first connection. -/
def heldReference : ObjectRef := ⟨"S", [5], some ⟨1⟩⟩

/-- A reply to the first request. -/
def firstReply : List UInt8 := [1, 2, 1, 0, 1, 0, 0, 0, 0, 0, 0, 0]

/-- A request is made and answered, one that is bound elsewhere is refused, and another is made. The
    answer comes once more with another status, and the answered request is taken back. -/
def answeredOperations : List Operation :=
  [.send heldReference "a" [], .sent 1, .send (heldReference.reboundTo ⟨2⟩) "b" [],
    .send heldReference "c" [], .handle firstReply,
    .handle [1, 2, 1, 0, 1, 0, 0, 0, 1, 0, 0, 0], .unregister 1, .sent 3]

/-- The first answer is the outcome of the first request. The one that was refused has taken no
    number and left no entry, and the last is outstanding. -/
theorem correlated_answered :
    let σ := (Session.start ⟨1⟩ .initiator {}).run answeredOperations
    σ.issued = [1, 3] ∧ σ.tickets.map (·.id) = [1, 3] ∧
      σ.router.outcome? 1 = some (.replied ⟨⟨1⟩, ⟨1, .noException⟩, ⟨firstReply, 12⟩⟩) ∧
      σ.router.request (heldReference.reboundTo ⟨2⟩) "b" []
        = (.error .foreignConnection, σ.router) ∧
      σ.router.slots.map (·.id) = [1, 3] ∧ σ.router.pending = [3] ∧
      σ.Correlated ⟨1⟩ {} .initiator :=
  ⟨by rfl, by rfl, by rfl, by rfl, by rfl, by rfl,
    correlated_run ⟨1⟩ .initiator {} answeredOperations⟩

end ObjectBroker
