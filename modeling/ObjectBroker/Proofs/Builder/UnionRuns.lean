import ObjectBroker.Proofs.Builder.Parts
import ObjectBroker.Proofs.Builder.Zero
import ObjectBroker.Proofs.Types.ImplicitDefault
import ObjectBroker.Proofs.Values.Equality

/-!
# `ObjectBroker.Proofs.Builder.UnionRuns` — a union through a run of calls

A call changes a union in place: it takes out the value that is held and puts another in. All its
checks come before that, so a call that fails has changed nothing, and a run is a run of the calls in
it that succeeded.

In a union of a checked type the discriminant is in range and selects the branch that is held,
through every run. For a discriminant that is set, this is what is checked. A branch that is set
either keeps the discriminant it is held under, or takes its first label, or what is left over for
the default branch; and each of these selects the branch again, as no label occurs twice. So the
branch need not be sent: it is found again when a union is made from its value.
-/

namespace ObjectBroker

/-! ## In place and as values -/

namespace UnionValue

variable {u u' : UnionValue} {c : UnionCall} {d : Int64} {f : Fault}

theorem get_bind {α : Type} (k : UnionValue → InPlace α) : (get >>= k) u = k u u := rfl

theorem takeActive_bind {α : Type} (k : Option ActiveBranch → InPlace α) :
    (takeActive >>= k) u = k u.active { u with active := none } := rfl

/-- How steps end that change a union as a whole or not at all. -/
def wholly (u : UnionValue) : Except Fault UnionValue → EStateM.Result Fault UnionValue Unit
  | .ok u' => .ok () u'
  | .error f => .error f u

/-- The value is taken out only after both checks have passed. -/
theorem selectInPlace_eq (u : UnionValue) (d : Int64) :
    selectInPlace d u = u.wholly (u.setDiscriminant d) := by
  rw [selectInPlace, get_bind, setDiscriminant]
  cases u.shape.inRange d with
  | false => rfl
  | true =>
    simp only [Bool.not_true, Bool.false_eq_true, if_false]
    cases u.shape.select? d with
    | none => rfl
    | some position =>
      simp only [takeActive_bind, heldIn?]
      cases u.active.filter (·.position == position) <;> rfl

/-- Activating the branch is the last step, and the only one that changes anything. -/
theorem assignInPlace_eq (u : UnionValue) (name : String) (x : Dynamic) :
    assignInPlace name x u = u.wholly (u.set name x) := by
  rw [assignInPlace, get_bind, set]
  cases u.shape.branches.zipIdx.find? (·.1.name == name) with
  | none => rfl
  | some found =>
    obtain ⟨b, position⟩ := found
    cases hassignable : x.type.assignableTo b.type with
    | false => simp only [hassignable]; rfl
    | true =>
      simp only [hassignable, if_true]
      cases u.discriminantFor position b <;> rfl

end UnionValue

/-- What a call makes of a union, if it succeeds. -/
def UnionCall.apply (u : UnionValue) : UnionCall → Except Fault UnionValue
  | .setDiscriminant d => u.setDiscriminant d
  | .set name x => u.set name x

namespace UnionValue

variable {u u' : UnionValue} {c : UnionCall} {d : Int64} {f : Fault}

theorem steps_eq (u : UnionValue) (c : UnionCall) : c.steps u = u.wholly (c.apply u) := by
  cases c with
  | setDiscriminant d => exact selectInPlace_eq u d
  | set name x => exact assignInPlace_eq u name x

/-- A call succeeds where the operation on values does, and changes the union to the same one. -/
theorem call_eq_ok_iff : u.call c = (.ok (), u') ↔ c.apply u = .ok u' := by
  rw [call, steps_eq]
  cases c.apply u <;> simp [wholly]

/-- **Failing calls.** A call that fails leaves the union as it was. -/
theorem call_of_error (h : (u.call c).1 = .error f) : (u.call c).2 = u := by
  rw [call, steps_eq] at h ⊢
  cases happly : c.apply u with
  | ok u' =>
    rw [happly] at h
    cases h
  | error f' => rfl

/-! ## What a run keeps -/

/-- **Order.** The discriminant that is held is in range and selects the branch that is held. -/
def InOrder (u : UnionValue) : Prop :=
  ∀ held, u.active = some held →
    u.shape.inRange held.discriminant = true ∧
      u.shape.select? held.discriminant = some held.position

theorem InOrder.coherent (h : u.InOrder) : u.Coherent := fun held hheld => (h held hheld).2

/-- A branch is activated with a discriminant in range: the one it is held under, or a label, or what
    is left over. -/
theorem inRange_of_discriminantFor {position : Nat} {b : Branch TypeDesc}
    (hchecked : u.shape.validate = .ok ()) (hu : u.InOrder)
    (hb : u.shape.branches[position]? = some b) (h : u.discriminantFor position b = .ok d) :
    u.shape.inRange d = true := by
  unfold discriminantFor at h
  split at h
  · rename_i held hheld
    rw [← Except.ok.inj h]
    exact (hu held (Option.filter_eq_some_iff.1 hheld).1).1
  · split at h
    · rename_i hactivation
      rw [← Except.ok.inj h]
      exact UnionType.inRange_of_activation? hchecked (List.mem_of_getElem? hb) hactivation
    · cases h

/-- What a run keeps of the union it starts from. -/
structure Kept (start u : UnionValue) : Prop where
  type : u.type = start.type
  shape : u.shape = start.shape
  inOrder : u.InOrder

variable {start : UnionValue}

/-- One call that succeeds. -/
theorem Kept.apply (hchecked : start.shape.validate = .ok ()) (h : Kept start u)
    (hcall : c.apply u = .ok u') : Kept start u' := by
  cases c with
  | setDiscriminant d =>
    obtain ⟨hrange, position, hselect, rfl⟩ := setDiscriminant_eq_ok_iff.1 hcall
    refine ⟨h.type, h.shape, ?_⟩
    rintro held ⟨⟩
    exact ⟨hrange, hselect⟩
  | set name x =>
    obtain ⟨position, b, d, hb, -, hd, rfl⟩ := exists_of_set_eq_ok hcall
    have hchecked : u.shape.validate = .ok () := h.shape ▸ hchecked
    refine ⟨h.type, h.shape, ?_⟩
    rintro held ⟨⟩
    exact ⟨inRange_of_discriminantFor (u := u) hchecked h.inOrder hb hd,
      select?_of_discriminantFor (u := u) hchecked h.inOrder.coherent hb hd⟩

/-- One call, whether it succeeds or not. -/
theorem Kept.call (hchecked : start.shape.validate = .ok ()) (h : Kept start u) (c : UnionCall) :
    Kept start (u.call c).2 := by
  cases hanswer : (u.call c).1 with
  | ok _ =>
    have hcall : u.call c = (.ok (), (u.call c).2) := Prod.ext hanswer rfl
    exact h.apply hchecked (call_eq_ok_iff.1 hcall)
  | error f => rwa [call_of_error hanswer]

/-- **Runs.** Any number of calls, by induction on them. -/
theorem Kept.after (hchecked : start.shape.validate = .ok ()) (h : Kept start u)
    (calls : List UnionCall) : Kept start (u.after calls) := by
  induction calls generalizing u with
  | nil => exact h
  | cons c calls ih => exact ih (h.call hchecked c)

theorem kept_new {type : TypeDesc} (h : UnionValue.new type = .ok start) : Kept start start := by
  refine ⟨rfl, rfl, fun held hheld => ?_⟩
  rw [(of_new_eq_ok h).2] at hheld
  cases hheld

/-! ## What a discriminant does -/

theorem call_setDiscriminant_eq_ok_iff : (u.call (.setDiscriminant d)).1 = .ok () ↔
    u.shape.inRange d = true ∧ (u.shape.select? d).isSome = true := by
  rw [call, steps_eq, UnionCall.apply, setDiscriminant]
  cases u.shape.inRange d <;> cases u.shape.select? d <;> simp [wholly]

/-- **Change of branch.** The branch that a discriminant selects is held under it. A value that was
    held in this branch is kept; otherwise the branch starts from the zero of its type. -/
theorem exists_of_call_setDiscriminant (h : (u.call (.setDiscriminant d)).1 = .ok ()) :
    ∃ held b, (u.call (.setDiscriminant d)).2 = { u with active := some held } ∧
      held.discriminant = d ∧ u.shape.select? d = some held.position ∧
      u.shape.branches[held.position]? = some b ∧
      (∀ old, u.active = some old → old.position = held.position → held.value = old.value) ∧
      ((∀ old, u.active = some old → old.position ≠ held.position) → held.value = b.type.zero) := by
  have hcall : u.call (.setDiscriminant d) = (.ok (), (u.call (.setDiscriminant d)).2) :=
    Prod.ext h rfl
  obtain ⟨-, position, hselect, hu'⟩ := setDiscriminant_eq_ok_iff.1 (call_eq_ok_iff.1 hcall)
  obtain ⟨b, hb, -, htype⟩ := exists_branch_of_select? hselect
  refine ⟨_, b, hu', rfl, hselect, hb, fun old hold hsame => ?kept, fun hother => ?fresh⟩
  case kept =>
    have hheld : u.heldIn? position = some old :=
      Option.filter_eq_some_iff.2 ⟨hold, beq_iff_eq.2 hsame⟩
    simp only [hheld, Option.map_some, Option.getD_some]
  case fresh =>
    have hheld : u.heldIn? position = none :=
      Option.filter_eq_none_iff.2 fun old hold => by simpa using hother old hold
    simp only [hheld, Option.map_none, Option.getD_none, htype]

/-- A union is the same as itself unless its value holds a NaN. -/
theorem same_self {held : ActiveBranch} (h : u.active = some held) :
    u.same u = !held.value.holdsNaN := by
  simp only [same, h, beq_self_eq_true, Bool.true_and, Payload.same_self]

/-! ## Runs of calls -/

/-- **A union through a run of calls.** Take a union of a checked type, and any calls on it, any of
    which may fail. Then its discriminant, once there is one, is in range and selects the branch that
    is held. A further call that fails changes nothing. A further discriminant is accepted if it is
    in range and selects a branch, and then keeps the value held in this branch or starts from the
    zero of the branch. And as a value and back it is the very same union, which it is to be told
    from only if a NaN is in it; without a discriminant it is no value. -/
theorem union_through_calls {type : TypeDesc} (hnew : UnionValue.new type = .ok start)
    (hchecked : start.shape.validate = .ok ()) (calls : List UnionCall) :
    let u := start.after calls
    (u.type = type ∧ u.shape = start.shape) ∧
    (∀ held, u.active = some held →
      u.shape.inRange held.discriminant = true ∧
        u.shape.select? held.discriminant = some held.position) ∧
    (∀ c f, (u.call c).1 = .error f → (u.call c).2 = u) ∧
    (∀ d, (u.call (.setDiscriminant d)).1 = .ok () ↔
      u.shape.inRange d = true ∧ (u.shape.select? d).isSome = true) ∧
    (∀ d, (u.call (.setDiscriminant d)).1 = .ok () →
      ∃ held b, (u.call (.setDiscriminant d)).2 = { u with active := some held } ∧
        held.discriminant = d ∧ u.shape.select? d = some held.position ∧
        u.shape.branches[held.position]? = some b ∧
        (∀ old, u.active = some old → old.position = held.position → held.value = old.value) ∧
        ((∀ old, u.active = some old → old.position ≠ held.position) →
          held.value = b.type.zero)) ∧
    (∀ held, u.active = some held →
      ∃ x, u.toDynamic = .ok x ∧ UnionValue.ofDynamic x = .ok u ∧
        u.same u = !held.value.holdsNaN) ∧
    (u.active = none → u.toDynamic = .error (.preconditionNotMet .noDiscriminant)) := by
  intro u
  have hkept : Kept start u := (kept_new hnew).after hchecked calls
  refine ⟨⟨?type, hkept.shape⟩, hkept.inOrder, fun c f => call_of_error,
    fun d => call_setDiscriminant_eq_ok_iff, fun d => exists_of_call_setDiscriminant, ?back, ?unset⟩
  case type => rw [hkept.type, (of_new_eq_ok hnew).1]
  case back =>
    intro held hheld
    have hdynamic : u.toDynamic = .ok ⟨u.type, .union held.discriminant held.value⟩ := by
      rw [toDynamic, hheld]
    exact ⟨_, hdynamic, ofDynamic_of_toDynamic hkept.inOrder.coherent hdynamic, same_self hheld⟩
  case unset =>
    intro hnone
    rw [toDynamic, hnone]

/-- A rate that is fixed, or none. -/
def rateType : TypeDesc :=
  .union "Rate" (.scalar .boolean)
    [⟨[.value 1], "fixed", .scalar .double⟩, ⟨[.default], "none", .scalar .octet⟩]

/-- A rate before any call. -/
def newRate : UnionValue := ⟨rateType, ⟨"Rate", .scalar .boolean, _⟩, none, rfl⟩

/-- A discriminant out of range is refused, and a change of branch goes on from what was before. -/
theorem union_through_calls_rate :
    let calls : List UnionCall := [.setDiscriminant 1, .setDiscriminant 7,
      .set "none" ⟨.scalar .octet, .scalar (.octet 5)⟩]
    let u := newRate.after calls
    (UnionValue.new rateType = .ok newRate ∧ newRate.shape.validate = .ok ()) ∧
      u.active = some ⟨0, 1, .scalar (.octet 5)⟩ ∧ u.shape.select? 0 = some 1 ∧
      (u.call (.setDiscriminant 7)).1 = .error (.unknownDiscriminant 7) ∧
      (u.call (.setDiscriminant 7)).2 = u ∧
      ∃ x, u.toDynamic = .ok x ∧ UnionValue.ofDynamic x = .ok u ∧ u.same u = true := by
  intro calls u
  have hnew : UnionValue.new rateType = .ok newRate := rfl
  have hchecked : newRate.shape.validate = .ok () := by decide
  obtain ⟨-, hselect, hfailed, -, -, hback, -⟩ := union_through_calls hnew hchecked calls
  have hactive : u.active = some ⟨0, 1, .scalar (.octet 5)⟩ := rfl
  have hrefused : (u.call (.setDiscriminant 7)).1 = .error (.unknownDiscriminant 7) := rfl
  exact ⟨⟨hnew, hchecked⟩, hactive, (hselect _ hactive).2, hrefused, hfailed _ _ hrefused,
    hback _ hactive⟩

/-- Before any call there is nothing to make a value of; and a rate that is a NaN comes back as the
    union it was, but not the same as it. -/
theorem unset_and_not_same :
    UnionValue.new rateType = .ok newRate ∧ newRate.shape.validate = .ok () ∧
      (newRate.after []).toDynamic = .error (.preconditionNotMet .noDiscriminant) ∧
      ∃ calls x back, (newRate.after calls).toDynamic = .ok x ∧
        UnionValue.ofDynamic x = .ok back ∧ back.same (newRate.after calls) = false := by
  refine ⟨rfl, by decide, rfl,
    [.set "fixed" ⟨.scalar .double, .scalar (.double ⟨0x7FF8000000000000⟩)⟩], ?_⟩
  exact ⟨_, _, rfl, rfl, rfl⟩

end UnionValue

end ObjectBroker
