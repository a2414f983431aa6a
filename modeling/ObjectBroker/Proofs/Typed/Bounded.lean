import ObjectBroker.Proofs.Codec.Acceptance
import ObjectBroker.Proofs.Codec.Depth
import ObjectBroker.Proofs.Types.Preorder
import ObjectBroker.Typed.Record

/-!
# `ObjectBroker.Proofs.Typed.Bounded` — sequences of a type with a bound

The bound of a `BoundedSeq` is met three times: in its type, where it makes the description; by the
writer, which sees the description only; and where a payload is taken out as a value of the type. For
a bound that is not zero the three agree. The writer refuses what is too long, and once it has
written a sequence the bound makes no difference to a reader: what comes back is what comes back
without a bound.

A bound of zero is no bound in a description, and so the writer does not see it. Where the value is
taken out it admits the empty sequence only.
-/

namespace ObjectBroker

/-! ## Typed values read -/

section Typed

variable {α : Type} [Typed α] {c : Codec} {message : List UInt8}

/-- A typed read succeeds exactly when a value of the description is read, the description is
    assignable to itself, and the content is one of the type. -/
theorem Codec.decodeTyped_eq_ok_iff {y : α} :
    decodeTyped α c message = .ok y ↔
      ∃ p stop, c.decode c.maxDepth [] (Typed.desc α) (.ofOctets message) = .ok p stop ∧
        (Typed.desc α).assignableTo (Typed.desc α) = true ∧ Typed.ofPayload p = .ok y := by
  unfold decodeTyped Read.onMessage Reader.run readValue
  simp only [Reader.ofOctets]
  constructor
  · intro h
    cases hread : c.decode c.maxDepth [] (Typed.desc α) (.ofOctets message) with
    | error f stop =>
      rw [Read.bind_of_error hread] at h
      cases h
    | ok p stop =>
      rw [Read.bind_of_ok hread] at h
      change Dynamic.extract α ⟨Typed.desc α, p⟩ = .ok y at h
      unfold Dynamic.extract at h
      split at h
      · rename_i hassignable
        exact ⟨p, stop, rfl, hassignable, h⟩
      · cases h
  · rintro ⟨p, stop, hread, hassignable, hy⟩
    rw [Read.bind_of_ok hread]
    change Dynamic.extract α ⟨Typed.desc α, p⟩ = .ok y
    rw [Dynamic.extract, if_pos hassignable]
    exact hy

/-- Values are taken out of payloads one by one. -/
theorem Typed.ofPayloads_eq_ok_iff {ps : List Payload} {as : List α} :
    Typed.ofPayloads ps = .ok as ↔ List.Forall₂ (fun p a => Typed.ofPayload p = .ok a) ps as := by
  unfold Typed.ofPayloads
  induction ps generalizing as with
  | nil =>
    rw [List.forall₂_nil_left_iff, List.mapM_nil]
    exact ⟨fun h => (Except.ok.inj h).symm, fun h => h ▸ rfl⟩
  | cons p ps ih =>
    rw [List.mapM_cons, List.forall₂_cons_left_iff]
    constructor
    · intro h
      obtain ⟨a, hp, h⟩ := Except.bind_eq_ok_iff.1 h
      obtain ⟨others, hps, h⟩ := Except.bind_eq_ok_iff.1 h
      exact ⟨a, others, hp, ih.1 hps, (Except.ok.inj h).symm⟩
    · rintro ⟨a, others, hp, hps, rfl⟩
      rw [hp, ih.2 hps]
      rfl

/-- Where every payload is that of some value, there are such values for all of them. -/
theorem Typed.exists_ofPayloads {ps : List Payload}
    (h : ∀ p ∈ ps, ∃ a : α, Typed.ofPayload p = .ok a) :
    ∃ as : List α, Typed.ofPayloads ps = .ok as := by
  induction ps with
  | nil => exact ⟨[], rfl⟩
  | cons p ps ih =>
    obtain ⟨a, ha⟩ := h p List.mem_cons_self
    obtain ⟨as, has⟩ := ih fun q hq => h q (List.mem_cons_of_mem p hq)
    exact ⟨a :: as, Typed.ofPayloads_eq_ok_iff.2 (.cons ha (Typed.ofPayloads_eq_ok_iff.1 has))⟩

end Typed

/-! ## Sequences of a type with a bound -/

namespace BoundedSeq

variable {α : Type} [Typed α] {N : UInt32} {c : Codec} {message : List UInt8}

/-- A bound that is not zero is the bound of the description. -/
theorem desc_eq (hN : N ≠ 0) :
    Typed.desc (BoundedSeq α N) = .sequence (Typed.desc α) (some N) := by
  have hbound : some N ≠ some 0 := fun h => hN (Option.some.inj h)
  show TypeDesc.sequenceOf (Typed.desc α) (some N) = _
  rw [TypeDesc.sequenceOf, TypeDesc.filter_of_ne_zero hbound]

/-- The elements are taken out of a payload if they are no more than the bound. -/
theorem ofPayload_eq_ok_iff {values : List Payload} {y : BoundedSeq α N} :
    Typed.ofPayload (.sequence values) = .ok y ↔
      Typed.ofPayloads values = .ok y.elements ∧ y.elements.length ≤ N.toNat := by
  show (do
    let elements ← (Typed.ofPayloads values : Except Fault (List α))
    if N.toNat < elements.length then .error (.boundViolation N elements.length)
    else return (⟨elements⟩ : BoundedSeq α N)) = .ok y ↔ _
  rw [Except.bind_eq_ok_iff]
  constructor
  · rintro ⟨elements, hvalues, h⟩
    split at h
    · cases h
    · rename_i hlong
      cases h
      exact ⟨hvalues, Nat.not_lt.1 hlong⟩
  · rintro ⟨hvalues, hle⟩
    refine ⟨y.elements, hvalues, ?_⟩
    rw [if_neg (Nat.not_lt.2 hle)]
    rfl

/-- What a writer with some levels makes of a sequence. -/
theorem value_ofTyped (hN : N ≠ 0) {levels : Nat} (hlevels : c.maxDepth = levels + 1)
    (x : BoundedSeq α N) :
    c.value (.ofTyped x) = Encode.elements c.settings (c.encode levels) [] (Typed.desc α) (some N)
      (x.elements.map Typed.toPayload) := by
  have hpayload : Typed.toPayload x = .sequence (x.elements.map Typed.toPayload) := rfl
  rw [Codec.value, Dynamic.ofTyped, desc_eq hN, hpayload, hlevels]
  rfl

/-- Without any level nothing is written. -/
theorem maxDepth_ne_zero {x : Dynamic} (h : c.value x 0 = .ok message) : c.maxDepth ≠ 0 := by
  intro hzero
  rw [Codec.value, hzero] at h
  cases h

/-- **Past the bound.** A sequence with more elements than its bound is refused, with the bound and
    the number of elements. -/
theorem encodeTyped_eq_error (hN : N ≠ 0) {x : BoundedSeq α N} (hdepth : c.maxDepth ≠ 0)
    (hlong : N.toNat < x.elements.length) :
    c.encodeTyped x = .error (.boundViolation N x.elements.length) := by
  obtain ⟨levels, hlevels⟩ := Nat.exists_eq_add_one_of_ne_zero hdepth
  have hover : (some N).filter (·.toNat < (x.elements.map Typed.toPayload).length) = some N := by
    rw [List.length_map, Option.filter_some, decide_eq_true hlong]
    rfl
  rw [Codec.encodeTyped, value_ofTyped hN hlevels, Encode.elements, hover, List.length_map]
  rfl

/-- So what is written is no longer than the bound. -/
theorem length_le_of_encodeTyped (hN : N ≠ 0) {x : BoundedSeq α N}
    (h : c.encodeTyped x = .ok message) : x.elements.length ≤ N.toNat := by
  by_contra hlong
  have hrefused := encodeTyped_eq_error hN (maxDepth_ne_zero h) (Nat.lt_of_not_le hlong)
  rw [hrefused] at h
  cases h

/-- **Within the bound.** Once a sequence is written, its bound makes no difference: with it the
    message is read as it is without. -/
theorem decodeTyped_eq_ok_iff (hN : N ≠ 0) {x y : BoundedSeq α N}
    (h : c.encodeTyped x = .ok message) :
    Codec.decodeTyped (BoundedSeq α N) c message = .ok y ↔
      Codec.decodeTyped (List α) c message = .ok y.elements := by
  have hle := length_le_of_encodeTyped hN h
  obtain ⟨levels, hlevels⟩ := Nat.exists_eq_add_one_of_ne_zero (maxDepth_ne_zero h)
  rw [Codec.encodeTyped, value_ofTyped hN hlevels] at h
  -- Both readers find the same number of elements announced, and it keeps the bound.
  have hkept : ∀ b, some N = some b → (x.elements.map Typed.toPayload).length ≤ b.toNat := by
    rintro b ⟨⟩
    rwa [List.length_map]
  have hsame : Decode.elements c.settings (c.decode levels) [] (Typed.desc α) (some N)
      (.ofOctets message) = Decode.elements c.settings (c.decode levels) [] (Typed.desc α) none
      (.ofOctets message) := by
    rw [← List.append_nil message]
    exact elements_within_bound h hkept []
  have hlist : Typed.desc (List α) = .sequence (Typed.desc α) none := rfl
  rw [Codec.decodeTyped_eq_ok_iff, Codec.decodeTyped_eq_ok_iff, desc_eq hN, hlist, hlevels,
    TypeDesc.sequence_assignableTo_self, TypeDesc.sequence_assignableTo_self]
  constructor
  · rintro ⟨p, stop, hread, hassignable, hy⟩
    obtain ⟨values, hvalues, rfl⟩ := Read.map_eq_ok_iff.1 hread
    refine ⟨_, stop, Read.map_eq_ok_iff.2 ⟨values, ?_, rfl⟩, hassignable, ?_⟩
    · exact hsame ▸ hvalues
    · exact (ofPayload_eq_ok_iff.1 hy).1
  · rintro ⟨p, stop, hread, hassignable, hy⟩
    obtain ⟨values, hvalues, rfl⟩ := Read.map_eq_ok_iff.1 hread
    rw [← hsame] at hvalues
    have hkept := (cases_of_elements hvalues).1 N rfl
    refine ⟨_, stop, Read.map_eq_ok_iff.2 ⟨values, hvalues, rfl⟩, hassignable, ?_⟩
    have hlength := (Typed.ofPayloads_eq_ok_iff.1 hy).length_eq
    exact ofPayload_eq_ok_iff.2 ⟨hy, hlength ▸ hkept⟩

/-- **The elements come back.** Once a sequence is written, it is read if its elements are of a type
    that is assignable to itself, every description that travels in them fits, and each content that
    travels is that of a value. -/
theorem exists_decodeTyped (hN : N ≠ 0) {x : BoundedSeq α N} (h : c.encodeTyped x = .ok message)
    (hself : (Typed.desc α).assignableTo (Typed.desc α) = true)
    (hfit : (Typed.desc α).ordinalsFit = true)
    (hcontents : (c.sent (Typed.toPayload x)).contentsFit c.maxDepth []
      (Typed.desc (BoundedSeq α N)) = true)
    (hback : ∀ a ∈ x.elements, ∃ b : α,
      Typed.ofPayload ((c.sent (Typed.toPayload a)).receivedOver c.binding) = .ok b) :
    ∃ y : BoundedSeq α N, Codec.decodeTyped (BoundedSeq α N) c message = .ok y ∧
      List.Forall₂ (fun a b =>
        Typed.ofPayload ((c.sent (Typed.toPayload a)).receivedOver c.binding) = .ok b)
        x.elements y.elements := by
  let arrived : List Payload := x.elements.map fun a =>
    (c.sent (Typed.toPayload a)).receivedOver c.binding
  have hdesc : (Typed.desc (BoundedSeq α N)).ordinalsFit = true := by
    rw [desc_eq hN]
    simpa only [TypeDesc.ordinalsFit, TypeDesc.everyNode, Bool.true_and] using hfit
  have hread := recovers_encode_sent c.maxDepth hdesc hcontents 0 message [] h
  have hsent : (c.sent (Typed.toPayload x)).receivedOver c.binding = .sequence arrived := by
    have hpayload : Typed.toPayload x = .sequence (x.elements.map Typed.toPayload) := rfl
    rw [hpayload, Codec.sent_sequence, Payload.receivedOver_sequence, List.map_map, List.map_map]
    rfl
  rw [List.append_nil, hsent] at hread
  have harrived : ∀ p ∈ arrived, ∃ b : α, Typed.ofPayload p = .ok b := by
    intro p hp
    obtain ⟨a, ha, rfl⟩ := List.mem_map.1 hp
    exact hback a ha
  obtain ⟨bs, hbs⟩ := Typed.exists_ofPayloads harrived
  have hone := Typed.ofPayloads_eq_ok_iff.1 hbs
  have hle : bs.length ≤ N.toNat := by
    rw [← hone.length_eq, List.length_map]
    exact length_le_of_encodeTyped hN h
  have hassignable : (Typed.desc (BoundedSeq α N)).assignableTo (Typed.desc (BoundedSeq α N))
      = true := by
    rw [desc_eq hN, TypeDesc.sequence_assignableTo_self]
    exact hself
  refine ⟨⟨bs⟩, Codec.decodeTyped_eq_ok_iff.2 ⟨_, _, hread, hassignable, ?_⟩, ?_⟩
  · exact ofPayload_eq_ok_iff.2 ⟨hbs, hle⟩
  · exact List.forall₂_map_left_iff.1 hone

end BoundedSeq

/-! ## What is written is within its bound -/

/-- **Bounds of types.** For a bound that is not zero: a sequence with more elements is refused, with
    the bound and its length. One that is written is no longer than the bound, and with the bound its
    message is read as it is without; so the elements come back wherever those of a list would. And
    whatever type a value has, what is written of it keeps the bound of each sequence in it, at any
    depth. -/
theorem written_within_bound {α : Type} [Typed α] {N : UInt32} (hN : N ≠ 0) (c : Codec) :
    (∀ x : BoundedSeq α N, c.maxDepth ≠ 0 → N.toNat < x.elements.length →
      c.encodeTyped x = .error (.boundViolation N x.elements.length)) ∧
    (∀ (x : BoundedSeq α N) (message : List UInt8), c.encodeTyped x = .ok message →
      x.elements.length ≤ N.toNat ∧
      (∀ y : BoundedSeq α N, Codec.decodeTyped (BoundedSeq α N) c message = .ok y ↔
        Codec.decodeTyped (List α) c message = .ok y.elements) ∧
      ((Typed.desc α).assignableTo (Typed.desc α) = true → (Typed.desc α).ordinalsFit = true →
        (c.sent (Typed.toPayload x)).contentsFit c.maxDepth [] (Typed.desc (BoundedSeq α N)) = true →
        (∀ a ∈ x.elements, ∃ b : α,
          Typed.ofPayload ((c.sent (Typed.toPayload a)).receivedOver c.binding) = .ok b) →
        ∃ y : BoundedSeq α N, Codec.decodeTyped (BoundedSeq α N) c message = .ok y ∧
          List.Forall₂ (fun a b =>
            Typed.ofPayload ((c.sent (Typed.toPayload a)).receivedOver c.binding) = .ok b)
            x.elements y.elements)) ∧
    (∀ (ρ : Type) [Typed ρ] (r : ρ) (message : List UInt8), c.encodeTyped r = .ok message →
      (Typed.toPayload r).withinBounds [] (Typed.desc ρ) = true) := by
  refine ⟨?long, ?within, ?anywhere⟩
  case long =>
    intro x hdepth hlong
    exact BoundedSeq.encodeTyped_eq_error hN hdepth hlong
  case within =>
    intro x message h
    refine ⟨BoundedSeq.length_le_of_encodeTyped hN h, ?_, ?_⟩
    · intro y
      exact BoundedSeq.decodeTyped_eq_ok_iff hN h
    · intro hself hfit hcontents hback
      exact BoundedSeq.exists_decodeTyped hN h hself hfit hcontents hback
  case anywhere =>
    intro ρ _ r message h
    have hsound := sound_of_writable_encode c c.maxDepth [] (Typed.desc ρ) (Typed.toPayload r)
      (by simp) ⟨0, message, h⟩
    exact hsound.withinBounds

/-- At most two references: three are refused, and one comes back, bound to the connection it arrived
    on. -/
theorem written_within_bound_references :
    let c : Codec := { binding := some ⟨9⟩ }
    let office : ObjectRef := ⟨"O", [3], some ⟨7⟩⟩
    (2 : UInt32) ≠ 0 ∧
    c.encodeTyped (⟨[office, office, office]⟩ : BoundedSeq ObjectRef 2)
      = .error (.boundViolation 2 3) ∧
    c.encodeTyped (⟨[office]⟩ : BoundedSeq ObjectRef 2)
      = .ok [1, 0, 0, 0, 2, 0, 0, 0, 79, 0, 0, 0, 1, 0, 0, 0, 3] ∧
    ∃ y : BoundedSeq ObjectRef 2,
      Codec.decodeTyped (BoundedSeq ObjectRef 2) c
        [1, 0, 0, 0, 2, 0, 0, 0, 79, 0, 0, 0, 1, 0, 0, 0, 3] = .ok y ∧
      List.Forall₂ (fun a b : ObjectRef =>
        Typed.ofPayload ((c.sent (Typed.toPayload a)).receivedOver c.binding) = .ok b)
        [office] y.elements := by
  have hone : ({ binding := some ⟨9⟩ } : Codec).encodeTyped
      (⟨[⟨"O", [3], some ⟨7⟩⟩]⟩ : BoundedSeq ObjectRef 2)
        = .ok [1, 0, 0, 0, 2, 0, 0, 0, 79, 0, 0, 0, 1, 0, 0, 0, 3] := rfl
  intro c office
  have hN : (2 : UInt32) ≠ 0 := by decide
  obtain ⟨hlong, hwithin, -⟩ := written_within_bound (α := ObjectRef) hN c
  obtain ⟨-, -, hback⟩ := hwithin _ _ hone
  refine ⟨hN, hlong _ (by decide) (by decide), hone, hback (by decide) rfl rfl ?_⟩
  intro a _
  exact ⟨_, rfl⟩

/-- At a bound of zero one octet is written, and refused where it is read. -/
theorem zero_bound_written_and_refused :
    ({} : Codec).encodeTyped (⟨[1]⟩ : BoundedSeq UInt8 0) = .ok [1, 0, 0, 0, 1] ∧
    Codec.decodeTyped (BoundedSeq UInt8 0) {} [1, 0, 0, 0, 1] = .error (.boundViolation 0 1) := by
  constructor <;> rfl

end ObjectBroker
