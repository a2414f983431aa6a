import ObjectBroker.Proofs.Builder.Conformance
import ObjectBroker.Proofs.Codec.Atomic
import ObjectBroker.Proofs.Codec.Plain

/-!
# `ObjectBroker.Proofs.Builder.Sequences` — sequences written and read back

A sequence is written and read element by element, without a level of its own on either side. What
the two sides may take differently is the bound. A sequence takes a bound of zero for none, and so
does its type; a reader of sequences holds the announced length against the bound as it stands. So a
sequence that was made with a bound of zero and has elements is not read back with that bound.
-/

namespace ObjectBroker

/-! ## Sequences as they are built -/

/-- A sequence as it arrives. -/
def SequenceValue.receivedOver (binding : Option ConnectionId) (s : SequenceValue) :
    SequenceValue :=
  { s with elements := s.elements.map (·.receivedOver binding) }

namespace SequenceValue

variable {s s' : SequenceValue}

/-- What pushes do once all of them succeed: the contents are added in order, and neither the element
    type nor the bound changes. -/
theorem eq_of_pushes {xs : List Dynamic} (h : xs.foldlM push s = .ok s') :
    s'.element = s.element ∧ s'.bound = s.bound ∧
      s'.elements = s.elements ++ xs.map (·.payload) := by
  induction xs generalizing s with
  | nil =>
    obtain rfl : s = s' := Except.ok.inj h
    exact ⟨rfl, rfl, (List.append_nil _).symm⟩
  | cons x xs ih =>
    rw [List.foldlM_cons, Except.bind_eq_ok_iff] at h
    obtain ⟨next, hpush, h⟩ := h
    obtain ⟨helement, hbound, helements⟩ := ih h
    unfold push at hpush
    split at hpush
    · cases hpush
      refine ⟨helement, hbound, ?_⟩
      rw [helements, List.append_assoc]
      rfl
    · cases hpush

/-- A sequence is given by its parts. -/
theorem ofElements_eq {elements : List Payload} {bound : Option UInt32}
    (hbound : s.bound = bound.filter (· != 0)) :
    ofElements s.element elements bound = { s with elements } := by
  obtain ⟨element, held, own, hne⟩ := s
  obtain rfl : own = bound.filter (· != 0) := hbound
  rfl

end SequenceValue

/-! ## Reading with a bound -/

variable {c : Codec} {before written : List UInt8}

/-- Without elements, a sequence is written alike under every bound. -/
theorem encodeElements_nil (s : Settings) (part : PartWriter) (enclosing : List TypeDesc)
    (element : TypeDesc) (bound bound' : Option UInt32) :
    Encode.elements s part enclosing element bound []
      = Encode.elements s part enclosing element bound' [] := by
  have hnone : ∀ b : Option UInt32, b.filter (·.toNat < ([] : List Payload).length) = none := by
    intro b
    cases b <;> rfl
  unfold Encode.elements
  rw [hnone, hnone]

/-- A sequence of plain elements is recovered under each bound that stands for its own and under
    which it is written alike. -/
theorem recovers_readSequence {s : SequenceValue} {bound : Option UInt32}
    (hfit : s.element.ordinalsFit = true) (hplain : ∀ e ∈ s.elements, e.Plain)
    (hbound : s.bound = bound.filter (· != 0))
    (hwritten : c.sequenceValue s
      = Encode.elements c.settings (c.encode c.maxDepth) [] s.element bound s.elements) :
    Recovers (c.sequenceValue s) (c.readSequence s.element bound) (s.receivedOver c.binding) := by
  have helements : Recovers
      (Encode.elements c.settings (c.encode c.maxDepth) [] s.element bound s.elements)
      (c.readElements s.element bound) (s.elements.map (·.receivedOver c.binding)) :=
    recovers_elements c.settings
      (fun hoctet v _ position written => octet_of_encode_eq_ok hoctet)
      (fun v hv => recovers_encode_plain c.maxDepth hfit (hplain v hv))
  rw [hwritten, SequenceValue.receivedOver, ← SequenceValue.ofElements_eq hbound]
  exact helements.map fun elements => SequenceValue.ofElements s.element elements bound

/-- The elements of a sequence that was written are plain if its element type is without `any`. -/
theorem plain_of_sequenceValue {s : SequenceValue} (hanyless : s.element.anyless = true)
    (h : (c.sequenceValue s).Writable) : ∀ e ∈ s.elements, e.Plain := by
  intro e he
  exact plain_of_writable_encode hanyless ((forall_of_writable_elements h).2 e he)

/-- Under a bound of zero a sequence with elements is refused for its length. -/
theorem readSequence_of_zero {s : SequenceValue} (hne : s.elements ≠ [])
    {position : Nat} (hw : c.sequenceValue s position = .ok written) (rest : List UInt8) :
    ∃ stop, c.readSequence s.element (some 0) ⟨position, written ++ rest⟩
      = .error (.boundViolation 0 s.elements.length) stop := by
  have hover : (0 : UInt32).toNat < s.elements.length := List.length_pos_iff.2 hne
  have hrefused : ∃ stop, c.readElements s.element (some 0) ⟨position, written ++ rest⟩
      = .error (.boundViolation 0 s.elements.length) stop := elements_beyond_bound hw hover rest
  obtain ⟨stop, hrefused⟩ := hrefused
  exact ⟨stop, Read.bind_of_error hrefused⟩

/-- **Sequences read back.** A sequence is built by pushing elements of a type without `any` to the
    empty sequence of some bound, and written behind some content. Then a reader with that bound
    gives it back as its receiver sees it and stops where it ends; except under a bound of zero,
    which the sequence took for none, and under which the reader refuses any element. With the bound
    that the sequence has, it is always given back. -/
theorem readSequence_of_writeSequence {t : TypeDesc} {m : Option UInt32} {xs : List Dynamic}
    {s : SequenceValue} (hanyless : t.anyless = true) (hfit : t.ordinalsFit = true)
    (hbuilt : xs.foldlM SequenceValue.push (.new t m) = .ok s)
    (hwrite : c.writeSequence s ⟨before⟩ = (.ok (), ⟨before ++ written⟩)) (after : List UInt8) :
    (m ≠ some 0 ∨ xs = [] →
      Reader.readAt (before ++ written ++ after) before.length (c.readSequence t m)
        = .ok (s.receivedOver c.binding, before.length + written.length)) ∧
    (m = some 0 → xs ≠ [] →
      Reader.readAt (before ++ written ++ after) before.length (c.readSequence t m)
        = .error (.boundViolation 0 xs.length)) ∧
    Reader.readAt (before ++ written ++ after) before.length (c.readSequence t s.bound)
      = .ok (s.receivedOver c.binding, before.length + written.length) := by
  obtain ⟨hkept, hsame, hadded⟩ := SequenceValue.eq_of_pushes hbuilt
  obtain rfl : s.element = t := hkept
  have hbound : s.bound = m.filter (· != 0) := hsame
  have helements : s.elements = xs.map (·.payload) := hadded
  have hwritten := (wholeOrNothing_writeSequence c s).eq_ok_iff.1 hwrite
  have hplain := plain_of_sequenceValue hanyless ⟨_, _, hwritten⟩
  refine ⟨?given, ?zero, ?own⟩
  case given =>
    intro hm
    refine (recovers_readSequence hfit hplain hbound ?_).readAt hwritten after
    rcases hm with hm | rfl
    · rw [TypeDesc.filter_of_ne_zero hm] at hbound
      rw [Codec.sequenceValue, hbound]
    · have hnil : s.elements = [] := helements
      rw [Codec.sequenceValue, hnil]
      exact encodeElements_nil _ _ _ _ _ _
  case zero =>
    rintro rfl hxs
    have hne : s.elements ≠ [] := by
      rw [helements]
      exact fun hnil => hxs (List.map_eq_nil_iff.1 hnil)
    obtain ⟨stop, hfault⟩ := readSequence_of_zero hne hwritten after
    rw [List.append_assoc, Reader.readAt_append, hfault, helements, List.length_map]
  case own =>
    have hown : s.bound = s.bound.filter (· != 0) :=
      (TypeDesc.filter_of_ne_zero s.bound_ne_zero).symm
    exact (recovers_readSequence hfit hplain hown rfl).readAt hwritten after

/-- Two names in a sequence for two, the second of them without a letter. -/
theorem readSequence_of_writeSequence_names :
    ∃ s : SequenceValue,
      (TypeDesc.string.anyless = true ∧ TypeDesc.string.ordinalsFit = true ∧
        [(⟨.string, .string "A"⟩ : Dynamic), ⟨.string, .string ""⟩].foldlM SequenceValue.push
          (.new .string (some 2)) = .ok s ∧
        ({} : Codec).writeSequence s ⟨[9]⟩
          = (.ok (), ⟨[9] ++ [0, 0, 0, 2, 0, 0, 0, 2, 0, 0, 0, 65, 0, 0, 0, 1, 0, 0, 0, 0]⟩)) ∧
      Reader.readAt
          ([9] ++ [0, 0, 0, 2, 0, 0, 0, 2, 0, 0, 0, 65, 0, 0, 0, 1, 0, 0, 0, 0] ++ [8]) 1
          (({} : Codec).readSequence .string (some 2))
        = .ok (s.receivedOver none, 1 + 20) := by
  have hwrite : ({} : Codec).writeSequence
      (.ofElements .string [.string "A", .string ""] (some 2)) ⟨[9]⟩
        = (.ok (), ⟨[9] ++ [0, 0, 0, 2, 0, 0, 0, 2, 0, 0, 0, 65, 0, 0, 0, 1, 0, 0, 0, 0]⟩) := rfl
  let s : SequenceValue := .ofElements .string [.string "A", .string ""] (some 2)
  have hbuilt : [(⟨.string, .string "A"⟩ : Dynamic), ⟨.string, .string ""⟩].foldlM
      SequenceValue.push (.new .string (some 2)) = .ok s := rfl
  obtain ⟨hgiven, -, -⟩ := readSequence_of_writeSequence rfl rfl hbuilt hwrite [8]
  exact ⟨s, ⟨rfl, rfl, hbuilt, hwrite⟩, hgiven (.inl (by decide))⟩

/-- An octet in a sequence that was made with a bound of zero. It is written, and the sequence is
    refused for its length under the bound it was made with. -/
theorem written_and_refused_for_zero :
    ∃ s : SequenceValue,
      [(⟨.scalar .octet, .scalar (.octet 7)⟩ : Dynamic)].foldlM SequenceValue.push
        (.new (.scalar .octet) (some 0)) = .ok s ∧
      ({} : Codec).writeSequence s ⟨[]⟩ = (.ok (), ⟨[1, 0, 0, 0, 7]⟩) ∧
      Reader.readAt [1, 0, 0, 0, 7] 0 (({} : Codec).readSequence (.scalar .octet) (some 0))
        = .error (.boundViolation 0 1) :=
  ⟨_, rfl, rfl, rfl⟩

end ObjectBroker
