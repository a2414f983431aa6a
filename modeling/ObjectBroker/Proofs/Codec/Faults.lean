import ObjectBroker.Codec.Encode
import ObjectBroker.Proofs.Wire.Faults

/-!
# `ObjectBroker.Proofs.Codec.Faults` — the faults of a composite value

A composite value is refused for what it is itself, too many elements or a discriminant that selects
nothing, or for one of its parts. So whatever is said of the faults of all parts is said of the
faults of the whole, provided that it is true of the faults the composite has of its own. Data
without a form on the wire can be met anywhere.
-/

namespace ObjectBroker

open Emit

/-- A discriminant in range is of a type that can be written, and fails only as a character. -/
theorem failsWith_discriminant (s : Settings) {u : UnionType} {d : Int64}
    (h : u.inRange d = true) : (Encode.discriminant s u.discriminant d).FailsWith Fault.IsData := by
  have hrange : u.labelRange? ≠ none := by
    intro hnone
    rw [UnionType.inRange, hnone] at h
    cases h
  unfold UnionType.labelRange? at hrange
  unfold Encode.discriminant
  cases hu : u.discriminant.resolve with
  | scalar kind =>
    rw [hu] at hrange
    cases kind with
    | boolean => exact FailsWith.octets _
    | octet => exact FailsWith.octets _
    | char => exact failsWith_char _
    | wchar =>
      dsimp only
      split
      · exact failsWith_wchar s _
      · exact FailsWith.fail ⟨_, rfl⟩
    | float => exact absurd rfl hrange
    | double => exact absurd rfl hrange
    | _ => exact FailsWith.word s _ _
  | enum name enumerators => exact FailsWith.word s 4 _
  | _ =>
    rw [hu] at hrange
    exact absurd rfl hrange

theorem failsWith_reference (s : Settings) (r : ObjectRef) :
    (Encode.reference s r).FailsWith Fault.IsData :=
  (failsWith_string s _).append (failsWith_octetSequence s _)

theorem failsWith_enumerator (s : Settings) (name : String) (enumerators : List String)
    (ordinal : UInt32) :
    (Encode.enumerator s name enumerators ordinal).FailsWith Fault.IsData := by
  unfold Encode.enumerator
  split
  · exact FailsWith.word s 4 _
  · exact FailsWith.fail ⟨_, rfl⟩

section Parts

variable {P : Fault → Prop} (hdata : ∀ f, f.IsData → P f) {write : PartWriter}
  {enclosing : List TypeDesc}
include hdata

theorem failsWith_alternative (s : Settings) {union : UnionType} {d : Int64} {value : Payload}
    (hunknown : union.inRange d = false ∨ union.selected? d = none → P (.unknownDiscriminant d))
    (hpart : ∀ b, union.selected? d = some b →
      (write (union.desc :: enclosing) b.type value).FailsWith P) :
    (Encode.alternative s write enclosing union d value).FailsWith P := by
  unfold Encode.alternative
  cases hrange : union.inRange d with
  | false => exact FailsWith.fail (hunknown (.inl hrange))
  | true =>
    cases hb : union.selected? d with
    | none => exact FailsWith.fail (hunknown (.inr hb))
    | some b => exact ((failsWith_discriminant s hrange).mono hdata).append (hpart b hb)

theorem failsWith_elements (s : Settings) {element : TypeDesc} {bound : Option UInt32}
    {values : List Payload} (hbound : ∀ b n, P (.boundViolation b n))
    (hpart : ∀ v ∈ values, (write enclosing element v).FailsWith P) :
    (Encode.elements s write enclosing element bound values).FailsWith P := by
  unfold Encode.elements
  split
  · exact FailsWith.fail (hbound _ _)
  · exact ((failsWith_count s values.length).mono hdata).append (FailsWith.concat hpart)

theorem failsWith_fixedElements {element : TypeDesc} {length : UInt32} {values : List Payload}
    (hpart : ∀ v ∈ values, (write enclosing element v).FailsWith P) :
    (Encode.fixedElements write enclosing element length values).FailsWith P := by
  unfold Encode.fixedElements
  split
  · exact FailsWith.fail (hdata _ ⟨_, rfl⟩)
  · exact FailsWith.concat hpart

theorem failsWith_fields {struct : StructType} {values : List Payload}
    (hpart : ∀ q ∈ struct.members.zip values,
      (write (struct.desc :: enclosing) q.1.type q.2).FailsWith P) :
    (Encode.fields write enclosing struct values).FailsWith P := by
  unfold Encode.fields
  split
  · exact FailsWith.fail (hdata _ ⟨_, rfl⟩)
  · exact FailsWith.concat hpart

theorem failsWith_content (c : Codec) {type : TypeDesc} {value : Payload}
    (hpart : (write [] type value).FailsWith P) :
    (Encode.content c write type value).FailsWith P :=
  ((failsWith_code c.settings _).mono hdata).append hpart

end Parts

end ObjectBroker
