import ObjectBroker.Codec.Encode
import ObjectBroker.Proofs.Wire.Limits

/-!
# `ObjectBroker.Proofs.Codec.Congruence` — a node written by two writers of its parts

The composite values put pieces in a row and do nothing else with their parts. So any relation
between pieces that is kept by putting them in a row goes from the parts to the node: that one writer
extends another, or that it is within a limit of another. The decisions at a node, on a count, a
bound, a discriminant or a marker, are taken from the type and the value and are the same for both
writers.
-/

namespace ObjectBroker

namespace Emit.Congruence

variable {R : Emit → Emit → Prop} (hR : Congruence R) {write write' : PartWriter}
  {enclosing : List TypeDesc}

include hR

theorem fields (struct : StructType) (values : List Payload)
    (hpart : ∀ p ∈ struct.members.zip values,
      R (write (struct.desc :: enclosing) p.1.type p.2)
        (write' (struct.desc :: enclosing) p.1.type p.2)) :
    R (Encode.fields write enclosing struct values)
      (Encode.fields write' enclosing struct values) := by
  unfold Encode.fields
  split
  · exact hR.refl _
  · exact hR.concat hpart

theorem alternative (s : Settings) (union : UnionType) (d : Int64) (value : Payload)
    (hpart : ∀ b, union.selected? d = some b →
      R (write (union.desc :: enclosing) b.type value)
        (write' (union.desc :: enclosing) b.type value)) :
    R (Encode.alternative s write enclosing union d value)
      (Encode.alternative s write' enclosing union d value) := by
  unfold Encode.alternative
  split
  · exact hR.refl _
  · cases hselected : union.selected? d with
    | none => exact hR.refl _
    | some b => exact hR.append (hR.refl _) (hpart b hselected)

theorem elements (s : Settings) {element : TypeDesc} (bound : Option UInt32)
    {values : List Payload}
    (hpart : ∀ v ∈ values, R (write enclosing element v) (write' enclosing element v)) :
    R (Encode.elements s write enclosing element bound values)
      (Encode.elements s write' enclosing element bound values) := by
  unfold Encode.elements
  split
  · exact hR.refl _
  · exact hR.append (hR.refl _) (hR.concat hpart)

theorem fixedElements {element : TypeDesc} (length : UInt32) {values : List Payload}
    (hpart : ∀ v ∈ values, R (write enclosing element v) (write' enclosing element v)) :
    R (Encode.fixedElements write enclosing element length values)
      (Encode.fixedElements write' enclosing element length values) := by
  unfold Encode.fixedElements
  split
  · exact hR.refl _
  · exact hR.concat hpart

/-- The type code in front of the content of an `any` depends on the codec only. -/
theorem content {c c' : Codec} (hsettings : c.settings = c'.settings)
    (haliases : c.aliases = c'.aliases) {type : TypeDesc} {value : Payload}
    (hpart : R (write [] type value) (write' [] type value)) :
    R (Encode.content c write type value) (Encode.content c' write' type value) := by
  unfold Encode.content
  rw [hsettings, haliases]
  exact hR.append (hR.refl _) hpart

/-- **One node.** A node of one writer is related to that of another if each part is, under codecs
    that differ in their limits at most. -/
theorem node {c c' : Codec} (hsettings : c.settings = c'.settings)
    (haliases : c.aliases = c'.aliases)
    (hpart : ∀ enclosing type value, R (write enclosing type value) (write' enclosing type value))
    (enclosing : List TypeDesc) (type : TypeDesc) (value : Payload) :
    R (Encode.node c write enclosing type value) (Encode.node c' write' enclosing type value) := by
  unfold Encode.node
  rw [hsettings]
  cases type.resolve with
  | scalar kind => exact hR.refl _
  | any =>
    cases value with
    | any type value => exact hR.content hsettings haliases (hpart [] type value)
    | _ => exact hR.refl _
  | sequence element bound =>
    cases value with
    | sequence values => exact hR.elements _ bound fun v _ => hpart enclosing element v
    | _ => exact hR.refl _
  | array element length =>
    cases value with
    | array values => exact hR.fixedElements length fun v _ => hpart enclosing element v
    | _ => exact hR.refl _
  | struct name members =>
    cases value with
    | struct values => exact hR.fields ⟨name, members⟩ values fun p _ => hpart _ p.1.type p.2
    | _ => exact hR.refl _
  | union name discriminant branches =>
    cases value with
    | union d value =>
      exact hR.alternative _ ⟨name, discriminant, branches⟩ d value fun b _ => hpart _ b.type value
    | _ => exact hR.refl _
  | recursive name =>
    dsimp only
    cases TypeDesc.enclosing? name enclosing with
    | some target => exact hpart enclosing target value
    | none => exact hR.refl _
  | _ => cases value <;> exact hR.refl _

end Emit.Congruence

end ObjectBroker
