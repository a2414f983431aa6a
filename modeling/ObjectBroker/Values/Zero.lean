import ObjectBroker.Types.BranchTable
import ObjectBroker.Values.Basic

/-!
# `ObjectBroker.Values.Zero` — the value a type starts from

Numbers start at zero, strings and sequences empty, structs with every member at its own zero, and
a union at its first branch. A union is selected by the first label of that branch, or by the
discriminant left over for it when that label is the default.
-/

namespace ObjectBroker

namespace UnionType

/-- The discriminant a branch is activated with: its first label, or the discriminant left over
    for the default branch. -/
def activation? (u : UnionType) (b : Branch TypeDesc) : Option Int64 :=
  match b.labels with
  | .value d :: _ => some d
  | _ => u.implicitDefault?

end UnionType

namespace TypeDesc

mutual
/-- The value a type starts from. -/
def zero : TypeDesc → Payload
  | .typedef _ underlying => underlying.zero
  | .null | .recursive _ => .null
  | .scalar kind => .scalar kind.zero
  | .string => .string ""
  | .wstring => .wstring ""
  | .any => Dynamic.empty.toAny
  | .enum _ _ => .enum 0
  | .struct _ members => .struct (zeroMembers members)
  | .union _ _ [] => .null
  | .union name discriminant (b :: bs) =>
    .union ((UnionType.activation? ⟨name, discriminant, b :: bs⟩ b).getD 0) b.type.zero
  | .sequence _ _ => .sequence []
  | .array element length => .array (List.replicate length.toNat element.zero)
  | .objectRef _ => .objectRef .nil
/-- The values that the members start from. -/
def zeroMembers : List (Member TypeDesc) → List Payload
  | [] => []
  | m :: ms => m.type.zero :: zeroMembers ms
end

theorem zeroMembers_eq_map (ms : List (Member TypeDesc)) :
    zeroMembers ms = ms.map (·.type.zero) := by
  induction ms with
  | nil => rfl
  | cons m ms ih => simp [zeroMembers, ih]

@[simp] theorem zero_resolve (t : TypeDesc) : t.resolve.zero = t.zero := by
  induction t <;> simp_all [resolve, zero]

end TypeDesc

end ObjectBroker
