import ObjectBroker.Types.Basic

/-!
# `ObjectBroker.Types.Substitution` — descriptions with parts replaced

A description is rewritten in two ways. Where names do not travel, every `typedef` name gives way to
what it stands for. Where an enclosing type is left behind, its markers give way to the type itself;
a nested struct or union of the same name keeps its markers, which stand for it and not for the
outer type.
-/

namespace ObjectBroker

namespace TypeDesc

mutual
/-- The same type without any `typedef` name, at any depth. -/
def collapse : TypeDesc → TypeDesc
  | .typedef _ underlying => underlying.collapse
  | .struct name members => .struct name (collapseMembers members)
  | .union name discriminant branches =>
    .union name discriminant.collapse (collapseBranches branches)
  | .sequence element bound => .sequence element.collapse bound
  | .array element length => .array element.collapse length
  | .null => .null
  | .scalar kind => .scalar kind
  | .string => .string
  | .wstring => .wstring
  | .any => .any
  | .enum name enumerators => .enum name enumerators
  | .objectRef interface => .objectRef interface
  | .recursive name => .recursive name
/-- Members with collapsed types. -/
def collapseMembers : List (Member TypeDesc) → List (Member TypeDesc)
  | [] => []
  | m :: ms => { m with type := m.type.collapse } :: collapseMembers ms
/-- Branches with collapsed types. -/
def collapseBranches : List (Branch TypeDesc) → List (Branch TypeDesc)
  | [] => []
  | b :: bs => { b with type := b.type.collapse } :: collapseBranches bs
end

mutual
/-- The same type with each marker of `target` replaced by `content`, except inside a struct or
    union that is itself named `target`. -/
def substitute : (t : TypeDesc) → (target : String) → (content : TypeDesc) → TypeDesc
  | .recursive name, target, content => if name = target then content else .recursive name
  | .struct name members, target, content =>
    if name = target then .struct name members
    else .struct name (substituteMembers members target content)
  | .union name discriminant branches, target, content =>
    if name = target then .union name discriminant branches
    else .union name (discriminant.substitute target content)
      (substituteBranches branches target content)
  | .sequence element bound, target, content => .sequence (element.substitute target content) bound
  | .array element length, target, content => .array (element.substitute target content) length
  | .typedef name underlying, target, content =>
    .typedef name (underlying.substitute target content)
  | .null, _, _ => .null
  | .scalar kind, _, _ => .scalar kind
  | .string, _, _ => .string
  | .wstring, _, _ => .wstring
  | .any, _, _ => .any
  | .enum name enumerators, _, _ => .enum name enumerators
  | .objectRef interface, _, _ => .objectRef interface
/-- Members with the markers of `target` replaced. -/
def substituteMembers :
    (members : List (Member TypeDesc)) → (target : String) → (content : TypeDesc) →
      List (Member TypeDesc)
  | [], _, _ => []
  | m :: ms, target, content =>
    { m with type := m.type.substitute target content } :: substituteMembers ms target content
/-- Branches with the markers of `target` replaced. -/
def substituteBranches :
    (branches : List (Branch TypeDesc)) → (target : String) → (content : TypeDesc) →
      List (Branch TypeDesc)
  | [], _, _ => []
  | b :: bs, target, content =>
    { b with type := b.type.substitute target content } :: substituteBranches bs target content
end

theorem collapseMembers_eq_map (ms : List (Member TypeDesc)) :
    collapseMembers ms = ms.map fun m => { m with type := m.type.collapse } := by
  induction ms with
  | nil => rfl
  | cons m ms ih => simp [collapseMembers, ih]

theorem collapseBranches_eq_map (bs : List (Branch TypeDesc)) :
    collapseBranches bs = bs.map fun b => { b with type := b.type.collapse } := by
  induction bs with
  | nil => rfl
  | cons b bs ih => simp [collapseBranches, ih]

theorem substituteMembers_eq_map (target : String) (content : TypeDesc)
    (ms : List (Member TypeDesc)) :
    substituteMembers ms target content =
      ms.map fun m => { m with type := m.type.substitute target content } := by
  induction ms with
  | nil => rfl
  | cons m ms ih => simp [substituteMembers, ih]

theorem substituteBranches_eq_map (target : String) (content : TypeDesc)
    (bs : List (Branch TypeDesc)) :
    substituteBranches bs target content =
      bs.map fun b => { b with type := b.type.substitute target content } := by
  induction bs with
  | nil => rfl
  | cons b bs ih => simp [substituteBranches, ih]

end TypeDesc

end ObjectBroker
