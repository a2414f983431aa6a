/-!
# `ObjectBroker.Types.Basic` — descriptions of interface types

A `TypeDesc` is the run-time description of an interface definition type: scalars and strings,
records and unions with named parts, sequences and arrays, `typedef` names, object references, and
markers that stand for an enclosing record or union. Descriptions are plain data; the checks a
description has to pass before it is used are in `Types.Checked`.
-/

namespace ObjectBroker

/-! ## The parts of a description -/

/-- The kinds of values that are written as one number or one character. -/
inductive Scalar where
  | octet
  | boolean
  | short
  | ushort
  | long
  | ulong
  | longlong
  | ulonglong
  | float
  | double
  | char
  | wchar
deriving DecidableEq

/-- Spelling of a scalar type in an interface definition. -/
def Scalar.name : Scalar → String
  | .octet => "octet"
  | .boolean => "boolean"
  | .short => "short"
  | .ushort => "unsigned short"
  | .long => "long"
  | .ulong => "unsigned long"
  | .longlong => "long long"
  | .ulonglong => "unsigned long long"
  | .float => "float"
  | .double => "double"
  | .char => "char"
  | .wchar => "wchar"

/-- A label of a union branch: one discriminant, or every discriminant without a label. -/
inductive Label where
  | value (discriminant : Int64)
  | default
deriving DecidableEq

/-- A named part of a struct. -/
structure Member (α : Type) where
  name : String
  type : α
deriving DecidableEq

/-- A named alternative of a union, with the labels that select it. -/
structure Branch (α : Type) where
  labels : List Label
  name : String
  type : α
deriving DecidableEq

/-- Description of an interface definition type. -/
inductive TypeDesc where
  /-- Type of an empty dynamic value. -/
  | null
  | scalar (kind : Scalar)
  | string
  | wstring
  | any
  | enum (name : String) (enumerators : List String)
  | struct (name : String) (members : List (Member TypeDesc))
  | union (name : String) (discriminant : TypeDesc) (branches : List (Branch TypeDesc))
  | sequence (element : TypeDesc) (bound : Option UInt32)
  | array (element : TypeDesc) (length : UInt32)
  | typedef (name : String) (underlying : TypeDesc)
  | objectRef (interface : String)
  /-- Stands for the innermost enclosing struct or union of this name. -/
  | recursive (name : String)
deriving Inhabited

/-- Name of the interface that every object reference is assignable to. -/
def objectInterface : String := "Object"

namespace TypeDesc

/-! ## Induction -/

/-- Induction over descriptions, with one hypothesis for each member or branch. -/
@[elab_as_elim, induction_eliminator]
theorem induct {motive : TypeDesc → Prop}
    (null : motive .null)
    (scalar : ∀ kind, motive (.scalar kind))
    (string : motive .string)
    (wstring : motive .wstring)
    (any : motive .any)
    (enum : ∀ name enumerators, motive (.enum name enumerators))
    (struct : ∀ name members, (∀ m ∈ members, motive m.type) → motive (.struct name members))
    (union : ∀ name discriminant branches, motive discriminant →
      (∀ b ∈ branches, motive b.type) → motive (.union name discriminant branches))
    (sequence : ∀ element bound, motive element → motive (.sequence element bound))
    (array : ∀ element length, motive element → motive (.array element length))
    (typedef : ∀ name underlying, motive underlying → motive (.typedef name underlying))
    (objectRef : ∀ interface, motive (.objectRef interface))
    (recursive : ∀ name, motive (.recursive name))
    (t : TypeDesc) : motive t :=
  @TypeDesc.rec motive (fun ms => ∀ m ∈ ms, motive m.type) (fun bs => ∀ b ∈ bs, motive b.type)
    (fun m => motive m.type) (fun b => motive b.type)
    null scalar string wstring any enum struct union sequence array typedef objectRef recursive
    (by simp) (fun _ _ hm hms => by simpa using ⟨hm, hms⟩)
    (by simp) (fun _ _ hb hbs => by simpa using ⟨hb, hbs⟩)
    (fun _ _ h => h) (fun _ _ _ h => h) t

/-! ## Equality -/

mutual
/-- Structural equality of descriptions. -/
def beq : TypeDesc → TypeDesc → Bool
  | .null, .null => true
  | .scalar a, .scalar b => a == b
  | .string, .string => true
  | .wstring, .wstring => true
  | .any, .any => true
  | .enum n es, .enum n' es' => n == n' && es == es'
  | .struct n ms, .struct n' ms' => n == n' && beqMembers ms ms'
  | .union n d bs, .union n' d' bs' => n == n' && beq d d' && beqBranches bs bs'
  | .sequence e b, .sequence e' b' => beq e e' && b == b'
  | .array e l, .array e' l' => beq e e' && l == l'
  | .typedef n u, .typedef n' u' => n == n' && beq u u'
  | .objectRef i, .objectRef i' => i == i'
  | .recursive n, .recursive n' => n == n'
  | _, _ => false
/-- Equality of member lists. -/
def beqMembers : List (Member TypeDesc) → List (Member TypeDesc) → Bool
  | [], [] => true
  | m :: ms, m' :: ms' => m.name == m'.name && beq m.type m'.type && beqMembers ms ms'
  | _, _ => false
/-- Equality of branch lists. -/
def beqBranches : List (Branch TypeDesc) → List (Branch TypeDesc) → Bool
  | [], [] => true
  | b :: bs, b' :: bs' =>
    b.labels == b'.labels && b.name == b'.name && beq b.type b'.type && beqBranches bs bs'
  | _, _ => false
end

mutual
theorem beq_refl : (t : TypeDesc) → beq t t = true
  | .null | .scalar _ | .string | .wstring | .any | .enum _ _ | .objectRef _ | .recursive _ => by
    simp [beq]
  | .struct _ ms => by simp [beq, beqMembers_refl ms]
  | .union _ d bs => by simp [beq, beq_refl d, beqBranches_refl bs]
  | .sequence e _ => by simp [beq, beq_refl e]
  | .array e _ => by simp [beq, beq_refl e]
  | .typedef _ u => by simp [beq, beq_refl u]
theorem beqMembers_refl : (ms : List (Member TypeDesc)) → beqMembers ms ms = true
  | [] => rfl
  | m :: ms => by simp [beqMembers, beq_refl m.type, beqMembers_refl ms]
theorem beqBranches_refl : (bs : List (Branch TypeDesc)) → beqBranches bs bs = true
  | [] => rfl
  | b :: bs => by simp [beqBranches, beq_refl b.type, beqBranches_refl bs]
end

mutual
theorem eq_of_beq : (a b : TypeDesc) → beq a b = true → a = b
  | .null, b, h | .string, b, h | .wstring, b, h | .any, b, h => by
    cases b <;> simp [beq] at h ⊢
  | .scalar _, b, h | .enum _ _, b, h | .objectRef _, b, h | .recursive _, b, h => by
    cases b <;> simp [beq] at h ⊢
    all_goals exact h
  | .struct _ ms, b, h => by
    cases b with
    | struct n' ms' =>
      simp only [beq, Bool.and_eq_true, beq_iff_eq] at h
      rw [h.1, eq_of_beqMembers ms ms' h.2]
    | _ => simp [beq] at h
  | .union _ d bs, b, h => by
    cases b with
    | union n' d' bs' =>
      simp only [beq, Bool.and_eq_true, beq_iff_eq] at h
      rw [h.1.1, eq_of_beq d d' h.1.2, eq_of_beqBranches bs bs' h.2]
    | _ => simp [beq] at h
  | .sequence e _, b, h => by
    cases b with
    | sequence e' b' =>
      simp only [beq, Bool.and_eq_true, beq_iff_eq] at h
      rw [eq_of_beq e e' h.1, h.2]
    | _ => simp [beq] at h
  | .array e _, b, h => by
    cases b with
    | array e' l' =>
      simp only [beq, Bool.and_eq_true, beq_iff_eq] at h
      rw [eq_of_beq e e' h.1, h.2]
    | _ => simp [beq] at h
  | .typedef _ u, b, h => by
    cases b with
    | typedef n' u' =>
      simp only [beq, Bool.and_eq_true, beq_iff_eq] at h
      rw [h.1, eq_of_beq u u' h.2]
    | _ => simp [beq] at h
theorem eq_of_beqMembers : (ms ms' : List (Member TypeDesc)) → beqMembers ms ms' = true → ms = ms'
  | [], ms', h => by cases ms' <;> simp [beqMembers] at h ⊢
  | ⟨n, t⟩ :: ms, ms', h => by
    cases ms' with
    | nil => simp [beqMembers] at h
    | cons m' ms' =>
      obtain ⟨n', t'⟩ := m'
      simp only [beqMembers, Bool.and_eq_true, beq_iff_eq] at h
      rw [h.1.1, eq_of_beq t t' h.1.2, eq_of_beqMembers ms ms' h.2]
theorem eq_of_beqBranches :
    (bs bs' : List (Branch TypeDesc)) → beqBranches bs bs' = true → bs = bs'
  | [], bs', h => by cases bs' <;> simp [beqBranches] at h ⊢
  | ⟨l, n, t⟩ :: bs, bs', h => by
    cases bs' with
    | nil => simp [beqBranches] at h
    | cons b' bs' =>
      obtain ⟨l', n', t'⟩ := b'
      simp only [beqBranches, Bool.and_eq_true, beq_iff_eq] at h
      rw [h.1.1.1, h.1.1.2, eq_of_beq t t' h.1.2, eq_of_beqBranches bs bs' h.2]
end

theorem beq_eq_true_iff {a b : TypeDesc} : beq a b = true ↔ a = b :=
  ⟨eq_of_beq a b, fun h => h ▸ beq_refl a⟩

instance : DecidableEq TypeDesc := fun _ _ => decidable_of_iff _ beq_eq_true_iff

/-! ## Names -/

/-- Name of a description that has one; an object reference is named by its interface. -/
def name? : TypeDesc → Option String
  | .enum n _ | .struct n _ | .union n _ _ | .typedef n _ | .recursive n => some n
  | .objectRef interface => some interface
  | _ => none

/-- Spelling of the type in an interface definition, as reports give it. -/
def typeName : TypeDesc → String
  | .null => "null"
  | .scalar kind => kind.name
  | .string => "string"
  | .wstring => "wstring"
  | .any => "any"
  | .sequence element none => "sequence<" ++ element.typeName ++ ">"
  | .sequence element (some bound) =>
    "sequence<" ++ element.typeName ++ ", " ++ toString bound.toNat ++ ">"
  | .array element length => element.typeName ++ "[" ++ toString length.toNat ++ "]"
  | .enum n _ | .struct n _ | .union n _ _ | .typedef n _ | .recursive n => n
  | .objectRef interface => interface

/-! ## Looking through `typedef` names -/

/-- The first description along a chain of `typedef` names that is not one itself. -/
def resolve : TypeDesc → TypeDesc
  | .typedef _ underlying => underlying.resolve
  | t => t

/-- A resolved description is not a `typedef` name. -/
theorem resolve_ne_typedef (t : TypeDesc) (n : String) (u : TypeDesc) :
    t.resolve ≠ .typedef n u := by
  induction t <;> simp_all [resolve]

@[simp] theorem resolve_resolve (t : TypeDesc) : t.resolve.resolve = t.resolve := by
  induction t <;> simp_all [resolve]

@[simp] theorem resolve_typedef (n : String) (u : TypeDesc) :
    (TypeDesc.typedef n u).resolve = u.resolve := rfl

end TypeDesc

/-! ## Structs and unions as such -/

/-- A description known to be a struct. -/
structure StructType where
  name : String
  members : List (Member TypeDesc)
deriving DecidableEq

/-- A description known to be a union. -/
structure UnionType where
  name : String
  discriminant : TypeDesc
  branches : List (Branch TypeDesc)
deriving DecidableEq

/-- The struct as a description. -/
def StructType.desc (s : StructType) : TypeDesc := .struct s.name s.members

/-- The union as a description. -/
def UnionType.desc (u : UnionType) : TypeDesc := .union u.name u.discriminant u.branches

/-- Position of the first member of this name. -/
def StructType.memberIndex? (s : StructType) (name : String) : Option Nat :=
  s.members.findIdx? (·.name == name)

/-- The struct behind the `typedef` names, if there is one. -/
def TypeDesc.struct? (t : TypeDesc) : Option StructType :=
  match t.resolve with
  | .struct name members => some ⟨name, members⟩
  | _ => none

/-- The union behind the `typedef` names, if there is one. -/
def TypeDesc.union? (t : TypeDesc) : Option UnionType :=
  match t.resolve with
  | .union name discriminant branches => some ⟨name, discriminant, branches⟩
  | _ => none

theorem TypeDesc.struct?_eq_some_iff {t : TypeDesc} {s : StructType} :
    t.struct? = some s ↔ t.resolve = s.desc := by
  unfold TypeDesc.struct?
  cases s
  cases h : t.resolve <;> simp [StructType.desc]

theorem TypeDesc.union?_eq_some_iff {t : TypeDesc} {u : UnionType} :
    t.union? = some u ↔ t.resolve = u.desc := by
  unfold TypeDesc.union?
  cases u
  cases h : t.resolve <;> simp [UnionType.desc]

end ObjectBroker
