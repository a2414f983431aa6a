import ObjectBroker.Types.Checked
import ObjectBroker.Values.Basic

/-!
# `ObjectBroker.Values.Conformance` — when a payload has the shape of a type

Conformance looks at kinds, member counts, array lengths, enumerators and union branches. It does
not look at sequence bounds, which are the codec's business, and it does not look inside an `any`,
whose content was checked against its own description. A recursive marker stands for the innermost
struct or union of its name on the way down.
-/

namespace ObjectBroker

/-- The innermost enclosing type of this name; the innermost comes first. -/
def TypeDesc.enclosing? (name : String) (enclosing : List TypeDesc) : Option TypeDesc :=
  enclosing.find? fun t => t.name? == some name

/-- What a type amounts to inside the given enclosing types: `typedef` names are looked through and
    a marker gives way to the type it stands for. -/
def TypeDesc.shape? (enclosing : List TypeDesc) (t : TypeDesc) : Option TypeDesc :=
  match t.resolve with
  | .recursive name => TypeDesc.enclosing? name enclosing
  | resolved => some resolved

namespace Payload

mutual
/-- Whether the payload has the shape of the type, inside the given enclosing types. -/
def conforms (enclosing : List TypeDesc) (t : TypeDesc) : Payload → Bool
  | .null => (t.shape? enclosing matches some .null)
  | .scalar v =>
    match t.shape? enclosing with
    | some (.scalar kind) => v.kind == kind
    | _ => false
  | .string _ => (t.shape? enclosing matches some .string)
  | .wstring _ => (t.shape? enclosing matches some .wstring)
  | .any _ _ => (t.shape? enclosing matches some .any)
  | .objectRef _ => (t.shape? enclosing matches some (.objectRef _))
  | .enum ordinal =>
    match t.shape? enclosing with
    | some (.enum _ enumerators) => ordinal.toNat < enumerators.length
    | _ => false
  | .struct fields =>
    match t.shape? enclosing with
    | some (.struct name members) =>
      conformsMembers (.struct name members :: enclosing) members fields
    | _ => false
  | .union discriminant value =>
    match t.shape? enclosing with
    | some (.union name type branches) =>
      match UnionType.selected? ⟨name, type, branches⟩ discriminant with
      | some b => conforms (.union name type branches :: enclosing) b.type value
      | none => false
    | _ => false
  | .sequence elements =>
    match t.shape? enclosing with
    | some (.sequence element _) => conformsAll enclosing element elements
    | _ => false
  | .array elements =>
    match t.shape? enclosing with
    | some (.array element length) =>
      elements.length == length.toNat && conformsAll enclosing element elements
    | _ => false
/-- Whether there is one field for each member, of its shape. -/
def conformsMembers (enclosing : List TypeDesc) : List (Member TypeDesc) → List Payload → Bool
  | [], [] => true
  | m :: ms, f :: fs => conforms enclosing m.type f && conformsMembers enclosing ms fs
  | _, _ => false
/-- Whether every payload has the shape of the type. -/
def conformsAll (enclosing : List TypeDesc) (t : TypeDesc) : List Payload → Bool
  | [] => true
  | p :: ps => conforms enclosing t p && conformsAll enclosing t ps
end

theorem conformsAll_eq_all (enclosing : List TypeDesc) (t : TypeDesc) (ps : List Payload) :
    conformsAll enclosing t ps = ps.all (conforms enclosing t) := by
  induction ps with
  | nil => rfl
  | cons p ps ih => simp [conformsAll, ih]

theorem conformsMembers_length {enclosing : List TypeDesc} {ms : List (Member TypeDesc)}
    {fs : List Payload} (h : conformsMembers enclosing ms fs = true) : ms.length = fs.length := by
  induction ms generalizing fs with
  | nil => cases fs <;> simp_all [conformsMembers]
  | cons m ms ih =>
    cases fs with
    | nil => simp [conformsMembers] at h
    | cons f fs =>
      simp only [conformsMembers, Bool.and_eq_true] at h
      simp [ih h.2]

end Payload

namespace Dynamic

/-- Pairs a payload with a description whose shape it has. -/
def ofPayload (t : TypeDesc) (p : Payload) : Except Fault Dynamic :=
  if p.conforms [] t then .ok ⟨t, p⟩
  else .error (.typeMismatch t.typeName p.kindName)

/-- Whether the payload has the shape of the description it is paired with. -/
def conforming (x : Dynamic) : Bool := x.payload.conforms [] x.type

theorem ofPayload_eq_ok_iff {t : TypeDesc} {p : Payload} {x : Dynamic} :
    ofPayload t p = .ok x ↔ p.conforms [] t = true ∧ x = ⟨t, p⟩ := by
  by_cases h : p.conforms [] t = true
  · simp [ofPayload, h, eq_comm (b := x)]
  · simp [ofPayload, h]

end Dynamic

end ObjectBroker
