import ObjectBroker.Codec.Decode
import ObjectBroker.Codec.Write
import ObjectBroker.Types.Assignable
import ObjectBroker.Values.Equality
import ObjectBroker.Values.Zero

/-!
# `ObjectBroker.Builder.StructValue` — structs built member by member

A `StructValue` is a struct whose type is known only at run time. Every member starts at its zero
value and is then set and read by name; what is set has to be assignable to the member's type.
-/

namespace ObjectBroker

/-- A struct with one field for each member. -/
structure StructValue where
  type : TypeDesc
  shape : StructType
  fields : List Payload
  isStruct : type.struct? = some shape
  complete : fields.length = shape.members.length

namespace StructValue

/-- The struct with every member at its zero value. -/
def new (type : TypeDesc) : Except Fault StructValue :=
  match h : type.struct? with
  | some shape =>
    .ok ⟨type, shape, TypeDesc.zeroMembers shape.members, h, by
      simp [TypeDesc.zeroMembers_eq_map]⟩
  | none => .error (.typeMismatch "struct" type.typeName)

/-- Position of a member, which the struct has to have. -/
def memberIndex (s : StructValue) (name : String) : Except Fault Nat :=
  match s.shape.memberIndex? name with
  | some i => .ok i
  | none => .error (.preconditionNotMet (.noMember s.shape.name name))

/-- The type of a member as declared. -/
def memberType (s : StructValue) (index : Nat) : TypeDesc :=
  (s.shape.members[index]?.map (·.type)).getD .null

/-- The field of a value for a member of some type. A member of type `any` takes a value of any
    other type as its content. -/
def fieldOf (member : TypeDesc) (x : Dynamic) : Except Fault Payload :=
  if member.resolve = .any ∧ x.type.resolve ≠ .any then
    .ok x.toAny
  else if x.type.assignableTo member then
    .ok x.payload
  else
    .error (.typeMismatch member.typeName x.type.typeName)

/-- Stores a value in a member. -/
def set (s : StructValue) (name : String) (x : Dynamic) : Except Fault StructValue := do
  let index ← s.memberIndex name
  let field ← fieldOf (s.memberType index) x
  return { s with
    fields := s.fields.set index field
    complete := by simpa using s.complete }

/-- A copy of a member. Markers of the struct in its type are replaced by the struct itself, so
    that the copy stands on its own. -/
def get (s : StructValue) (name : String) : Except Fault Dynamic := do
  let index ← s.memberIndex name
  return ⟨(s.memberType index).substitute s.shape.name s.shape.desc, s.fields.getD index .null⟩

/-- The struct as a dynamic value. -/
def toDynamic (s : StructValue) : Dynamic := ⟨s.type, .struct s.fields⟩

/-- A dynamic value as a struct; only the number of its fields is checked. -/
def ofDynamic (x : Dynamic) : Except Fault StructValue :=
  match h : x.type.struct?, x.payload with
  | some shape, .struct fields =>
    if complete : fields.length = shape.members.length then
      .ok ⟨x.type, shape, fields, h, complete⟩
    else
      .error (.invalidData (.memberCount shape.name shape.members.length fields.length))
  | _, other => .error (.typeMismatch "struct" other.kindName)

/-- Equality of structs: the same type and the same fields. -/
def same (a b : StructValue) : Bool := a.toDynamic.same b.toDynamic

end StructValue

namespace Codec

/-- A struct, without its type. The struct itself is no nesting level. -/
def structValue (c : Codec) (s : StructValue) : Emit :=
  Encode.fields (c.encode c.maxDepth) [] s.shape s.fields

/-- Writes a struct into a message. -/
def writeStruct (c : Codec) (s : StructValue) (w : Writer) : Except Fault Unit × Writer :=
  w.attempt (Write.fields (c.write c.maxDepth) [] s.shape s.fields)

/-- A struct of a known type. -/
def readStruct (c : Codec) (type : TypeDesc) : Read StructValue := do
  TypeCode.checked (StructValue.ofDynamic (← c.readValue type))

end Codec

end ObjectBroker
