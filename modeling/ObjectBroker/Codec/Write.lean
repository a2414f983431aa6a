import ObjectBroker.Codec.Encode
import ObjectBroker.TypeCode.Write

/-!
# `ObjectBroker.Codec.Write` — values written in steps

How a value gets into a message under way: part by part, so that a fault inside a later part finds
the earlier parts already written. What is written is given by `Codec.Encode`; a whole value is
attempted, and where it fails the message is as it was before.
-/

namespace ObjectBroker

/-- The steps in which the part of a value is written. -/
abbrev PartSteps := List TypeDesc → TypeDesc → Payload → Steps

namespace Write

/-- The fields of a struct, one after the other. -/
def fields (part : PartSteps) (enclosing : List TypeDesc) (struct : StructType)
    (values : List Payload) : Steps :=
  if struct.members.length ≠ values.length then
    throw (.invalidData (.memberCount struct.name struct.members.length values.length))
  else
    Steps.each (fun (m, v) => part (struct.desc :: enclosing) m.type v) (struct.members.zip values)

/-- The discriminant of a union, then the value of the branch it selects. -/
def alternative (s : Settings) (part : PartSteps) (enclosing : List TypeDesc) (union : UnionType)
    (d : Int64) (value : Payload) : Steps :=
  if !union.inRange d then
    throw (.unknownDiscriminant d)
  else
    match union.selected? d with
    | none => throw (.unknownDiscriminant d)
    | some b => do
      (Encode.discriminant s union.discriminant d).write
      part (union.desc :: enclosing) b.type value

/-- The number of elements of a sequence, then the elements one after the other. -/
def elements (s : Settings) (part : PartSteps) (enclosing : List TypeDesc) (element : TypeDesc)
    (bound : Option UInt32) (values : List Payload) : Steps :=
  match bound.filter (·.toNat < values.length) with
  | some bound => throw (.boundViolation bound values.length)
  | none => do
    (Emit.count s values.length).write
    Steps.each (part enclosing element) values

/-- The elements of an array, one after the other. -/
def fixedElements (part : PartSteps) (enclosing : List TypeDesc) (element : TypeDesc)
    (length : UInt32) (values : List Payload) : Steps :=
  if values.length ≠ length.toNat then
    throw (.invalidData (.arrayLength length values.length))
  else
    Steps.each (part enclosing element) values

/-- The type code of the content of an `any`, then the value. -/
def content (c : Codec) (part : PartSteps) (type : TypeDesc) (value : Payload) : Steps := do
  match c.aliases with
  | .preserve => type.writeCode c.settings
  | .collapse => type.collapse.writeCode c.settings
  part [] type value

/-- The interface of a reference, then its key. -/
def reference (s : Settings) (r : ObjectRef) : Steps := do
  (Emit.string s r.interface).write
  (Emit.octetSequence s r.key).write

/-- A scalar value, which has to be of the kind of its type. -/
def scalar (s : Settings) (kind : Scalar) : Payload → Steps
  | .scalar v =>
    if v.kind = kind then (Emit.scalar s v).write
    else throw (.typeMismatch kind.name v.kind.name)
  | value => throw (.typeMismatch kind.name value.kindName)

/-- One node of a value, given how to write its parts. -/
def node (c : Codec) (part : PartSteps) (enclosing : List TypeDesc) (type : TypeDesc)
    (value : Payload) : Steps :=
  match type.resolve, value with
  | .null, .null => pure ()
  | .scalar kind, value => scalar c.settings kind value
  | .string, .string text => (Emit.string c.settings text).write
  | .wstring, .wstring text => (Emit.wstring c.settings text).write
  | .enum name enumerators, .enum ordinal =>
    (Encode.enumerator c.settings name enumerators ordinal).write
  | .objectRef _, .objectRef r => reference c.settings r
  | .any, .any type value => content c part type value
  | .sequence element bound, .sequence values =>
    elements c.settings part enclosing element bound values
  | .array element length, .array values => fixedElements part enclosing element length values
  | .struct name members, .struct values => fields part enclosing ⟨name, members⟩ values
  | .union name discriminant branches, .union d value =>
    alternative c.settings part enclosing ⟨name, discriminant, branches⟩ d value
  | .recursive name, value =>
    match TypeDesc.enclosing? name enclosing with
    | some target => part enclosing target value
    | none => throw (.invalidDescriptor (.danglingMarker name))
  | _, value => throw (.typeMismatch type.typeName value.kindName)

end Write

namespace Codec

/-- The steps in which a value of at most `levels` levels is written. -/
def write (c : Codec) : (levels : Nat) → PartSteps
  | 0, _, _, _ => throw (.depthExceeded c.maxDepth)
  | levels + 1, enclosing, type, value => Write.node c (c.write levels) enclosing type value

/-- Writes a dynamic value, without its type, into a message. -/
def writeValue (c : Codec) (x : Dynamic) (w : Writer) : Except Fault Unit × Writer :=
  w.attempt (c.write c.maxDepth [] x.type x.payload)

end Codec

end ObjectBroker
