import ObjectBroker.Codec.Basic
import ObjectBroker.TypeCode.Emit
import ObjectBroker.Types.Checked
import ObjectBroker.Types.Substitution
import ObjectBroker.Values.Conformance

/-!
# `ObjectBroker.Codec.Encode` — values written out

A value is written as its parts in order of declaration. Each step down, into a member, an element,
a branch, the content of an `any` or the target of a marker, is one level, and the levels are
limited. The walk is given by one node at a time, with the levels below as an argument.
-/

namespace ObjectBroker

/-- How the part of a value is written: inside which enclosing types, under which type. -/
abbrev PartWriter := List TypeDesc → TypeDesc → Payload → Emit

namespace Encode

/-- A discriminant, in the form of the discriminant type. -/
def discriminant (s : Settings) (type : TypeDesc) (d : Int64) : Emit :=
  match type.resolve with
  | .scalar .boolean => .boolean (d != 0)
  | .scalar .octet => .octet d.toUInt64.toUInt8
  | .scalar .char => .char (Latin1.decode d.toUInt64.toUInt8)
  | .scalar .wchar =>
    match charOfUnit? d.toUInt64.toUInt32 with
    | some c => .wchar s c
    | none => .fail (.invalidData (.discriminantCharacter d))
  | .scalar .short | .scalar .ushort => .word s 2 d.toUInt64.toUInt16.toNat
  | .scalar .long | .scalar .ulong | .enum _ _ => .word s 4 d.toUInt64.toUInt32.toNat
  | .scalar .longlong | .scalar .ulonglong => .longlong s d
  | _ => .fail (.invalidDescriptor (.illegalDiscriminant type.typeName))

/-- The fields of a struct, one for each member. -/
def fields (part : PartWriter) (enclosing : List TypeDesc) (struct : StructType)
    (values : List Payload) : Emit :=
  if struct.members.length ≠ values.length then
    .fail (.invalidData (.memberCount struct.name struct.members.length values.length))
  else
    .concat ((struct.members.zip values).map fun (m, v) =>
      part (struct.desc :: enclosing) m.type v)

/-- The discriminant of a union and the value of the branch it selects. -/
def alternative (s : Settings) (part : PartWriter) (enclosing : List TypeDesc) (union : UnionType)
    (d : Int64) (value : Payload) : Emit :=
  if !union.inRange d then
    .fail (.unknownDiscriminant d)
  else
    match union.selected? d with
    | none => .fail (.unknownDiscriminant d)
    | some b =>
      discriminant s union.discriminant d ++ part (union.desc :: enclosing) b.type value

/-- The elements of a sequence behind their number, which must not exceed the bound. -/
def elements (s : Settings) (part : PartWriter) (enclosing : List TypeDesc) (element : TypeDesc)
    (bound : Option UInt32) (values : List Payload) : Emit :=
  match bound.filter (·.toNat < values.length) with
  | some bound => .fail (.boundViolation bound values.length)
  | none => .count s values.length ++ .concat (values.map (part enclosing element))

/-- The elements of an array, without their number, which is part of the type. -/
def fixedElements (part : PartWriter) (enclosing : List TypeDesc) (element : TypeDesc)
    (length : UInt32) (values : List Payload) : Emit :=
  if values.length ≠ length.toNat then
    .fail (.invalidData (.arrayLength length values.length))
  else
    .concat (values.map (part enclosing element))

/-- The content of an `any`: its type code, and the value outside of every enclosing type. -/
def content (c : Codec) (part : PartWriter) (type : TypeDesc) (value : Payload) : Emit :=
  let written :=
    match c.aliases with
    | .preserve => type
    | .collapse => type.collapse
  written.code c.settings ++ part [] type value

/-- An enumerator, which the enum has to have. -/
def enumerator (s : Settings) (name : String) (enumerators : List String) (ordinal : UInt32) :
    Emit :=
  if ordinal.toNat < enumerators.length then .ulong s ordinal
  else .fail (.invalidData (.noEnumerator name ordinal))

/-- A reference: its interface and its key. The connection it is bound to does not travel. -/
def reference (s : Settings) (r : ObjectRef) : Emit :=
  .string s r.interface ++ .octetSequence s r.key

/-- One node of a value, given how to write its parts. -/
def node (c : Codec) (part : PartWriter) (enclosing : List TypeDesc) (type : TypeDesc)
    (value : Payload) : Emit :=
  match type.resolve, value with
  | .null, .null => .nothing
  | .scalar kind, value =>
    match value with
    | .scalar v =>
      if v.kind = kind then .scalar c.settings v
      else .fail (.typeMismatch kind.name v.kind.name)
    | _ => .fail (.typeMismatch kind.name value.kindName)
  | .string, .string text => .string c.settings text
  | .wstring, .wstring text => .wstring c.settings text
  | .enum name enumerators, .enum ordinal => enumerator c.settings name enumerators ordinal
  | .objectRef _, .objectRef r => reference c.settings r
  | .any, .any type value => content c part type value
  | .sequence element bound, .sequence values =>
    elements c.settings part enclosing element bound values
  | .array element length, .array values => fixedElements part enclosing element length values
  | .struct name members, .struct values => fields part enclosing ⟨name, members⟩ values
  | .union name discriminant branches, .union d value =>
    alternative c.settings part enclosing ⟨name, discriminant, branches⟩ d value
  | .recursive name, value =>
    match TypeDesc.enclosing? name enclosing with
    | some target => part enclosing target value
    | none => .fail (.invalidDescriptor (.danglingMarker name))
  | _, value => .fail (.typeMismatch type.typeName value.kindName)

end Encode

namespace Codec

/-- A value of at most `levels` levels. -/
def encode (c : Codec) : (levels : Nat) → PartWriter
  | 0, _, _, _ => .fail (.depthExceeded c.maxDepth)
  | levels + 1, enclosing, type, value => Encode.node c (c.encode levels) enclosing type value

/-- A dynamic value, without its type. -/
def value (c : Codec) (x : Dynamic) : Emit := c.encode c.maxDepth [] x.type x.payload

/-- A dynamic value behind its type code. -/
def anyValue (c : Codec) (x : Dynamic) : Emit := c.value x.wrap

/-- A message that consists of a value behind its type code. -/
def encodeAny (c : Codec) (x : Dynamic) : Except Fault (List UInt8) := (c.anyValue x).message

end Codec

end ObjectBroker
