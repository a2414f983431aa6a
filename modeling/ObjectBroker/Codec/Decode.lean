import ObjectBroker.Codec.Basic
import ObjectBroker.TypeCode.Read
import ObjectBroker.Values.Conformance
import ObjectBroker.Wire.Stream

/-!
# `ObjectBroker.Codec.Decode` — values read back

Reading follows the type where writing follows the value. The input is not trusted: counts are
checked against bounds, enumerators and discriminants have to exist, and nesting is limited in the
same way as on the writing side, the type code inside an `any` sharing the levels left.
-/

namespace ObjectBroker

/-- How the part of a value is read: inside which enclosing types, under which type. -/
abbrev PartReader := List TypeDesc → TypeDesc → Read Payload

namespace Decode

/-- A discriminant, from the form of the discriminant type. -/
def discriminant (s : Settings) (type : TypeDesc) : Read Int64 :=
  match type.resolve with
  | .scalar .boolean => return if ← Read.boolean then 1 else 0
  | .scalar .octet => return (← Read.octet).toUInt64.toInt64
  | .scalar .char => return (← Read.char).val.toUInt64.toInt64
  | .scalar .wchar => return (← Read.wchar s).val.toUInt64.toInt64
  | .scalar .short => return (UInt16.ofNat (← Read.word s 2)).toInt16.toInt64
  | .scalar .ushort => return (UInt16.ofNat (← Read.word s 2)).toUInt64.toInt64
  | .scalar .long => return (UInt32.ofNat (← Read.word s 4)).toInt32.toInt64
  | .scalar .ulong | .enum _ _ => return (← Read.ulong s).toUInt64.toInt64
  | .scalar .longlong | .scalar .ulonglong => Read.longlong s
  | _ => throw (.invalidDescriptor (.illegalDiscriminant type.typeName))

/-- A union: its discriminant, and the value of the branch it selects. -/
def alternative (s : Settings) (part : PartReader) (enclosing : List TypeDesc)
    (union : UnionType) : Read Payload := do
  let d ← discriminant s union.discriminant
  match union.selected? d with
  | none => throw (.unknownDiscriminant d)
  | some b => return .union d (← part (union.desc :: enclosing) b.type)

/-- The elements of a sequence behind their number. Octets are read as one run. -/
def elements (s : Settings) (part : PartReader) (enclosing : List TypeDesc) (element : TypeDesc)
    (bound : Option UInt32) : Read (List Payload) := do
  let count ← Read.ulong s
  match bound.filter (· < count) with
  | some bound => throw (.boundViolation bound count.toNat)
  | none =>
    if element.resolve = .scalar .octet then
      return (← Read.take count.toNat).map fun octet => .scalar (.octet octet)
    else
      Read.times count.toNat (part enclosing element)

/-- A reference, bound to the codec's connection unless it is nil. -/
def reference (c : Codec) : Read ObjectRef := do
  let interface ← Read.string c.settings
  let key ← Read.octetSequence c.settings
  let unbound : ObjectRef := ⟨interface, key, none⟩
  return if unbound.isNil then .nil else { unbound with connection := c.binding }

/-- The content of an `any`: a type code that shares the levels left, and a value of that type
    outside of every enclosing type. -/
def content (c : Codec) (levels : Nat) (part : PartReader) : Read Payload := do
  let type ← TypeCode.readLevels c.settings c.maxDepth (levels + 1) []
  return .any type (← part [] type)

/-- An enumerator, which the enum has to have. -/
def enumerator (s : Settings) (name : String) (enumerators : List String) : Read UInt32 := do
  let ordinal ← Read.ulong s
  if ordinal.toNat < enumerators.length then return ordinal
  else Read.reject (.noEnumerator name ordinal)

/-- One node of a value, with so many levels left for its parts and given how to read them. -/
def node (c : Codec) (levels : Nat) (part : PartReader) (enclosing : List TypeDesc)
    (type : TypeDesc) : Read Payload :=
  match type.resolve with
  | .null | .typedef _ _ => return .null
  | .scalar kind => return .scalar (← Read.scalar c.settings kind)
  | .string => return .string (← Read.string c.settings)
  | .wstring => return .wstring (← Read.wstring c.settings)
  | .enum name enumerators => return .enum (← enumerator c.settings name enumerators)
  | .objectRef _ => return .objectRef (← reference c)
  | .any => content c levels part
  | .sequence element bound =>
    return .sequence (← elements c.settings part enclosing element bound)
  | .array element length =>
    return .array (← Read.times length.toNat (part enclosing element))
  | .struct name members =>
    return .struct (← Read.each (fun m => part (.struct name members :: enclosing) m.type) members)
  | .union name discriminant branches =>
    alternative c.settings part enclosing ⟨name, discriminant, branches⟩
  | .recursive name =>
    match TypeDesc.enclosing? name enclosing with
    | some target => part enclosing target
    | none => throw (.invalidDescriptor (.danglingMarker name))

end Decode

namespace Codec

/-- A value of at most `levels` levels. -/
def decode (c : Codec) : (levels : Nat) → PartReader
  | 0, _, _ => throw (.depthExceeded c.maxDepth)
  | levels + 1, enclosing, type => Decode.node c levels (c.decode levels) enclosing type

/-- A value of a known type. -/
def readValue (c : Codec) (type : TypeDesc) : Read Dynamic := do
  return ⟨type, ← c.decode c.maxDepth [] type⟩

/-- The elements of a sequence, outside of any value. -/
def readElements (c : Codec) (element : TypeDesc) (bound : Option UInt32) : Read (List Payload) :=
  Decode.elements c.settings (c.decode c.maxDepth) [] element bound

/-- The value in a message that consists of a value behind its type code. -/
def decodeAny (c : Codec) (message : List UInt8) : Except Fault Dynamic :=
  match Read.onMessage (c.decode c.maxDepth [] .any) message with
  | .ok (.any type value) => .ok ⟨type, value⟩
  | .ok other => .error (.typeMismatch "any" other.kindName)
  | .error f => .error f

end Codec

end ObjectBroker
