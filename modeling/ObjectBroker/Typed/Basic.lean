import ObjectBroker.Codec.Decode
import ObjectBroker.Codec.Encode
import ObjectBroker.Types.Assignable

/-!
# `ObjectBroker.Typed.Basic` — Lean types with an interface definition type

A type with a `Typed` instance has a description of its own, so its values go into dynamic values
and come out of them without a description being named. A payload of another kind is refused; the
payload a value maps to maps back to the value.
-/

namespace ObjectBroker

/-- A type whose values map to payloads of one description. -/
class Typed (α : Type) where
  /-- The description of every value of the type. -/
  desc : TypeDesc
  /-- The content of a value. -/
  toPayload : α → Payload
  /-- The value with a given content. -/
  ofPayload : Payload → Except Fault α

/-- A payload of another kind was found where one spelled `expected` belongs. -/
def Payload.mismatch {α : Type} (expected : String) (found : Payload) : Except Fault α :=
  .error (.typeMismatch expected found.kindName)

/-! ## Scalars and strings -/

/-- A wide character. A plain `Char` is a narrow one. -/
structure WideChar where
  char : Char
deriving DecidableEq

/-- A wide string. A plain `String` is a narrow one. -/
structure WideString where
  text : String
deriving DecidableEq

/-- The mapping of a scalar type, given how its values are held. -/
@[reducible] def Typed.ofScalar {α : Type} (kind : Scalar) (hold : α → ScalarValue)
    (held? : ScalarValue → Option α) : Typed α where
  desc := .scalar kind
  toPayload a := .scalar (hold a)
  ofPayload
    | .scalar v =>
      match held? v with
      | some a => .ok a
      | none => .error (.typeMismatch kind.name v.kind.name)
    | other => other.mismatch kind.name

instance : Typed UInt8 := .ofScalar .octet .octet fun | .octet v => some v | _ => none

instance : Typed Bool := .ofScalar .boolean .boolean fun | .boolean v => some v | _ => none

instance : Typed Int16 := .ofScalar .short .short fun | .short v => some v | _ => none

instance : Typed UInt16 := .ofScalar .ushort .ushort fun | .ushort v => some v | _ => none

instance : Typed Int32 := .ofScalar .long .long fun | .long v => some v | _ => none

instance : Typed UInt32 := .ofScalar .ulong .ulong fun | .ulong v => some v | _ => none

instance : Typed Int64 := .ofScalar .longlong .longlong fun | .longlong v => some v | _ => none

instance : Typed UInt64 := .ofScalar .ulonglong .ulonglong fun | .ulonglong v => some v | _ => none

instance : Typed Binary32 := .ofScalar .float .float fun | .float v => some v | _ => none

instance : Typed Binary64 := .ofScalar .double .double fun | .double v => some v | _ => none

instance : Typed Char := .ofScalar .char .char fun | .char c => some c | _ => none

instance : Typed WideChar :=
  .ofScalar .wchar (fun c => .wchar c.char) fun | .wchar c => some ⟨c⟩ | _ => none

instance : Typed String where
  desc := .string
  toPayload := .string
  ofPayload
    | .string text => .ok text
    | other => other.mismatch "string"

instance : Typed WideString where
  desc := .wstring
  toPayload s := .wstring s.text
  ofPayload
    | .wstring text => .ok ⟨text⟩
    | other => other.mismatch "wstring"

/-! ## References and dynamic values -/

instance : Typed ObjectRef where
  desc := .objectRef objectInterface
  toPayload := .objectRef
  ofPayload
    | .objectRef r => .ok r
    | other => other.mismatch "object reference"

instance : Typed Dynamic where
  desc := .any
  toPayload := Dynamic.toAny
  ofPayload
    | .any type value => .ok ⟨type, value⟩
    | other => other.mismatch "any"

/-! ## Into and out of dynamic values -/

namespace Dynamic

variable {α : Type} [Typed α]

/-- A value under the description of its type. -/
def ofTyped (a : α) : Dynamic := ⟨Typed.desc α, Typed.toPayload a⟩

/-- A value under another description that its type is assignable to, such as a `typedef` name. -/
def ofTypedAs (a : α) (type : TypeDesc) : Except Fault Dynamic :=
  if (Typed.desc α).assignableTo type then
    ofPayload type (Typed.toPayload a)
  else
    .error (.typeMismatch type.typeName (Typed.desc α).typeName)

/-- The content as a value of a type, which the description has to be assignable to. -/
def extract (α : Type) [Typed α] (x : Dynamic) : Except Fault α :=
  if x.type.assignableTo (Typed.desc α) then
    Typed.ofPayload x.payload
  else
    .error (.typeMismatch (Typed.desc α).typeName x.type.typeName)

end Dynamic

namespace Codec

/-- A message that consists of one value. -/
def encodeTyped {α : Type} [Typed α] (c : Codec) (a : α) : Except Fault (List UInt8) :=
  (c.value (.ofTyped a)).message

/-- The value a message starts with. -/
def decodeTyped (α : Type) [Typed α] (c : Codec) (message : List UInt8) : Except Fault α := do
  let x ← (c.readValue (Typed.desc α)).onMessage message
  x.extract α

end Codec

end ObjectBroker
