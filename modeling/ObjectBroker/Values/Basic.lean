import ObjectBroker.Reference
import ObjectBroker.Types.Basic
import ObjectBroker.Values.Ieee

/-!
# `ObjectBroker.Values.Basic` — the content of dynamic values

A `Payload` is a value without its description: members by position, alternatives by discriminant,
enumerators by ordinal. Only a value of type `any` carries a description inside. A `Dynamic` pairs
a payload with the description it is meant to have.
-/

namespace ObjectBroker

/-! ## Payloads -/

/-- One number, truth value or character. -/
inductive ScalarValue where
  | octet (v : UInt8)
  | boolean (v : Bool)
  | short (v : Int16)
  | ushort (v : UInt16)
  | long (v : Int32)
  | ulong (v : UInt32)
  | longlong (v : Int64)
  | ulonglong (v : UInt64)
  | float (v : Binary32)
  | double (v : Binary64)
  | char (v : Char)
  | wchar (v : Char)
deriving DecidableEq

/-- The scalar type of a value. -/
def ScalarValue.kind : ScalarValue → Scalar
  | .octet _ => .octet
  | .boolean _ => .boolean
  | .short _ => .short
  | .ushort _ => .ushort
  | .long _ => .long
  | .ulong _ => .ulong
  | .longlong _ => .longlong
  | .ulonglong _ => .ulonglong
  | .float _ => .float
  | .double _ => .double
  | .char _ => .char
  | .wchar _ => .wchar

/-- The zero of each scalar type. -/
def Scalar.zero : Scalar → ScalarValue
  | .octet => .octet 0
  | .boolean => .boolean false
  | .short => .short 0
  | .ushort => .ushort 0
  | .long => .long 0
  | .ulong => .ulong 0
  | .longlong => .longlong 0
  | .ulonglong => .ulonglong 0
  | .float => .float ⟨0⟩
  | .double => .double ⟨0⟩
  | .char => .char '\x00'
  | .wchar => .wchar '\x00'

@[simp] theorem Scalar.kind_zero (k : Scalar) : k.zero.kind = k := by
  cases k <;> rfl

/-- The content of a value, without its description. -/
inductive Payload where
  | null
  | scalar (v : ScalarValue)
  | string (text : String)
  | wstring (text : String)
  /-- An enumerator, by its ordinal. -/
  | enum (ordinal : UInt32)
  | sequence (elements : List Payload)
  | array (elements : List Payload)
  /-- Member values in order of declaration. -/
  | struct (fields : List Payload)
  | union (discriminant : Int64) (value : Payload)
  | objectRef (reference : ObjectRef)
  /-- A value together with its own description. -/
  | any (type : TypeDesc) (value : Payload)
deriving Inhabited

namespace Payload

/-- Induction over payloads, with one hypothesis for each element or field. -/
@[elab_as_elim, induction_eliminator]
theorem induct {motive : Payload → Prop}
    (null : motive .null)
    (scalar : ∀ v, motive (.scalar v))
    (string : ∀ text, motive (.string text))
    (wstring : ∀ text, motive (.wstring text))
    (enum : ∀ ordinal, motive (.enum ordinal))
    (sequence : ∀ elements, (∀ e ∈ elements, motive e) → motive (.sequence elements))
    (array : ∀ elements, (∀ e ∈ elements, motive e) → motive (.array elements))
    (struct : ∀ fields, (∀ f ∈ fields, motive f) → motive (.struct fields))
    (union : ∀ discriminant value, motive value → motive (.union discriminant value))
    (objectRef : ∀ reference, motive (.objectRef reference))
    (any : ∀ type value, motive value → motive (.any type value))
    (p : Payload) : motive p :=
  @Payload.rec motive (fun ps => ∀ p ∈ ps, motive p)
    null scalar string wstring enum sequence array struct union objectRef any
    (by simp) (fun _ _ hp hps => by simpa using ⟨hp, hps⟩) p

/-- How reports call a payload. -/
def kindName : Payload → String
  | .null => "null"
  | .scalar v => v.kind.name
  | .string _ => "string"
  | .wstring _ => "wstring"
  | .enum _ => "enum"
  | .sequence _ => "sequence"
  | .array _ => "array"
  | .struct _ => "struct"
  | .union _ _ => "union"
  | .objectRef _ => "object reference"
  | .any _ _ => "any"

mutual
/-- Whether a reference to some object occurs anywhere in the payload. -/
def hasReference : Payload → Bool
  | .objectRef reference => !reference.isNil
  | .sequence ps | .array ps | .struct ps => anyHasReference ps
  | .union _ value => value.hasReference
  | .any _ value => value.hasReference
  | .null | .scalar _ | .string _ | .wstring _ | .enum _ => false
/-- Whether a reference to some object occurs in one of the payloads. -/
def anyHasReference : List Payload → Bool
  | [] => false
  | p :: ps => p.hasReference || anyHasReference ps
end

theorem anyHasReference_eq_any (ps : List Payload) :
    anyHasReference ps = ps.any hasReference := by
  induction ps with
  | nil => rfl
  | cons p ps ih => simp [anyHasReference, ih]

end Payload

/-! ## Dynamic values -/

/-- A payload together with a description. -/
structure Dynamic where
  type : TypeDesc := .null
  payload : Payload := .null
deriving Inhabited

namespace Dynamic

/-- The value without content; its type is the null type. -/
def empty : Dynamic := {}

/-- Whether the value has no content. -/
def isEmpty (x : Dynamic) : Bool := x.type = .null

/-- The value as the content of an `any`. -/
def toAny (x : Dynamic) : Payload := .any x.type x.payload

/-- A value of type `any` that holds this one. -/
def wrap (x : Dynamic) : Dynamic := ⟨.any, x.toAny⟩

end Dynamic

end ObjectBroker
