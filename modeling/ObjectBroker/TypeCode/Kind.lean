import ObjectBroker.Types.Basic

/-!
# `ObjectBroker.TypeCode.Kind` — the kinds of type codes and their numbers

A type code starts with a 32-bit kind number. The numbers are those that brokers share, so peers
recognise each other's type codes; the numbers left out stand for kinds no description has.
-/

namespace ObjectBroker

/-- Kind number of a scalar type. -/
def Scalar.kindId : Scalar → UInt32
  | .short => 2
  | .long => 3
  | .ushort => 4
  | .ulong => 5
  | .float => 6
  | .double => 7
  | .boolean => 8
  | .char => 9
  | .octet => 10
  | .longlong => 23
  | .ulonglong => 24
  | .wchar => 26

namespace TypeCode

/-- What a type code describes, without its parameters. -/
inductive Kind where
  | null
  | scalar (kind : Scalar)
  | any
  | objectRef
  | struct
  | union
  | enum
  | string
  | sequence
  | array
  | typedef
  | wstring
  | recursive
deriving DecidableEq

/-- The number of a kind. -/
def Kind.id : Kind → UInt32
  | .null => 0
  | .scalar kind => kind.kindId
  | .any => 11
  | .objectRef => 14
  | .struct => 15
  | .union => 16
  | .enum => 17
  | .string => 18
  | .sequence => 19
  | .array => 20
  | .typedef => 21
  | .wstring => 27
  | .recursive => 0xFFFFFFFF

/-- Every kind, once. -/
def Kind.all : List Kind :=
  [.null, .any, .objectRef, .struct, .union, .enum, .string, .sequence, .array, .typedef, .wstring,
    .recursive, .scalar .octet, .scalar .boolean, .scalar .short, .scalar .ushort, .scalar .long,
    .scalar .ulong, .scalar .longlong, .scalar .ulonglong, .scalar .float, .scalar .double,
    .scalar .char, .scalar .wchar]

/-- The kind with a number, if there is one. -/
def Kind.ofId? (id : UInt32) : Option Kind :=
  Kind.all.find? (·.id == id)

/-- The number of a kind is the number of no other. -/
@[simp] theorem Kind.ofId?_id (k : Kind) : Kind.ofId? k.id = some k := by
  cases k with
  | scalar kind => cases kind <;> rfl
  | _ => rfl

end TypeCode

end ObjectBroker
