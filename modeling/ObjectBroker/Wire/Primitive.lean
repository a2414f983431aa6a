import ObjectBroker.Wire.Steps

/-!
# `ObjectBroker.Wire.Primitive` — the calls that write and read primitive values

A number, a character or a text is written in one call and read in one call. A call that writes takes
several steps: padding goes in front of a number, a narrow string consists of a length, octets and a
zero, and the code units of a wide string are written one by one. Nothing is taken back when a step
fails; all that can fail is checked before the first octet.
-/

namespace ObjectBroker

/-! ## Values and kinds -/

/-- A value that is written in one call: a number, a truth value, a character or a text. -/
inductive Primitive where
  | scalar (v : ScalarValue)
  | string (text : String)
  | wstring (text : String)
deriving DecidableEq

/-- What a read of one primitive value asks for. -/
inductive PrimitiveKind where
  | scalar (kind : Scalar)
  | string
  | wstring
deriving DecidableEq

/-- What has to be asked for to read the value. -/
def Primitive.kind : Primitive → PrimitiveKind
  | .scalar v => .scalar v.kind
  | .string _ => .string
  | .wstring _ => .wstring

/-- The payload as a primitive value, if it is one. -/
def Payload.primitive? : Payload → Option Primitive
  | .scalar v => some (.scalar v)
  | .string text => some (.string text)
  | .wstring text => some (.wstring text)
  | _ => none

/-- The kind of the values of a type, if they are primitive. -/
def TypeDesc.primitive? : TypeDesc → Option PrimitiveKind
  | .scalar kind => some (.scalar kind)
  | .string => some .string
  | .wstring => some .wstring
  | _ => none

/-! ## Writing -/

namespace Steps

/-- A number: its padding, then its octets. -/
def word (s : Settings) (width value : Nat) : Steps := do
  (Emit.pad width).write
  (Emit.octets (s.order.arrange (littleEndian width value))).write

/-- A number of items, unless it is too large. -/
def count (s : Settings) (n : Nat) : Steps :=
  if n < UInt32.size then word s 4 n else throw (.invalidData (.lengthTooLong n))

/-- A narrow character, unless it has no octet. -/
def char (c : Char) : Steps :=
  match Latin1.encode c with
  | .ok octet => (Emit.octet octet).write
  | .error f => throw f

/-- A wide character, unless it takes two code units where one is written. -/
def wchar (s : Settings) (c : Char) : Steps :=
  match s.wide with
  | .two =>
    match Utf16.units c with
    | [unit] => word s 2 unit.toNat
    | _ => throw (.invalidData (.notSingleUnit c))
  | .four => word s 4 c.toNat

/-- A scalar value. -/
def scalar (s : Settings) : ScalarValue → Steps
  | .octet v => (Emit.octet v).write
  | .boolean v => (Emit.boolean v).write
  | .short v => word s 2 v.toUInt16.toNat
  | .ushort v => word s 2 v.toNat
  | .long v => word s 4 v.toUInt32.toNat
  | .ulong v => word s 4 v.toNat
  | .longlong v => word s 8 v.toUInt64.toNat
  | .ulonglong v => word s 8 v.toNat
  | .float v => word s 4 v.bits.toNat
  | .double v => word s 8 v.bits.toNat
  | .char c => char c
  | .wchar c => wchar s c

/-- A narrow string: its octets are found, and their number checked, before the length is written. -/
def string (s : Settings) (text : String) : Steps :=
  match Latin1.encodeAll text with
  | .error f => throw f
  | .ok content =>
    if content.length + 1 < UInt32.size then do
      word s 4 (content.length + 1)
      (Emit.octets content).write
      (Emit.octets [0]).write
    else
      throw (.invalidData (.stringTooLong (content.length + 1)))

/-- A wide string: the number of its code units, and the units one by one. -/
def wstring (s : Settings) (text : String) : Steps :=
  match s.wide with
  | .two => do
    count s (Utf16.encodeAll text).length
    each (fun unit => word s 2 unit.toNat) (Utf16.encodeAll text)
  | .four => do
    count s text.toList.length
    each (fun c => word s 4 c.toNat) text.toList

end Steps

/-- The steps in which a primitive value is written. -/
def Primitive.steps (s : Settings) : Primitive → Steps
  | .scalar v => .scalar s v
  | .string text => .string s text
  | .wstring text => .wstring s text

/-- What the steps of the value append as a whole. -/
def Primitive.emit (s : Settings) : Primitive → Emit
  | .scalar v => .scalar s v
  | .string text => .string s text
  | .wstring text => .wstring s text

/-- Takes the steps. What was written before one of them fails is not taken back. -/
def Writer.perform (w : Writer) (steps : Steps) : Except Fault Unit × Writer :=
  match steps w with
  | .ok () w' => (.ok (), w')
  | .error f w' => (.error f, w')

/-- Writes a primitive value. -/
def Writer.write (s : Settings) (w : Writer) (p : Primitive) : Except Fault Unit × Writer :=
  w.perform (p.steps s)

/-! ## Reading -/

/-- The read of a value of this kind. -/
def PrimitiveKind.read (s : Settings) : PrimitiveKind → Read Primitive
  | .scalar kind => return .scalar (← Read.scalar s kind)
  | .string => return .string (← Read.string s)
  | .wstring => return .wstring (← Read.wstring s)

/-- Reads a primitive value. -/
def Reader.read (s : Settings) (r : Reader) (k : PrimitiveKind) : Except Fault Primitive × Reader :=
  r.run (k.read s)

end ObjectBroker
