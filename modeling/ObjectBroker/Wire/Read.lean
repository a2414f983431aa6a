import ObjectBroker.Text.Latin1
import ObjectBroker.Text.Utf16
import ObjectBroker.Values.Basic
import ObjectBroker.Wire.Octets

/-!
# `ObjectBroker.Wire.Read` — taking values off the front of a message

A `Read` consumes octets from a cursor. It fails with the cursor where the failure was met: a piece
that does not fit is not consumed, while padding, lengths and rejected values before it stay
consumed. Padding is skipped without a look at its content.
-/

namespace ObjectBroker

/-- A place in a message: its offset, and the octets from there on. -/
structure Cursor where
  position : Nat
  rest : List UInt8
deriving DecidableEq

/-- The start of a message. -/
def Cursor.ofOctets (message : List UInt8) : Cursor := ⟨0, message⟩

/-- A computation that consumes octets. -/
abbrev Read := EStateM Fault Cursor

namespace Read

/-! ## Pieces -/

/-- The next `n` octets, if there are that many. -/
def take (n : Nat) : Read (List UInt8) := fun c =>
  match takeExactly n c.rest with
  | some (front, back) => .ok front ⟨c.position + n, back⟩
  | none => .error (.unexpectedEnd n c.rest.length) c

theorem take_append (position : Nat) (front back : List UInt8) :
    take front.length ⟨position, front ++ back⟩ =
      .ok front ⟨position + front.length, back⟩ := by
  simp [take, takeExactly_append]

/-- The number of octets left. -/
def remaining : Read Nat := fun c => .ok c.rest.length c

/-- Requires `n` octets to be left, without consuming them. -/
def require (n : Nat) : Read Unit := fun c =>
  if n ≤ c.rest.length then .ok () c else .error (.unexpectedEnd n c.rest.length) c

/-- Fails because the data is not legal. -/
def reject {α : Type} (cause : DataFault) : Read α := throw (.invalidData cause)

/-- The same read, `n` times over. -/
def times {α : Type} : Nat → Read α → Read (List α)
  | 0, _ => pure []
  | n + 1, r => do
    let first ← r
    let others ← times n r
    return first :: others

/-- The reads of a list in order. -/
def each {α β : Type} (r : α → Read β) : List α → Read (List β)
  | [] => pure []
  | a :: as => do
    let first ← r a
    let others ← each r as
    return first :: others

/-! ## Numbers -/

/-- Skips to the next multiple of `alignment`. -/
def align (alignment : Nat) : Read Unit := fun c =>
  match take (padding c.position alignment) c with
  | .ok _ c' => .ok () c'
  | .error f c' => .error f c'

/-- A number of `width` octets at a multiple of its width. -/
def word (s : Settings) (width : Nat) : Read Nat := do
  align width
  let content ← take width
  return ofLittleEndian (s.order.arrange content)

/-- One octet. -/
def octet : Read UInt8 := do
  let content ← take 1
  return UInt8.ofNat (ofLittleEndian content)

/-- A truth value; only the octets 0 and 1 are legal. -/
def boolean : Read Bool := do
  match ← octet with
  | 0 => return false
  | 1 => return true
  | v => reject (.boolean v)

/-- An unsigned 32-bit number. -/
def ulong (s : Settings) : Read UInt32 := do
  return UInt32.ofNat (← word s 4)

/-- A signed 64-bit number. -/
def longlong (s : Settings) : Read Int64 := do
  return (UInt64.ofNat (← word s 8)).toInt64

/-- A narrow character; every octet is one. -/
def char : Read Char := do
  return Latin1.decode (← octet)

/-- A wide character; a surrogate on its own is none. -/
def wchar (s : Settings) : Read Char := do
  let unit := UInt32.ofNat (← word s s.wide.octets)
  match charOfUnit? unit with
  | some c => return c
  | none => reject (.wideCharacter unit)

/-- A value of a scalar type. -/
def scalar (s : Settings) : Scalar → Read ScalarValue
  | .octet => return .octet (← octet)
  | .boolean => return .boolean (← boolean)
  | .short => return .short (UInt16.ofNat (← word s 2)).toInt16
  | .ushort => return .ushort (UInt16.ofNat (← word s 2))
  | .long => return .long (UInt32.ofNat (← word s 4)).toInt32
  | .ulong => return .ulong (← ulong s)
  | .longlong => return .longlong (← longlong s)
  | .ulonglong => return .ulonglong (UInt64.ofNat (← word s 8))
  | .float => return .float ⟨UInt32.ofNat (← word s 4)⟩
  | .double => return .double ⟨UInt64.ofNat (← word s 8)⟩
  | .char => return .char (← char)
  | .wchar => return .wchar (← wchar s)

/-- A number of items of at least one octet each; more than there are octets left is refused. -/
def boundedCount (s : Settings) : Read Nat := do
  let n ← word s 4
  require n
  return n

/-! ## Texts and runs of octets -/

/-- A narrow string. The length counts the terminator; a length of zero stands for the empty
    string, which some peers write without one. -/
def string (s : Settings) : Read String := do
  let length ← word s 4
  if length = 0 then
    return ""
  let content ← take length
  match content.getLast? with
  | some 0 | none => return Latin1.decodeAll content.dropLast
  | some octet => reject (.terminator octet)

/-- A UTF-32 code unit that is a character. -/
def utf32 (s : Settings) : Read Char := do
  let unit ← ulong s
  match charOfUnit? unit with
  | some c => return c
  | none => reject (.utf32Unit unit)

/-- A wide string. The code units have to be there before the first is read. -/
def wstring (s : Settings) : Read String := do
  let length ← word s 4
  require (length * s.wide.octets)
  match s.wide with
  | .two =>
    let units ← times length (do return UInt16.ofNat (← word s 2))
    match Utf16.decodeAll? units with
    | some text => return String.ofList text
    | none => reject .loneSurrogate
  | .four => return String.ofList (← times length (utf32 s))

/-- A run of octets behind its length. -/
def octetSequence (s : Settings) : Read (List UInt8) := do
  take (← word s 4)

end Read

end ObjectBroker
