import ObjectBroker.Text.Latin1
import ObjectBroker.Text.Utf16
import ObjectBroker.Values.Basic
import ObjectBroker.Wire.Octets

/-!
# `ObjectBroker.Wire.Emit` — what a write appends

An `Emit` is a piece of output: told at which offset of the message it starts, it gives the octets
it appends or the fault it ends with. Earlier octets are out of its reach, so a piece that fails
leaves nothing behind, and pieces are put one after the other with `++`.
-/

namespace ObjectBroker

/-- Octets to append at a given offset of the message, or the fault of not having any. -/
def Emit := Nat → Except Fault (List UInt8)

namespace Emit

/-! ## Putting pieces together -/

/-- Appends nothing. -/
def nothing : Emit := fun _ => .ok []

/-- Ends with a fault. -/
def fail (f : Fault) : Emit := fun _ => .error f

/-- Appends the same octets at every offset. -/
def octets (content : List UInt8) : Emit := fun _ => .ok content

/-- The second piece after the first, at the offset where the first ends. -/
protected def append (a b : Emit) : Emit := fun position =>
  match a position with
  | .error f => .error f
  | .ok front =>
    match b (position + front.length) with
    | .error f => .error f
    | .ok back => .ok (front ++ back)

instance : Append Emit := ⟨Emit.append⟩

/-- The pieces of a list in order. -/
def concat : List Emit → Emit
  | [] => nothing
  | e :: es => e ++ concat es

/-- The octets of a message that consists of this piece alone. -/
def message (e : Emit) : Except Fault (List UInt8) := e 0

/-- The piece made from a result, or the fault in its place. -/
def ofExcept {α : Type} (r : Except Fault α) (piece : α → Emit) : Emit :=
  match r with
  | .ok a => piece a
  | .error f => fail f

theorem append_apply (a b : Emit) (position : Nat) :
    (a ++ b) position =
      match a position with
      | .error f => .error f
      | .ok front =>
        match b (position + front.length) with
        | .error f => .error f
        | .ok back => .ok (front ++ back) := rfl

theorem append_eq_ok_iff {a b : Emit} {position : Nat} {content : List UInt8} :
    (a ++ b) position = .ok content ↔
      ∃ front back, a position = .ok front ∧ b (position + front.length) = .ok back ∧
        content = front ++ back := by
  rw [append_apply]
  cases ha : a position with
  | error f => simp
  | ok front => cases hb : b (position + front.length) <;> simp [hb, eq_comm]

@[simp] theorem nothing_append (e : Emit) : nothing ++ e = e := by
  funext position
  rw [append_apply]
  simp only [nothing, List.length_nil, Nat.add_zero]
  cases e position <;> simp

@[simp] theorem append_nothing (e : Emit) : e ++ nothing = e := by
  funext position
  rw [append_apply]
  cases e position <;> simp [nothing]

theorem append_assoc (a b c : Emit) : a ++ b ++ c = a ++ (b ++ c) := by
  funext position
  simp only [append_apply]
  cases ha : a position with
  | error f => rfl
  | ok front =>
    cases hb : b (position + front.length) with
    | error f => simp [hb]
    | ok middle =>
      simp only [hb, List.length_append, Nat.add_assoc]
      cases c (position + (front.length + middle.length)) <;> simp

/-! ## Numbers -/

/-- Zero octets up to the next multiple of `alignment`. -/
def pad (alignment : Nat) : Emit := fun position =>
  .ok (List.replicate (padding position alignment) 0)

/-- A number of `width` octets at a multiple of its width. -/
def word (s : Settings) (width value : Nat) : Emit :=
  pad width ++ octets (s.order.arrange (littleEndian width value))

/-- One octet. -/
def octet (v : UInt8) : Emit := octets [v]

/-- A truth value, as the octet 1 or 0. -/
def boolean (v : Bool) : Emit := octet (if v then 1 else 0)

/-- An unsigned 32-bit number. -/
def ulong (s : Settings) (v : UInt32) : Emit := word s 4 v.toNat

/-- A signed 64-bit number. -/
def longlong (s : Settings) (v : Int64) : Emit := word s 8 v.toUInt64.toNat

/-- A number of items, which has to fit 32 bits. -/
def count (s : Settings) (n : Nat) : Emit :=
  if n < UInt32.size then word s 4 n else fail (.invalidData (.lengthTooLong n))

/-- A narrow character, as its Latin-1 octet. -/
def char (c : Char) : Emit := ofExcept (Latin1.encode c) octet

/-- A wide character, as one code unit. -/
def wchar (s : Settings) (c : Char) : Emit :=
  match s.wide with
  | .two =>
    match Utf16.units c with
    | [unit] => word s 2 unit.toNat
    | _ => fail (.invalidData (.notSingleUnit c))
  | .four => word s 4 c.toNat

/-- A scalar value. -/
def scalar (s : Settings) : ScalarValue → Emit
  | .octet v => octet v
  | .boolean v => boolean v
  | .short v => word s 2 v.toUInt16.toNat
  | .ushort v => word s 2 v.toNat
  | .long v => word s 4 v.toUInt32.toNat
  | .ulong v => ulong s v
  | .longlong v => longlong s v
  | .ulonglong v => word s 8 v.toNat
  | .float v => word s 4 v.bits.toNat
  | .double v => word s 8 v.bits.toNat
  | .char c => char c
  | .wchar c => wchar s c

/-! ## Texts and runs of octets -/

/-- A narrow string: the length with the terminator counted, the octets, and a zero. -/
def string (s : Settings) (text : String) : Emit :=
  ofExcept (Latin1.encodeAll text) fun content =>
    if content.length + 1 < UInt32.size then
      word s 4 (content.length + 1) ++ octets (content ++ [0])
    else
      fail (.invalidData (.stringTooLong (content.length + 1)))

/-- A wide string: the number of code units and the code units, without terminator. -/
def wstring (s : Settings) (text : String) : Emit :=
  match s.wide with
  | .two =>
    let units := Utf16.encodeAll text
    count s units.length ++ concat (units.map fun unit => word s 2 unit.toNat)
  | .four =>
    count s text.toList.length ++ concat (text.toList.map fun c => word s 4 c.toNat)

/-- A run of octets behind its length. -/
def octetSequence (s : Settings) (content : List UInt8) : Emit :=
  count s content.length ++ octets content

end Emit

end ObjectBroker
