import ObjectBroker.Wire.Emit
import ObjectBroker.Wire.Read

/-!
# `ObjectBroker.Wire.Stream` — messages being written and read

A `Writer` holds the octets of a message written so far; a `Reader` holds a received message and a
place in it. Offsets, and with them alignment, count from the start of the message.
-/

namespace ObjectBroker

/-! ## Writing -/

/-- A message being written. -/
structure Writer where
  content : List UInt8 := []
deriving DecidableEq

namespace Writer

/-- Offset of the next octet. -/
def position (w : Writer) : Nat := w.content.length

/-- Appends a piece, or fails and leaves the message as it is. -/
def put (w : Writer) (e : Emit) : Except Fault Unit × Writer :=
  match e w.position with
  | .ok piece => (.ok (), ⟨w.content ++ piece⟩)
  | .error f => (.error f, w)

/-- Drops everything from an offset on; an offset past the end drops nothing. -/
def truncate (w : Writer) (position : Nat) : Writer := ⟨w.content.take position⟩

/-- A message grows by some octets exactly when they are what the piece appends there. -/
theorem put_eq_ok_iff {before written : List UInt8} {e : Emit} :
    (mk before).put e = (.ok (), ⟨before ++ written⟩) ↔ e before.length = .ok written := by
  unfold put position
  cases e before.length with
  | ok piece => simp
  | error f => simp

end Writer

/-! ## Reading -/

/-- A received message and a place in it. -/
structure Reader where
  message : List UInt8
  cursor : Cursor

namespace Reader

/-- The start of a received message. -/
def ofOctets (message : List UInt8) : Reader := ⟨message, .ofOctets message⟩

/-- Offset of the next octet. -/
def position (r : Reader) : Nat := r.cursor.position

/-- Number of octets left. -/
def remaining (r : Reader) : Nat := r.cursor.rest.length

/-- Consumes octets and moves to where the consumption ended. -/
def run {α : Type} (r : Reader) (action : Read α) : Except Fault α × Reader :=
  match action r.cursor with
  | .ok a cursor => (.ok a, { r with cursor := cursor })
  | .error f cursor => (.error f, { r with cursor := cursor })

/-- Moves to an offset of the message, which must not lie past its end. -/
def seek (r : Reader) (position : Nat) : Except Fault Unit × Reader :=
  if r.message.length < position then
    (.error (.unexpectedEnd (position - r.position) r.remaining), r)
  else
    (.ok (), { r with cursor := ⟨position, r.message.drop position⟩ })

/-- A reader of a message can be placed at the end of any front part of it. -/
theorem seek_append (front back : List UInt8) :
    (ofOctets (front ++ back)).seek front.length
      = (.ok (), ⟨front ++ back, ⟨front.length, back⟩⟩) := by
  have hinside : ¬(front ++ back).length < front.length := by
    rw [List.length_append]
    omega
  rw [seek, ofOctets, if_neg hinside, List.drop_left]

end Reader

/-- The value at the start of a message; what follows it is not looked at. -/
def Read.onMessage {α : Type} (action : Read α) (message : List UInt8) : Except Fault α :=
  ((Reader.ofOctets message).run action).1

end ObjectBroker
