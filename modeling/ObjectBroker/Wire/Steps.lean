import ObjectBroker.Wire.Stream

/-!
# `ObjectBroker.Wire.Steps` — writing in steps, and taking them back

A composite value is written in many steps, and any of them can fail when others have already
written their part. The steps themselves take nothing back. They are attempted together: where one
fails, the message is cut back to where they started.

A number, a character or a text is one step. It is checked before any of it is written.
-/

namespace ObjectBroker

/-- Steps that append to a message. What one step wrote is still there when a later one fails. -/
abbrev Steps := EStateM Fault Writer Unit

/-- One piece, written in one step. -/
def Emit.write (e : Emit) : Steps := fun w =>
  match w.put e with
  | (.ok (), w') => .ok () w'
  | (.error f, w') => .error f w'

/-- The steps for the items of a list, in order. -/
def Steps.each {α : Type} (steps : α → Steps) : List α → Steps
  | [] => pure ()
  | a :: as => do
    steps a
    each steps as

/-- Takes the steps and, if one of them fails, cuts the message back to where they started. -/
def Writer.attempt (w : Writer) (steps : Steps) : Except Fault Unit × Writer :=
  match steps w with
  | .ok () w' => (.ok (), w')
  | .error f w' => (.error f, w'.truncate w.position)

end ObjectBroker
