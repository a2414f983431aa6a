import ObjectBroker.Fault

/-!
# `ObjectBroker.Session.Channel` — the outgoing half of a connection

A channel writes one message at a time. A message under way occupies the channel until it is out,
has failed or is given up, and further messages wait their turn. While the channel is held nothing
gets out; while it is broken every attempt fails.
-/

namespace ObjectBroker

/-- The outgoing half of a connection, with the messages written to it in order. -/
structure Channel where
  held : Bool := false
  broken : Bool := false
  occupied : Bool := false
  sent : List (List UInt8) := []
deriving DecidableEq

/-- A message on its way out, and whether it occupies its channel. -/
structure Transmission where
  message : List UInt8
  occupies : Bool := false
deriving DecidableEq

/-- What an attempt to write a message came to. -/
inductive Attempt where
  | waits (t : Transmission)
  | written
  | failed (f : Fault)
deriving DecidableEq

namespace Channel

/-- Tries to get a message out. A message waits while another occupies the channel; one whose turn
    has come occupies the channel for as long as the channel is held. -/
def advance (ch : Channel) (t : Transmission) : Attempt × Channel :=
  if ch.occupied && !t.occupies then
    (.waits t, ch)
  else if ch.held then
    (.waits { t with occupies := true }, { ch with occupied := true })
  else if ch.broken then
    (.failed .connectionLost, { ch with occupied := false })
  else
    (.written, { ch with occupied := false, sent := ch.sent ++ [t.message] })

/-- Gives a message up that is not out yet. -/
def abandon (ch : Channel) (t : Transmission) : Channel :=
  if t.occupies then { ch with occupied := false } else ch

/-- Holds the channel, or lets it go. -/
def setHeld (ch : Channel) (on : Bool) : Channel := { ch with held := on }

/-- Breaks the channel, or mends it. -/
def setBroken (ch : Channel) (on : Bool) : Channel := { ch with broken := on }

end Channel

end ObjectBroker
