/-!
# `ObjectBroker.Wire.Format` — what two peers agree on

The two parameters that shape every octet of a connection. They are negotiated once, travel in the
preamble of each message, and never change afterwards.
-/

namespace ObjectBroker

/-- Order of the octets of every multi-octet primitive. -/
inductive ByteOrder where
  | bigEndian
  | littleEndian
deriving DecidableEq

/-- Octet that stands for the byte order in a message preamble. -/
def ByteOrder.flag : ByteOrder → UInt8
  | .bigEndian => 0
  | .littleEndian => 1

/-- Spelling of the byte order in a report. -/
def ByteOrder.name : ByteOrder → String
  | .bigEndian => "BigEndian"
  | .littleEndian => "LittleEndian"

/-- Size of one wide character code unit: UTF-16 units or UTF-32 units. -/
inductive WideWidth where
  | two
  | four
deriving DecidableEq

/-- Number of octets in one wide character code unit. -/
def WideWidth.octets : WideWidth → Nat
  | .two => 2
  | .four => 4

/-- The encoding parameters both ends of a connection must share. -/
structure Settings where
  order : ByteOrder := .littleEndian
  wide : WideWidth := .two
deriving DecidableEq

end ObjectBroker
