import ObjectBroker.Fault

/-!
# `ObjectBroker.Wire.Negotiation` — reading the peer's encoding parameters

The parameters of a received message are read from two octets and compared with the session's. Any
disagreement is an `encodingMismatch`, which is fatal for the connection it arrived on.
-/

namespace ObjectBroker

/-- The byte order a flag octet stands for. -/
def ByteOrder.ofFlag : UInt8 → Except Fault ByteOrder
  | 0 => .ok .bigEndian
  | 1 => .ok .littleEndian
  | flag => .error (.encodingMismatch (.unknownOrder flag))

/-- The code unit size a width octet stands for. -/
def WideWidth.ofOctets : UInt8 → Except Fault WideWidth
  | 2 => .ok .two
  | 4 => .ok .four
  | width => .error (.encodingMismatch (.unsupportedWidth width))

/-- Accepts a peer whose parameters are those of the session; the byte order is compared first. -/
def Settings.ensureMatches (session peer : Settings) : Except Fault Unit :=
  if session.order ≠ peer.order then
    .error (.encodingMismatch (.orders peer.order session.order))
  else if session.wide ≠ peer.wide then
    .error (.encodingMismatch (.widths peer.wide session.wide))
  else
    .ok ()

@[simp] theorem ByteOrder.ofFlag_flag (order : ByteOrder) :
    ByteOrder.ofFlag order.flag = .ok order := by
  cases order <;> rfl

theorem Settings.ensureMatches_eq_ok_iff {session peer : Settings} :
    session.ensureMatches peer = .ok () ↔ peer = session := by
  cases session with
  | mk order wide =>
    cases peer with
    | mk order' wide' =>
      unfold Settings.ensureMatches
      by_cases ho : order = order' <;> by_cases hw : wide = wide' <;>
        simp_all [eq_comm]

end ObjectBroker
