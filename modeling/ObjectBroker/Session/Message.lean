import ObjectBroker.Codec.Decode
import ObjectBroker.Codec.Encode
import ObjectBroker.Wire.Negotiation

/-!
# `ObjectBroker.Session.Message` — requests, replies and closing

Every message starts with four octets: the byte order, the wide character width, the kind of
message, and a zero. A request names an object and an operation, a reply names the request it
answers, and the values follow. The values are decoded later, once their types are known, from the
whole message, since their alignment counts from its start.
-/

namespace ObjectBroker

/-! ## The parts of a message -/

/-- What a message is. -/
inductive MessageKind where
  | request
  | reply
  | closing
deriving DecidableEq

/-- The octet of a kind of message. -/
def MessageKind.id : MessageKind → UInt8
  | .request => 0
  | .reply => 1
  | .closing => 5

/-- The kind of message an octet stands for. -/
def MessageKind.ofId : UInt8 → Except Fault MessageKind
  | 0 => .ok .request
  | 1 => .ok .reply
  | 5 => .ok .closing
  | id => .error (.invalidData (.messageType id))

/-- How a request ended. -/
inductive ReplyStatus where
  | noException
  | userException
  | systemException
deriving DecidableEq

/-- The number of a reply status. -/
def ReplyStatus.id : ReplyStatus → UInt32
  | .noException => 0
  | .userException => 1
  | .systemException => 2

/-- The reply status a number stands for. -/
def ReplyStatus.ofId : UInt32 → Except Fault ReplyStatus
  | 0 => .ok .noException
  | 1 => .ok .userException
  | 2 => .ok .systemException
  | id => .error (.invalidData (.replyStatus id))

/-- What a request asks for. -/
structure RequestHeader where
  id : UInt32
  responseExpected : Bool
  key : List UInt8
  operation : String
deriving DecidableEq

/-- What a reply answers, and how. -/
structure ReplyHeader where
  id : UInt32
  status : ReplyStatus
deriving DecidableEq

/-- The values of a message: the whole message, and where the values start. -/
structure MessageBody where
  message : List UInt8
  offset : Nat
deriving DecidableEq

/-- A received message. -/
inductive Message where
  | request (header : RequestHeader) (body : MessageBody)
  | reply (header : ReplyHeader) (body : MessageBody)
  | closing
deriving DecidableEq

@[simp] theorem MessageKind.ofId_id (k : MessageKind) : MessageKind.ofId k.id = .ok k := by
  cases k <;> rfl

@[simp] theorem ReplyStatus.ofId_id (status : ReplyStatus) :
    ReplyStatus.ofId status.id = .ok status := by
  cases status <;> rfl

/-! ## Writing -/

/-- The four octets a message starts with. -/
def preamble (s : Settings) (kind : MessageKind) : Emit :=
  .octets [s.order.flag, s.wide.octets.toUInt8, kind.id, 0]

namespace Codec

/-- Values one after the other. -/
def values (c : Codec) (xs : List Dynamic) : Emit := .concat (xs.map c.value)

/-- A request with its arguments. -/
def request (c : Codec) (header : RequestHeader) (arguments : List Dynamic) : Emit :=
  preamble c.settings .request ++ .ulong c.settings header.id ++
    .boolean header.responseExpected ++ .octetSequence c.settings header.key ++
    .string c.settings header.operation ++ c.values arguments

/-- A reply with its results. -/
def reply (c : Codec) (header : ReplyHeader) (results : List Dynamic) : Emit :=
  preamble c.settings .reply ++ .ulong c.settings header.id ++
    .ulong c.settings header.status.id ++ c.values results

/-- The message that announces the end of a connection. -/
def closing (s : Settings) : List UInt8 :=
  [s.order.flag, s.wide.octets.toUInt8, MessageKind.closing.id, 0]

end Codec

/-! ## Reading -/

namespace Message

/-- The header of a request. -/
def readRequest (s : Settings) : Read RequestHeader := do
  let id ← Read.ulong s
  let responseExpected ← Read.boolean
  let key ← Read.octetSequence s
  let operation ← Read.string s
  return ⟨id, responseExpected, key, operation⟩

/-- The header of a reply. -/
def readReply (s : Settings) : Read ReplyHeader := do
  let id ← Read.ulong s
  let status ← Read.ulong s
  match ReplyStatus.ofId status with
  | .ok status => return ⟨id, status⟩
  | .error f => throw f

/-- A message of a known kind, given a cursor behind the preamble. -/
def parseRest (s : Settings) (message : List UInt8) (c : Cursor) :
    MessageKind → Except Fault Message
  | .request =>
    match readRequest s c with
    | .ok header c' => .ok (.request header ⟨message, c'.position⟩)
    | .error f _ => .error f
  | .reply =>
    match readReply s c with
    | .ok header c' => .ok (.reply header ⟨message, c'.position⟩)
    | .error f _ => .error f
  | .closing => .ok .closing

/-- A received message, under the parameters of the session. Parameters that are not the session's
    are an `encodingMismatch`, whatever follows them. -/
def parse (s : Settings) (message : List UInt8) : Except Fault Message := do
  match message with
  | flag :: width :: kind :: _ :: rest =>
    let order ← ByteOrder.ofFlag flag
    let wide ← WideWidth.ofOctets width
    s.ensureMatches ⟨order, wide⟩
    let kind ← MessageKind.ofId kind
    parseRest s message ⟨4, rest⟩ kind
  | _ => .error (.unexpectedEnd 4 message.length)

end Message

namespace MessageBody

/-- The values of the given types, in order. -/
def decode (b : MessageBody) (c : Codec) (types : List TypeDesc) :
    Except Fault (List Dynamic) := do
  let (started, reader) := (Reader.ofOctets b.message).seek b.offset
  started
  (reader.run (Read.each c.readValue types)).1

/-- Whether no values follow the header. -/
def isEmpty (b : MessageBody) : Bool := b.offset == b.message.length

end MessageBody

end ObjectBroker
