import ObjectBroker.Wire.Format

/-!
# `ObjectBroker.Fault` — every way an operation can fail

A fault is a cause, not a text. The eleven kinds are what a caller can act on; the inner types name
the rule that was broken. `Fault.kind` names the kind, and `Fault.message` is the one place where a cause
becomes words.
-/

namespace ObjectBroker

/-- Lower-case hexadecimal digits of a number behind the usual `0x` mark. -/
def hexadecimal (n : Nat) : String :=
  "0x" ++ String.ofList (Nat.toDigits 16 n)

/-! ## Causes -/

/-- Why received encoding parameters cannot be used on a connection. -/
inductive EncodingConflict where
  | unknownOrder (flag : UInt8)
  | unsupportedWidth (width : UInt8)
  | orders (peer session : ByteOrder)
  | widths (peer session : WideWidth)
deriving DecidableEq

/-- Why well framed octets, or a value to be written, hold no legal value. -/
inductive DataFault where
  | notLatin1 (character : Char)
  | notSingleUnit (character : Char)
  | stringTooLong (length : Nat)
  | lengthTooLong (length : Nat)
  | boolean (octet : UInt8)
  | wideCharacter (unit : UInt32)
  | terminator (octet : UInt8)
  | loneSurrogate
  | utf32Unit (unit : UInt32)
  | typeCodeKind (kind : UInt32)
  | noEnumerator (enumeration : String) (ordinal : UInt32)
  | memberCount (struct : String) (declared held : Nat)
  | arrayLength (declared : UInt32) (held : Nat)
  | discriminantCharacter (discriminant : Int64)
  | messageType (id : UInt8)
  | replyStatus (id : UInt32)
  | fixedLength (held expected : Nat)
  | recordEnumerator (record : String) (ordinal : UInt32)
deriving DecidableEq

/-- The first point on which two branch tables disagree. -/
inductive TableDifference where
  | name (other : String)
  | discriminant
  | defaultPresence
  | branchCount (mine theirs : Nat)
  | labels (branch : String)
  | branchType (branch : String)
deriving DecidableEq

/-- Why a type descriptor is malformed. -/
inductive DescriptorFault where
  | undiscriminable (union typeName : String)
  | noBranch (union : String)
  | unlabelled (union branch : String)
  | labelOutOfRange (union : String) (label : Int64)
  | labelTwice (union : String) (label : Int64)
  | manyDefaults (union : String) (count : Nat)
  | unreachableDefault (union : String)
  | tablesDiffer (union : String) (difference : TableDifference)
  | memberTwice (struct member : String)
  | containsItself (struct member : String)
  | zeroBound
  | noEnumerators (enumeration : String)
  | illegalDiscriminant (typeName : String)
  | danglingMarker (name : String)
deriving DecidableEq

/-- Why an operation was refused although its data is in order. -/
inductive Refusal where
  | noMember (struct member : String)
  | noBranchNamed (union branch : String)
  | noFreeDiscriminant (union : String)
  | noDiscriminant
  | zeroDepth
  | idsExhausted
  | nilReference
  | unregistered (id : UInt32)
  | unboundName (name : String)
deriving DecidableEq

/-- The ways an operation can fail. -/
inductive Fault where
  /-- The type found is not assignable to the one expected. -/
  | typeMismatch (expected found : String)
  /-- A sequence holds or announces more elements than its bound allows. -/
  | boundViolation (bound : UInt32) (length : Nat)
  /-- The input ends before the value is complete. -/
  | unexpectedEnd (needed remaining : Nat)
  /-- The discriminant selects no branch. -/
  | unknownDiscriminant (discriminant : Int64)
  /-- A value is nested deeper than the limit. -/
  | depthExceeded (limit : Nat)
  /-- The peer's encoding parameters are not those of the session. -/
  | encodingMismatch (cause : EncodingConflict)
  /-- The connection closed, or cannot be written to. -/
  | connectionLost
  /-- The octets hold no legal value, or a value has no octets. -/
  | invalidData (cause : DataFault)
  /-- A type descriptor is malformed. -/
  | invalidDescriptor (cause : DescriptorFault)
  /-- The reference is bound to another connection than the one it was used on. -/
  | foreignConnection
  /-- The operation is not possible in the present state. -/
  | preconditionNotMet (cause : Refusal)
deriving DecidableEq

/-! ## Wording -/

/-- Wording of a conflict between encoding parameters. -/
def EncodingConflict.message : EncodingConflict → String
  | .unknownOrder flag => s!"unknown byte order flag {flag.toNat}"
  | .unsupportedWidth width => s!"unsupported wide character width {width.toNat}"
  | .orders peer session =>
    s!"byte order {peer.name} does not match session byte order {session.name}"
  | .widths peer session =>
    s!"wide character width {peer.octets} does not match session width {session.octets}"

/-- Wording of a fault in the data. -/
def DataFault.message : DataFault → String
  | .notLatin1 character => s!"character '{character}' is not representable in Latin-1"
  | .notSingleUnit character =>
    s!"wide character '{character}' does not fit a single 2-byte code unit"
  | .stringTooLong length => s!"string too long. String size {length}, maximum 4294967295"
  | .lengthTooLong length => s!"length {length} does not fit the 4-byte length prefix"
  | .boolean octet => s!"invalid bool encoding. Value {octet.toNat}"
  | .wideCharacter unit =>
    "invalid wide character code unit " ++ hexadecimal unit.toNat
  | .terminator octet =>
    "string terminator is " ++ hexadecimal octet.toNat ++ " instead of 0"
  | .loneSurrogate => "invalid UTF-16 wstring: invalid utf-16: lone surrogate found"
  | .utf32Unit unit => "invalid UTF-32 code unit " ++ hexadecimal unit.toNat
  | .typeCodeKind kind => s!"unknown type code kind {kind.toNat}"
  | .noEnumerator enumeration ordinal =>
    s!"enum {enumeration} has no enumerator {ordinal.toNat}"
  | .memberCount struct declared held =>
    s!"struct {struct} has {declared} members but the value holds {held}"
  | .arrayLength declared held => s!"array of length {declared.toNat} holds {held} elements"
  | .discriminantCharacter discriminant =>
    s!"discriminant {discriminant.toInt} is not a character"
  | .messageType id => s!"unknown message type {id.toNat}"
  | .replyStatus id => s!"unknown reply status {id.toNat}"
  | .fixedLength held expected => s!"array holds {held} elements instead of {expected}"
  | .recordEnumerator record ordinal => s!"{record} has no enumerator {ordinal.toNat}"

/-- Wording of a difference between two branch tables. -/
def TableDifference.message : TableDifference → String
  | .name other => s!"other union is named {other}"
  | .discriminant => "discriminant types differ"
  | .defaultPresence => "only one side declares a default branch"
  | .branchCount mine theirs => s!"{mine} branches against {theirs}"
  | .labels branch => s!"labels of branch {branch} differ"
  | .branchType branch => s!"type of branch {branch} differs"

/-- Wording of a fault in a type descriptor. -/
def DescriptorFault.message : DescriptorFault → String
  | .undiscriminable union typeName => s!"union {union} cannot be discriminated by {typeName}"
  | .noBranch union => s!"union {union} declares no branch"
  | .unlabelled union branch => s!"branch {branch} of union {union} has no label"
  | .labelOutOfRange union label =>
    s!"label {label.toInt} of union {union} is outside the discriminant range"
  | .labelTwice union label => s!"label {label.toInt} appears twice in union {union}"
  | .manyDefaults union count => s!"union {union} declares {count} default branches"
  | .unreachableDefault union =>
    s!"default branch of union {union} is unreachable, every discriminant is labelled"
  | .tablesDiffer union difference =>
    s!"union {union} branch tables differ: " ++ difference.message
  | .memberTwice struct member => s!"member {member} appears twice in struct {struct}"
  | .containsItself struct member =>
    s!"struct {struct} contains itself directly through member {member}"
  | .zeroBound => "a sequence bound must be greater than 0"
  | .noEnumerators enumeration => s!"enum {enumeration} has no enumerator"
  | .illegalDiscriminant typeName => s!"{typeName} cannot discriminate a union"
  | .danglingMarker name => s!"recursive reference to {name} outside of {name}"

/-- Wording of a refusal. -/
def Refusal.message : Refusal → String
  | .noMember struct member => s!"struct {struct} has no member {member}"
  | .noBranchNamed union branch => s!"union {union} has no branch {branch}"
  | .noFreeDiscriminant union => s!"default branch of union {union} has no free discriminant"
  | .noDiscriminant => "union has no discriminant set"
  | .zeroDepth => "maximum nesting depth must be greater than 0"
  | .idsExhausted => "request identifiers exhausted"
  | .nilReference => "a nil reference cannot be invoked"
  | .unregistered id => s!"request {id.toNat} was unregistered"
  | .unboundName name => s!"no object bound to {name}"

/-- Name of the kind of a fault. -/
def Fault.kind : Fault → String
  | .typeMismatch _ _ => "TypeMismatch"
  | .boundViolation _ _ => "BoundViolation"
  | .unexpectedEnd _ _ => "UnexpectedEnd"
  | .unknownDiscriminant _ => "UnknownDiscriminant"
  | .depthExceeded _ => "DepthExceeded"
  | .encodingMismatch _ => "EncodingMismatch"
  | .connectionLost => "ConnectionLost"
  | .invalidData _ => "InvalidData"
  | .invalidDescriptor _ => "InvalidDescriptor"
  | .foreignConnection => "ForeignConnection"
  | .preconditionNotMet _ => "PreconditionNotMet"

/-- Wording of a fault. -/
def Fault.message : Fault → String
  | .typeMismatch expected found => s!"type mismatch: expected {expected}, found {found}"
  | .boundViolation bound length =>
    s!"sequence of length {length} exceeds bound {bound.toNat}"
  | .unexpectedEnd needed remaining =>
    s!"unexpected end of input: needed {needed} bytes, {remaining} remaining"
  | .unknownDiscriminant discriminant =>
    s!"discriminant {discriminant.toInt} selects no union branch"
  | .depthExceeded limit => s!"value nesting exceeds the maximum depth of {limit}"
  | .encodingMismatch cause => "encoding mismatch: " ++ cause.message
  | .connectionLost => "connection lost"
  | .invalidData cause => "invalid data: " ++ cause.message
  | .invalidDescriptor cause => "invalid type descriptor: " ++ cause.message
  | .foreignConnection => "reference is bound to a different connection"
  | .preconditionNotMet cause => "precondition not met: " ++ cause.message

/-! ## Sequences -/

/-- Two operations in sequence succeed exactly if the first does, and the second on its result. -/
theorem Except.bind_eq_ok_iff {ε α β : Type} {x : Except ε α} {k : α → Except ε β} {b : β} :
    x >>= k = .ok b ↔ ∃ a, x = .ok a ∧ k a = .ok b := by
  constructor
  · intro h
    cases x with
    | error e => cases h
    | ok a => exact ⟨a, rfl, h⟩
  · rintro ⟨a, rfl, h⟩
    exact h

end ObjectBroker
