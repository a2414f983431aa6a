import ObjectBroker.TypeCode.Kind
import ObjectBroker.Types.Checked
import ObjectBroker.Wire.Read

/-!
# `ObjectBroker.TypeCode.Read` — descriptions read back

A type code comes from a peer and is not trusted: nesting is limited, a count of parts may not
exceed the octets left, every node passes the checks of a description, and a marker has to name a
struct or union that encloses it.
-/

namespace ObjectBroker.TypeCode

/-- The outcome of a check as a step of a read. -/
def checked {α : Type} (r : Except Fault α) : Read α :=
  match r with
  | .ok a => pure a
  | .error f => throw f

/-- A branch label; the discriminant written with a default label is ignored. -/
def readLabel (s : Settings) : Read Label := do
  let isDefault ← Read.boolean
  let d ← Read.longlong s
  return if isDefault then .default else .value d

/-- A member, given how to read its type. -/
def readMember (s : Settings) (part : Read TypeDesc) : Read (Member TypeDesc) := do
  let name ← Read.string s
  return ⟨name, ← part⟩

/-- A branch, given how to read its type. -/
def readBranch (s : Settings) (part : Read TypeDesc) : Read (Branch TypeDesc) := do
  let labelCount ← Read.boundedCount s
  let labels ← Read.times labelCount (readLabel s)
  let name ← Read.string s
  return ⟨labels, name, ← part⟩

/-- One node of a type code, given how to read its parts inside named enclosing types. -/
def readNode (s : Settings) (part : List String → Read TypeDesc) (enclosing : List String) :
    Read TypeDesc := do
  let id ← Read.ulong s
  match Kind.ofId? id with
  | none => Read.reject (.typeCodeKind id)
  | some .null => return .null
  | some (.scalar kind) => return .scalar kind
  | some .any => return .any
  | some .string =>
    let _ ← Read.ulong s
    return .string
  | some .wstring =>
    let _ ← Read.ulong s
    return .wstring
  | some .objectRef => return .objectRef (← Read.string s)
  | some .struct =>
    let name ← Read.string s
    let count ← Read.boundedCount s
    let members ← Read.times count (readMember s (part (name :: enclosing)))
    checked (TypeDesc.struct name members).describe
  | some .union =>
    let name ← Read.string s
    let discriminant ← part (name :: enclosing)
    let count ← Read.boundedCount s
    let branches ← Read.times count (readBranch s (part (name :: enclosing)))
    checked (TypeDesc.union name discriminant branches).describe
  | some .enum =>
    let name ← Read.string s
    let count ← Read.boundedCount s
    let enumerators ← Read.times count (Read.string s)
    checked (TypeDesc.enum name enumerators).describe
  | some .sequence =>
    let element ← part enclosing
    let bound ← Read.ulong s
    return TypeDesc.sequenceOf element (some bound)
  | some .array =>
    let element ← part enclosing
    return .array element (← Read.ulong s)
  | some .typedef =>
    let name ← Read.string s
    return .typedef name (← part enclosing)
  | some .recursive =>
    let name ← Read.string s
    if enclosing.contains name then
      return .recursive name
    else
      throw (.invalidDescriptor (.danglingMarker name))

/-- A type code of at most `levels` levels; a deeper one exceeds the depth `limit`. -/
def readLevels (s : Settings) (limit : Nat) : (levels : Nat) → List String → Read TypeDesc
  | 0, _ => throw (.depthExceeded limit)
  | levels + 1, enclosing => readNode s (readLevels s limit levels) enclosing

/-- A type code in which no node lies more than `maxDepth` levels below the outermost. -/
def read (s : Settings) (maxDepth : Nat) : Read TypeDesc :=
  readLevels s maxDepth (maxDepth + 1) []

end ObjectBroker.TypeCode
