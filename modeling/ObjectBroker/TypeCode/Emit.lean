import ObjectBroker.Digest.Md5
import ObjectBroker.TypeCode.Kind
import ObjectBroker.Wire.Emit

/-!
# `ObjectBroker.TypeCode.Emit` — descriptions written out

A type code is the kind number followed by the parameters of the kind: names, counts and the type
codes of the parts. Strings are always written as unbounded, and a bound of zero stands for none.
The fingerprint of a type is the digest of its big-endian type code.
-/

namespace ObjectBroker

namespace TypeCode

/-- The number of a kind. -/
def kind (s : Settings) (k : Kind) : Emit := .ulong s k.id

/-- A branch label: whether it is the default, then its discriminant or zero. -/
def label (s : Settings) : Label → Emit
  | .value d => .boolean false ++ .longlong s d
  | .default => .boolean true ++ .longlong s 0

/-- The labels of a branch behind their number. -/
def labels (s : Settings) (ls : List Label) : Emit :=
  .count s ls.length ++ .concat (ls.map (label s))

end TypeCode

namespace TypeDesc

mutual
/-- The type code of a description. -/
def code (s : Settings) : TypeDesc → Emit
  | .null => TypeCode.kind s .null
  | .scalar kind => TypeCode.kind s (.scalar kind)
  | .string => TypeCode.kind s .string ++ .ulong s 0
  | .wstring => TypeCode.kind s .wstring ++ .ulong s 0
  | .any => TypeCode.kind s .any
  | .objectRef interface => TypeCode.kind s .objectRef ++ .string s interface
  | .struct name members =>
    TypeCode.kind s .struct ++ .string s name ++ .count s members.length ++ codeMembers s members
  | .union name discriminant branches =>
    TypeCode.kind s .union ++ .string s name ++ code s discriminant ++ .count s branches.length ++
      codeBranches s branches
  | .enum name enumerators =>
    TypeCode.kind s .enum ++ .string s name ++ .count s enumerators.length ++
      .concat (enumerators.map (.string s))
  | .sequence element bound =>
    TypeCode.kind s .sequence ++ code s element ++ .ulong s (bound.getD 0)
  | .array element length => TypeCode.kind s .array ++ code s element ++ .ulong s length
  | .typedef name underlying => TypeCode.kind s .typedef ++ .string s name ++ code s underlying
  | .recursive name => TypeCode.kind s .recursive ++ .string s name
/-- The members of a struct, each as its name and type code. -/
def codeMembers (s : Settings) : List (Member TypeDesc) → Emit
  | [] => .nothing
  | m :: ms => .string s m.name ++ code s m.type ++ codeMembers s ms
/-- The branches of a union, each as its labels, name and type code. -/
def codeBranches (s : Settings) : List (Branch TypeDesc) → Emit
  | [] => .nothing
  | b :: bs => TypeCode.labels s b.labels ++ .string s b.name ++ code s b.type ++ codeBranches s bs
end

/-- The digest of the type code. Descriptions made from the same definition have the same one. -/
def fingerprint (t : TypeDesc) : Except Fault (List UInt8) :=
  (Emit.message (t.code { order := .bigEndian })).map Md5.digest

end TypeDesc

end ObjectBroker
