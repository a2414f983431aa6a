import ObjectBroker.TypeCode.Emit
import ObjectBroker.Wire.Steps

/-!
# `ObjectBroker.TypeCode.Write` — descriptions written in steps

The type code of a description as it gets into a message: kind numbers, names and counts one by one,
and the type codes of the parts in between. A name that cannot be written ends a type code half-way.
-/

namespace ObjectBroker

namespace TypeCode

/-- The labels of a branch behind their number. -/
def writeLabels (s : Settings) (ls : List Label) : Steps := do
  (Emit.count s ls.length).write
  Steps.each (fun l => (label s l).write) ls

end TypeCode

namespace TypeDesc

mutual
/-- The type code of a description, in steps. -/
def writeCode (s : Settings) : TypeDesc → Steps
  | .null => (TypeCode.kind s .null).write
  | .scalar kind => (TypeCode.kind s (.scalar kind)).write
  | .string => do
    (TypeCode.kind s .string).write
    (Emit.ulong s 0).write
  | .wstring => do
    (TypeCode.kind s .wstring).write
    (Emit.ulong s 0).write
  | .any => (TypeCode.kind s .any).write
  | .objectRef interface => do
    (TypeCode.kind s .objectRef).write
    (Emit.string s interface).write
  | .struct name members => do
    (TypeCode.kind s .struct).write
    (Emit.string s name).write
    (Emit.count s members.length).write
    writeMembers s members
  | .union name discriminant branches => do
    (TypeCode.kind s .union).write
    (Emit.string s name).write
    writeCode s discriminant
    (Emit.count s branches.length).write
    writeBranches s branches
  | .enum name enumerators => do
    (TypeCode.kind s .enum).write
    (Emit.string s name).write
    (Emit.count s enumerators.length).write
    Steps.each (fun e => (Emit.string s e).write) enumerators
  | .sequence element bound => do
    (TypeCode.kind s .sequence).write
    writeCode s element
    (Emit.ulong s (bound.getD 0)).write
  | .array element length => do
    (TypeCode.kind s .array).write
    writeCode s element
    (Emit.ulong s length).write
  | .typedef name underlying => do
    (TypeCode.kind s .typedef).write
    (Emit.string s name).write
    writeCode s underlying
  | .recursive name => do
    (TypeCode.kind s .recursive).write
    (Emit.string s name).write
/-- The members of a struct, each as its name and type code. -/
def writeMembers (s : Settings) : List (Member TypeDesc) → Steps
  | [] => pure ()
  | m :: ms => do
    (Emit.string s m.name).write
    writeCode s m.type
    writeMembers s ms
/-- The branches of a union, each as its labels, name and type code. -/
def writeBranches (s : Settings) : List (Branch TypeDesc) → Steps
  | [] => pure ()
  | b :: bs => do
    TypeCode.writeLabels s b.labels
    (Emit.string s b.name).write
    writeCode s b.type
    writeBranches s bs
end

end TypeDesc

end ObjectBroker
