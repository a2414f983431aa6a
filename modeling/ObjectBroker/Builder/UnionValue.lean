import ObjectBroker.Codec.Decode
import ObjectBroker.Codec.Write
import ObjectBroker.Types.Assignable
import ObjectBroker.Values.Equality
import ObjectBroker.Values.Zero

/-!
# `ObjectBroker.Builder.UnionValue` — unions built one branch at a time

A `UnionValue` starts without a value. Once a discriminant is set, exactly one branch is active;
another discriminant of the same branch keeps its value, and a change of branch starts from the
zero value of the new one.
-/

namespace ObjectBroker

/-- The branch a union holds: its discriminant, its position and its value. -/
structure ActiveBranch where
  discriminant : Int64
  position : Nat
  value : Payload

/-- A union that holds one branch or none. -/
structure UnionValue where
  type : TypeDesc
  shape : UnionType
  active : Option ActiveBranch := none
  isUnion : type.union? = some shape

namespace UnionValue

/-- The union without a value. -/
def new (type : TypeDesc) : Except Fault UnionValue :=
  match h : type.union? with
  | some shape => .ok { type, shape, isUnion := h }
  | none => .error (.typeMismatch "union" type.typeName)

/-- The discriminant, once one is set. -/
def discriminant? (u : UnionValue) : Option Int64 := u.active.map (·.discriminant)

/-- The type of a branch as declared. -/
def branchType (u : UnionValue) (position : Nat) : TypeDesc :=
  (u.shape.branches[position]?.map (·.type)).getD .null

/-- The value held in a branch, if that branch is active. -/
def heldIn? (u : UnionValue) (position : Nat) : Option ActiveBranch :=
  u.active.filter (·.position == position)

/-- Selects the branch of a discriminant, which has to be in range. -/
def setDiscriminant (u : UnionValue) (d : Int64) : Except Fault UnionValue :=
  if !u.shape.inRange d then
    .error (.unknownDiscriminant d)
  else
    match u.shape.select? d with
    | none => .error (.unknownDiscriminant d)
    | some position =>
      let value := ((u.heldIn? position).map (·.value)).getD (u.branchType position).zero
      .ok { u with active := some ⟨d, position, value⟩ }

/-- The discriminant with which a branch is activated: the present one if the branch is active. -/
def discriminantFor (u : UnionValue) (position : Nat) (b : Branch TypeDesc) :
    Except Fault Int64 :=
  match u.heldIn? position with
  | some held => .ok held.discriminant
  | none =>
    match u.shape.activation? b with
    | some d => .ok d
    | none => .error (.preconditionNotMet (.noFreeDiscriminant u.shape.name))

/-- Activates the first branch of this name with a value that is assignable to its type. -/
def set (u : UnionValue) (name : String) (x : Dynamic) : Except Fault UnionValue :=
  match u.shape.branches.zipIdx.find? (·.1.name == name) with
  | none => .error (.preconditionNotMet (.noBranchNamed u.shape.name name))
  | some (b, position) =>
    if x.type.assignableTo b.type then do
      let d ← u.discriminantFor position b
      return { u with active := some ⟨d, position, x.payload⟩ }
    else
      .error (.typeMismatch b.type.typeName x.type.typeName)

/-! ## In place -/

/-- Steps on a union. What one step changed stays so when a later one fails. -/
abbrev InPlace := EStateM Fault UnionValue

/-- Takes the branch out that is held, if one is; the union holds nothing then. -/
def takeActive : InPlace (Option ActiveBranch) := fun u =>
  .ok u.active { u with active := none }

/-- Holds a branch from now on. -/
def activate (held : ActiveBranch) : InPlace Unit := fun u =>
  .ok () { u with active := some held }

/-- Selects the branch of a discriminant. The value held is taken out, and kept only if it is one of
    this branch. -/
def selectInPlace (d : Int64) : InPlace Unit := do
  let u ← get
  if !u.shape.inRange d then
    throw (.unknownDiscriminant d)
  else
    match u.shape.select? d with
    | none => throw (.unknownDiscriminant d)
    | some position =>
      let value := match (← takeActive).filter (·.position == position) with
        | some held => held.value
        | none => (u.branchType position).zero
      activate ⟨d, position, value⟩

/-- Activates the first branch of this name with a value that is assignable to its type. -/
def assignInPlace (name : String) (x : Dynamic) : InPlace Unit := do
  let u ← get
  match u.shape.branches.zipIdx.find? (·.1.name == name) with
  | none => throw (.preconditionNotMet (.noBranchNamed u.shape.name name))
  | some (b, position) =>
    if x.type.assignableTo b.type then
      let d ← MonadExcept.ofExcept (u.discriminantFor position b)
      activate ⟨d, position, x.payload⟩
    else
      throw (.typeMismatch b.type.typeName x.type.typeName)

end UnionValue

/-- A call that changes a union. -/
inductive UnionCall where
  | setDiscriminant (d : Int64)
  | set (name : String) (x : Dynamic)

/-- The steps of a call. -/
def UnionCall.steps : UnionCall → UnionValue.InPlace Unit
  | .setDiscriminant d => UnionValue.selectInPlace d
  | .set name x => UnionValue.assignInPlace name x

namespace UnionValue

/-- What a call answers, and the union as the call leaves it, whether it fails or not. -/
def call (u : UnionValue) (c : UnionCall) : Except Fault Unit × UnionValue :=
  match c.steps u with
  | .ok () u' => (.ok (), u')
  | .error f u' => (.error f, u')

/-- The union after some calls, any of which may have failed. -/
def after (u : UnionValue) (calls : List UnionCall) : UnionValue :=
  calls.foldl (fun u c => (u.call c).2) u

/-! ## As values -/

/-- Name and a copy of the value of the active branch. Markers of the union in its type are
    replaced by the union itself, so that the copy stands on its own. -/
def active? (u : UnionValue) : Option (String × Dynamic) := do
  let held ← u.active
  let b ← u.shape.branches[held.position]?
  return (b.name, ⟨b.type.substitute u.shape.name u.shape.desc, held.value⟩)

/-- The union as a dynamic value, once a discriminant is set. -/
def toDynamic (u : UnionValue) : Except Fault Dynamic :=
  match u.active with
  | some held => .ok ⟨u.type, .union held.discriminant held.value⟩
  | none => .error (.preconditionNotMet .noDiscriminant)

/-- A dynamic value as a union; the discriminant has to select a branch. -/
def ofDynamic (x : Dynamic) : Except Fault UnionValue := do
  let empty ← new x.type
  match x.payload with
  | .union d value =>
    match empty.shape.select? d with
    | some position => return { empty with active := some ⟨d, position, value⟩ }
    | none => .error (.unknownDiscriminant d)
  | other => .error (.typeMismatch "union" other.kindName)

/-- Equality of unions: the same type, discriminant, branch and value, or no value at all. -/
def same (a b : UnionValue) : Bool :=
  a.type == b.type &&
    match a.active, b.active with
    | none, none => true
    | some x, some y =>
      x.discriminant == y.discriminant && x.position == y.position && x.value.same y.value
    | _, _ => false

end UnionValue

namespace Codec

/-- A union with a discriminant, without its type. The union itself is no nesting level. -/
def unionValue (c : Codec) (u : UnionValue) : Emit :=
  match u.active with
  | some held =>
    Encode.alternative c.settings (c.encode c.maxDepth) [] u.shape held.discriminant held.value
  | none => .fail (.preconditionNotMet .noDiscriminant)

/-- Writes a union into a message. Without a discriminant there is nothing to attempt. -/
def writeUnion (c : Codec) (u : UnionValue) (w : Writer) : Except Fault Unit × Writer :=
  match u.active with
  | some held =>
    w.attempt (Write.alternative c.settings (c.write c.maxDepth) [] u.shape held.discriminant
      held.value)
  | none => (.error (.preconditionNotMet .noDiscriminant), w)

/-- A union of a known type. -/
def readUnion (c : Codec) (type : TypeDesc) : Read UnionValue := do
  TypeCode.checked (UnionValue.ofDynamic (← c.readValue type))

end Codec

end ObjectBroker
