import ObjectBroker.Typed.Containers

/-!
# `ObjectBroker.Typed.Record` — records and enumerations as interface types

A record type with named fields maps to a struct, field by field, and an enumeration to an enum.
A `Layout` lists the fields once; the description and both directions of the mapping follow from
it, so they cannot disagree.
-/

namespace ObjectBroker

/-- The fields of a record: their members, and the mapping of each to a payload. -/
structure Layout (ρ : Type) where
  members : List (Member TypeDesc)
  toFields : ρ → List Payload
  /-- Maps the leading fields and ignores any further ones. -/
  ofFields : List Payload → Except Fault ρ

namespace Layout

/-- The layout without fields. -/
def empty : Layout Unit := ⟨[], fun _ => [], fun _ => .ok ()⟩

/-- A field before the fields of another layout. -/
def field {ρ : Type} (name : String) (α : Type) [Typed α] (rest : Layout ρ) : Layout (α × ρ) where
  members := ⟨name, Typed.desc α⟩ :: rest.members
  toFields := fun (a, r) => Typed.toPayload a :: rest.toFields r
  ofFields
    | p :: ps => do
      let a ← Typed.ofPayload p
      return (a, ← rest.ofFields ps)
    | [] => Payload.mismatch name .null

end Layout

/-- A payload as the fields of a record with so many members. -/
def Payload.fieldsOf (record : String) (count : Nat) : Payload → Except Fault (List Payload)
  | .struct fields =>
    if fields.length = count then .ok fields
    else
      .error (.typeMismatch s!"{record} with {count} members"
        ("struct with " ++ toString fields.length ++ " members"))
  | other => other.mismatch record

/-- The mapping of a record with a layout, given how the record splits into its fields. -/
@[reducible] def Typed.ofLayout {ρ σ : Type} (name : String) (layout : Layout σ) (split : ρ → σ)
    (join : σ → ρ) : Typed ρ where
  desc := .struct name layout.members
  toPayload r := .struct (layout.toFields (split r))
  ofPayload p := do
    let fields ← p.fieldsOf name layout.members.length
    return join (← layout.ofFields fields)

/-- The mapping of an enumeration, given its values in order of declaration with their names. -/
@[reducible] def Typed.ofEnumeration {ρ : Type} [BEq ρ] (name : String) (values : List (String × ρ)) :
    Typed ρ where
  desc := .enum name (values.map (·.1))
  toPayload r := .enum (UInt32.ofNat (values.findIdx fun v => v.2 == r))
  ofPayload
    | .enum ordinal =>
      match values[ordinal.toNat]? with
      | some (_, r) => .ok r
      | none => .error (.invalidData (.recordEnumerator name ordinal))
    | other => other.mismatch name

end ObjectBroker
