import ObjectBroker.Values.Conformance

/-!
# `ObjectBroker.Proofs.Values.Unions` — every union in a value

A payload holds unions at any depth: under the members of a struct, behind a marker, inside an
`any` under the description carried there. What is said of one union, of its branch table and the
discriminant it holds, is said here of all of them, along the same walk that conformance takes.
-/

namespace ObjectBroker.Payload

mutual
/-- Whether every union in the payload has a property, said of its branch table and the discriminant
    it holds. -/
def everyUnion (p : UnionType → Int64 → Bool) (enclosing : List TypeDesc) (t : TypeDesc) :
    Payload → Bool
  | .sequence elements =>
    match t.shape? enclosing with
    | some (.sequence element _) => everyUnionOfAll p enclosing element elements
    | _ => true
  | .array elements =>
    match t.shape? enclosing with
    | some (.array element _) => everyUnionOfAll p enclosing element elements
    | _ => true
  | .struct fields =>
    match t.shape? enclosing with
    | some (.struct name members) =>
      everyUnionOfMembers p (.struct name members :: enclosing) members fields
    | _ => true
  | .union discriminant value =>
    match t.shape? enclosing with
    | some (.union name type branches) =>
      p ⟨name, type, branches⟩ discriminant &&
        match UnionType.selected? ⟨name, type, branches⟩ discriminant with
        | some b => everyUnion p (.union name type branches :: enclosing) b.type value
        | none => true
    | _ => true
  | .any type value => everyUnion p [] type value
  | .null | .scalar _ | .string _ | .wstring _ | .enum _ | .objectRef _ => true
/-- Whether every union in the fields has the property, each field under its member. -/
def everyUnionOfMembers (p : UnionType → Int64 → Bool) (enclosing : List TypeDesc) :
    List (Member TypeDesc) → List Payload → Bool
  | m :: ms, f :: fs => everyUnion p enclosing m.type f && everyUnionOfMembers p enclosing ms fs
  | _, _ => true
/-- Whether every union in the payloads has the property. -/
def everyUnionOfAll (p : UnionType → Int64 → Bool) (enclosing : List TypeDesc) (t : TypeDesc) :
    List Payload → Bool
  | [] => true
  | v :: vs => everyUnion p enclosing t v && everyUnionOfAll p enclosing t vs
end

variable {p : UnionType → Int64 → Bool} {enclosing : List TypeDesc} {t : TypeDesc}

theorem everyUnionOfAll_eq_all (vs : List Payload) :
    everyUnionOfAll p enclosing t vs = vs.all (everyUnion p enclosing t) := by
  induction vs with
  | nil => rfl
  | cons v vs ih => simp [everyUnionOfAll, ih]

theorem everyUnionOfMembers_eq_all (ms : List (Member TypeDesc)) (fs : List Payload) :
    everyUnionOfMembers p enclosing ms fs
      = (ms.zip fs).all fun (m, f) => everyUnion p enclosing m.type f := by
  induction ms generalizing fs with
  | nil => cases fs <;> rfl
  | cons m ms ih =>
    cases fs with
    | nil => rfl
    | cons f fs => simp [everyUnionOfMembers, ih]

/-! ## Composite payloads -/

theorem everyUnion_sequence {element : TypeDesc} {bound : Option UInt32} {elements : List Payload}
    (ht : t.resolve = .sequence element bound) :
    (Payload.sequence elements).everyUnion p enclosing t = true ↔
      ∀ v ∈ elements, v.everyUnion p enclosing element = true := by
  simp only [everyUnion, TypeDesc.shape?, ht, everyUnionOfAll_eq_all, List.all_eq_true]

theorem everyUnion_array {element : TypeDesc} {length : UInt32} {elements : List Payload}
    (ht : t.resolve = .array element length) :
    (Payload.array elements).everyUnion p enclosing t = true ↔
      ∀ v ∈ elements, v.everyUnion p enclosing element = true := by
  simp only [everyUnion, TypeDesc.shape?, ht, everyUnionOfAll_eq_all, List.all_eq_true]

theorem everyUnion_struct {name : String} {members : List (Member TypeDesc)}
    {fields : List Payload} (ht : t.resolve = .struct name members) :
    (Payload.struct fields).everyUnion p enclosing t = true ↔
      ∀ q ∈ members.zip fields,
        q.2.everyUnion p (.struct name members :: enclosing) q.1.type = true := by
  simp only [everyUnion, TypeDesc.shape?, ht, everyUnionOfMembers_eq_all, List.all_eq_true]

/-- In a union whose discriminant selects a branch, the rest is in the value under that branch. -/
theorem everyUnion_union {name : String} {type : TypeDesc} {branches : List (Branch TypeDesc)}
    {d : Int64} {b : Branch TypeDesc} {value : Payload} (ht : t.resolve = .union name type branches)
    (hb : UnionType.selected? ⟨name, type, branches⟩ d = some b) :
    (Payload.union d value).everyUnion p enclosing t = true ↔
      p ⟨name, type, branches⟩ d = true ∧
        value.everyUnion p (.union name type branches :: enclosing) b.type = true := by
  simp only [everyUnion, TypeDesc.shape?, ht, hb, Bool.and_eq_true]

theorem everyUnion_congr {t' : TypeDesc} (h : t.shape? enclosing = t'.shape? enclosing)
    (v : Payload) : v.everyUnion p enclosing t = v.everyUnion p enclosing t' := by
  cases v <;> simp only [everyUnion, h]

/-- What follows for one union from two properties of it follows for all unions. -/
theorem everyUnion_of_both {q r : UnionType → Int64 → Bool}
    (himp : ∀ u d, p u d = true → q u d = true → r u d = true) {v : Payload}
    (hp : v.everyUnion p enclosing t = true) (hq : v.everyUnion q enclosing t = true) :
    v.everyUnion r enclosing t = true := by
  induction v generalizing enclosing t with
  | sequence elements ih =>
    unfold everyUnion at hp hq ⊢
    split
    · rename_i hshape
      simp only [hshape, everyUnionOfAll_eq_all, List.all_eq_true] at hp hq ⊢
      exact fun v hv => ih v hv (hp v hv) (hq v hv)
    · rfl
  | array elements ih =>
    unfold everyUnion at hp hq ⊢
    split
    · rename_i hshape
      simp only [hshape, everyUnionOfAll_eq_all, List.all_eq_true] at hp hq ⊢
      exact fun v hv => ih v hv (hp v hv) (hq v hv)
    · rfl
  | struct fields ih =>
    unfold everyUnion at hp hq ⊢
    split
    · rename_i hshape
      simp only [hshape, everyUnionOfMembers_eq_all, List.all_eq_true] at hp hq ⊢
      exact fun f hf => ih f.2 (List.of_mem_zip hf).2 (hp f hf) (hq f hf)
    · rfl
  | union d value ih =>
    unfold everyUnion at hp hq ⊢
    split
    · rename_i hshape
      simp only [hshape, Bool.and_eq_true] at hp hq ⊢
      refine ⟨himp _ _ hp.1 hq.1, ?_⟩
      split
      · rename_i hb
        simp only [hb] at hp hq
        exact ih hp.2 hq.2
      · rfl
    · rfl
  | any type value ih => exact ih hp hq
  | _ => rfl

end ObjectBroker.Payload
