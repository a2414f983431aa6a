import ObjectBroker.Values.Conformance

/-!
# `ObjectBroker.Proofs.Values.Simulation` — the same value along two types

A payload is walked along its type, and at each step down only the node that was found there counts.
So it can be walked along another type as well if the two walks find nodes that a payload cannot tell
apart, and go on to related parts. What relates the two is left open: it can be what comparisons by
name look at, or that one type was made from the other by putting a definition in place of markers.
-/

namespace ObjectBroker

namespace Payload

/-- Members conform one by one. -/
theorem conformsMembers_iff {enclosing : List TypeDesc} {ms : List (Member TypeDesc)}
    {fs : List Payload} :
    conformsMembers enclosing ms fs = true ↔ ms.length = fs.length ∧
      ∀ (i : Nat) (m : Member TypeDesc) (f : Payload),
        ms[i]? = some m → fs[i]? = some f → f.conforms enclosing m.type = true := by
  induction ms generalizing fs with
  | nil => cases fs <;> simp [conformsMembers]
  | cons m ms ih =>
    cases fs with
    | nil => simp [conformsMembers]
    | cons f fs =>
      rw [conformsMembers, Bool.and_eq_true, ih]
      constructor
      · rintro ⟨hfirst, hlength, hrest⟩
        refine ⟨congrArg (· + 1) hlength, ?_⟩
        intro i m' f' hm' hf'
        cases i with
        | zero =>
          obtain rfl : m = m' := Option.some.inj hm'
          obtain rfl : f = f' := Option.some.inj hf'
          exact hfirst
        | succ i => exact hrest i m' f' hm' hf'
      · rintro ⟨hlength, hall⟩
        refine ⟨hall 0 m f rfl rfl, Nat.succ.inj hlength, ?_⟩
        intro i m' f' hm' hf'
        exact hall (i + 1) m' f' hm' hf'

/-- Whether a walk ends at the payload. The content of an `any` is not walked. -/
def isLeaf : Payload → Bool
  | .sequence _ | .array _ | .struct _ | .union _ _ => false
  | _ => true

end Payload

/-- **Simulation.** Wherever two walks have come to related types, a leaf of the first type is one of
    the second, and a composite node of the first type is met by one of the second with related
    parts. The two stacks of enclosing types are part of the relation. -/
structure TypeDesc.Simulates
    (R : (enclosing enclosing' : List TypeDesc) → (t t' : TypeDesc) → Prop) : Prop where
  leaf : ∀ {enclosing enclosing' t t'} {p : Payload}, R enclosing enclosing' t t' →
    p.isLeaf = true → p.conforms enclosing t = true → p.conforms enclosing' t' = true
  sequence : ∀ {enclosing enclosing' t t' element bound}, R enclosing enclosing' t t' →
    t.shape? enclosing = some (.sequence element bound) →
    ∃ element' bound', t'.shape? enclosing' = some (.sequence element' bound') ∧
      R enclosing enclosing' element element'
  array : ∀ {enclosing enclosing' t t' element length}, R enclosing enclosing' t t' →
    t.shape? enclosing = some (.array element length) →
    ∃ element', t'.shape? enclosing' = some (.array element' length) ∧
      R enclosing enclosing' element element'
  struct : ∀ {enclosing enclosing' t t' name members}, R enclosing enclosing' t t' →
    t.shape? enclosing = some (.struct name members) →
    ∃ members', t'.shape? enclosing' = some (.struct name members') ∧
      members.length = members'.length ∧
      ∀ (i : Nat) (m' : Member TypeDesc), members'[i]? = some m' → ∃ m, members[i]? = some m ∧
        R (.struct name members :: enclosing) (.struct name members' :: enclosing') m.type m'.type
  union : ∀ {enclosing enclosing' t t' name discriminant branches d b},
    R enclosing enclosing' t t' →
    t.shape? enclosing = some (.union name discriminant branches) →
    UnionType.selected? ⟨name, discriminant, branches⟩ d = some b →
    ∃ discriminant' branches' b',
      t'.shape? enclosing' = some (.union name discriminant' branches') ∧
      UnionType.selected? ⟨name, discriminant', branches'⟩ d = some b' ∧
      R (.union name discriminant branches :: enclosing)
        (.union name discriminant' branches' :: enclosing') b.type b'.type

/-- **Values along two walks.** By induction on the payload: the relation is kept down to its
    leaves, and there it says that the leaf conforms. -/
theorem Payload.conforms_of_simulates
    {R : (enclosing enclosing' : List TypeDesc) → (t t' : TypeDesc) → Prop}
    (hR : TypeDesc.Simulates R) {enclosing enclosing' : List TypeDesc} {t t' : TypeDesc}
    {p : Payload} (hrelated : R enclosing enclosing' t t') (h : p.conforms enclosing t = true) :
    p.conforms enclosing' t' = true := by
  induction p generalizing enclosing enclosing' t t' with
  | sequence elements ih =>
    unfold conforms at h
    split at h
    · rename_i element bound hs
      obtain ⟨element', bound', hs', helement⟩ := hR.sequence hrelated hs
      simp only [conforms, hs', conformsAll_eq_all, List.all_eq_true] at h ⊢
      intro p hp
      exact ih p hp helement (h p hp)
    · cases h
  | array elements ih =>
    unfold conforms at h
    split at h
    · rename_i element length hs
      obtain ⟨element', hs', helement⟩ := hR.array hrelated hs
      simp only [conforms, hs', conformsAll_eq_all, Bool.and_eq_true, List.all_eq_true] at h ⊢
      refine ⟨h.1, ?_⟩
      intro p hp
      exact ih p hp helement (h.2 p hp)
    · cases h
  | struct fields ih =>
    unfold conforms at h
    split at h
    · rename_i name members hs
      obtain ⟨members', hs', hlength, hmembers⟩ := hR.struct hrelated hs
      simp only [conforms, hs', conformsMembers_iff] at h ⊢
      refine ⟨hlength.symm.trans h.1, ?_⟩
      intro i m' f hm' hf
      obtain ⟨m, hm, hmember⟩ := hmembers i m' hm'
      exact ih f (List.mem_of_getElem? hf) hmember (h.2 i m f hm hf)
    · cases h
  | union d value ih =>
    unfold conforms at h
    split at h
    · rename_i name discriminant branches hs
      split at h
      · rename_i b hb
        obtain ⟨discriminant', branches', b', hs', hb', hbranch⟩ := hR.union hrelated hs hb
        simp only [conforms, hs', hb']
        exact ih hbranch h
      · cases h
    · cases h
  | _ => exact hR.leaf hrelated rfl h

end ObjectBroker
