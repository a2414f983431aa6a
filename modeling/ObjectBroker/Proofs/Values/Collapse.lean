import ObjectBroker.Proofs.Types.Collapse
import ObjectBroker.Values.Conformance

/-!
# `ObjectBroker.Proofs.Values.Collapse` — values and `typedef` names

A payload is checked against its type node by node, and at each node the `typedef` names are looked
through. The enclosing types that markers stand for are structs and unions as such. So on the way
down a type and down its collapsed form the same shapes are met, one of them collapsed, and a payload
cannot tell the two apart.
-/

namespace ObjectBroker

/-- None of the types is a `typedef` name. -/
def NoTypedefs (enclosing : List TypeDesc) : Prop := ∀ t ∈ enclosing, t.resolve = t

namespace NoTypedefs

variable {enclosing : List TypeDesc}

theorem nil : NoTypedefs [] := fun _ h => nomatch h

theorem struct (h : NoTypedefs enclosing) (struct : StructType) :
    NoTypedefs (struct.desc :: enclosing) :=
  List.forall_mem_cons.2 ⟨rfl, h⟩

theorem union (h : NoTypedefs enclosing) (union : UnionType) :
    NoTypedefs (union.desc :: enclosing) :=
  List.forall_mem_cons.2 ⟨rfl, h⟩

/-- Only `typedef` names lose their name when they are collapsed. -/
theorem name?_collapse (h : NoTypedefs enclosing) :
    ∀ t ∈ enclosing, t.collapse.name? = t.name? := by
  intro t ht
  have hresolved := h t ht
  cases t with
  | typedef name underlying => exact absurd hresolved (underlying.resolve_ne_typedef _ _)
  | _ => rfl

end NoTypedefs

namespace TypeDesc

variable {enclosing : List TypeDesc}

/-- What a type amounts to inside such types is not a `typedef` name either. -/
theorem shape?_ne_typedef (h : NoTypedefs enclosing) {t underlying : TypeDesc} {name : String} :
    t.shape? enclosing ≠ some (.typedef name underlying) := by
  intro hs
  unfold shape? at hs
  split at hs
  · have hresolved := h _ (List.mem_of_find?_eq_some hs)
    exact underlying.resolve_ne_typedef _ _ hresolved
  · exact t.resolve_ne_typedef _ _ (Option.some.inj hs)

/-- **Shapes.** Inside collapsed types, a collapsed type amounts to the collapsed shape. -/
theorem shape?_collapse (h : NoTypedefs enclosing) (t : TypeDesc) :
    t.collapse.shape? (enclosing.map collapse) = (t.shape? enclosing).map collapse := by
  unfold shape?
  rw [resolve_collapse]
  cases hresolve : t.resolve with
  | typedef name underlying => exact absurd hresolve (t.resolve_ne_typedef _ _)
  | recursive name => exact enclosing?_map_collapse name h.name?_collapse
  | _ => rfl

end TypeDesc

namespace Payload

variable {enclosing : List TypeDesc}

open TypeDesc (shape?_collapse shape?_ne_typedef)

/-- Elements conform to another type if each of them does. -/
theorem conformsAll_congr {enclosing' : List TypeDesc} {t t' : TypeDesc} {ps : List Payload}
    (h : ∀ p ∈ ps, p.conforms enclosing' t' = p.conforms enclosing t) :
    conformsAll enclosing' t' ps = conformsAll enclosing t ps := by
  induction ps with
  | nil => rfl
  | cons p ps ih =>
    have hothers := ih fun q hq => h q (List.mem_cons_of_mem p hq)
    rw [conformsAll, conformsAll, h p List.mem_cons_self, hothers]

/-- Fields conform to collapsed members if each of them does to any collapsed type. -/
theorem conformsMembers_collapse {enclosing' : List TypeDesc} (ms : List (Member TypeDesc))
    {fs : List Payload}
    (h : ∀ p ∈ fs, ∀ t : TypeDesc, p.conforms enclosing' t.collapse = p.conforms enclosing t) :
    conformsMembers enclosing' (TypeDesc.collapseMembers ms) fs
      = conformsMembers enclosing ms fs := by
  induction ms generalizing fs with
  | nil => cases fs <;> rfl
  | cons m ms ih =>
    cases fs with
    | nil => rfl
    | cons p ps =>
      have hothers := ih fun q hq => h q (List.mem_cons_of_mem p hq)
      rw [TypeDesc.collapseMembers, conformsMembers, conformsMembers, h p List.mem_cons_self,
        hothers]

/-- **Conformance.** A payload conforms to a collapsed type if and only if it conforms to the type. -/
theorem conforms_collapse (h : NoTypedefs enclosing) (t : TypeDesc) (p : Payload) :
    p.conforms (enclosing.map .collapse) t.collapse = p.conforms enclosing t := by
  induction p generalizing enclosing t with
  | sequence elements ih | array elements ih =>
    have helements := fun element => conformsAll_congr fun p hp => ih p hp h element
    simp only [conforms, shape?_collapse h]
    cases hs : t.shape? enclosing with
    | none => rfl
    | some s =>
      cases s with
      | typedef name underlying => exact absurd hs (shape?_ne_typedef h)
      | sequence element bound => simp only [Option.map, TypeDesc.collapse, helements]
      | array element length => simp only [Option.map, TypeDesc.collapse, helements]
      | _ => rfl
  | struct fields ih =>
    simp only [conforms, shape?_collapse h]
    cases hs : t.shape? enclosing with
    | none => rfl
    | some s =>
      cases s with
      | typedef name underlying => exact absurd hs (shape?_ne_typedef h)
      | struct name members =>
        exact conformsMembers_collapse members fun f hf => ih f hf (h.struct ⟨name, members⟩)
      | _ => rfl
  | union d value ih =>
    simp only [conforms, shape?_collapse h]
    cases hs : t.shape? enclosing with
    | none => rfl
    | some s =>
      cases s with
      | typedef name underlying => exact absurd hs (shape?_ne_typedef h)
      | union name discriminant branches =>
        have hselected := UnionType.selected?_collapse ⟨name, discriminant, branches⟩ d
        rw [UnionType.collapse] at hselected
        simp only [Option.map, TypeDesc.collapse, hselected]
        cases UnionType.selected? ⟨name, discriminant, branches⟩ d with
        | none => rfl
        | some b => exact ih (h.union ⟨name, discriminant, branches⟩) b.type
      | _ => rfl
  | _ =>
    simp only [conforms, shape?_collapse h]
    cases hs : t.shape? enclosing with
    | none => rfl
    | some s =>
      cases s with
      | typedef name underlying => exact absurd hs (shape?_ne_typedef h)
      | _ => rfl

end Payload

end ObjectBroker
