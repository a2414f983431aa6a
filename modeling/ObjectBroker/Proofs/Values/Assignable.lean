import ObjectBroker.Proofs.Types.BranchTable
import ObjectBroker.Proofs.Types.Definitions
import ObjectBroker.Proofs.Values.Simulation

/-!
# `ObjectBroker.Proofs.Values.Assignable` — values where another type is declared

Whether a value may be stored is decided on outlines, whether it has the declared shape is decided
on all of it. The two go together where the definitions behind equal names agree: the value is
walked along its own type and along the declared one in step, and at each point of the walk both
types have the same outline, hence the same node, hence parts with the same outlines again.
-/

namespace ObjectBroker

namespace TypeDesc

variable {root root' : TypeDesc} {enclosing enclosing' : List TypeDesc} {t t' s s' : TypeDesc}
  {name : String}

/-! ## Points of a walk -/

/-- A point of a walk along `root`: the type there and the types around it are parts of `root`. -/
structure Within (root : TypeDesc) (enclosing : List TypeDesc) (t : TypeDesc) : Prop where
  here : t.definitions ⊆ root.definitions
  around : enclosing ⊆ root.definitions

/-- A point of a walk at which every marker, in the type there or in the types around it, stands for
    one of the types around it. -/
structure Anchored (enclosing : List TypeDesc) (t : TypeDesc) : Prop where
  here : t.closedIn (enclosing.filterMap name?) = true
  around : ∀ u ∈ enclosing, u.closedIn (enclosing.filterMap name?) = true

theorem mem_of_enclosing? (h : enclosing? name enclosing = some s) :
    s ∈ enclosing ∧ s.name? = some name :=
  ⟨List.mem_of_find?_eq_some h, by simpa using List.find?_some h⟩

/-- A shape is the type itself behind its `typedef` names or, for a marker, the type around it that
    the marker stands for. -/
theorem shape?_eq_some_iff : t.shape? enclosing = some s ↔
    (s = t.resolve ∧ ∀ name, t.resolve ≠ .recursive name) ∨
      ∃ name, t.resolve = .recursive name ∧ enclosing? name enclosing = some s := by
  unfold shape?
  split
  · rename_i name hmarker
    simp [hmarker]
  · rename_i hnone
    have hother : ∀ name, t.resolve ≠ .recursive name := fun name => hnone name
    simp [hother, eq_comm (b := s)]

theorem eq_resolve_or_mem_of_shape? (h : t.shape? enclosing = some s) :
    s = t.resolve ∨ s ∈ enclosing := by
  rcases shape?_eq_some_iff.1 h with ⟨rfl, -⟩ | ⟨name, -, hfound⟩
  · exact .inl rfl
  · exact .inr (mem_of_enclosing? hfound).1

namespace Within

theorem self (t : TypeDesc) : Within t [] t :=
  ⟨List.Subset.refl _, List.nil_subset _⟩

/-- To look at the shape of a type is no step of the walk. -/
theorem shape? (h : Within root enclosing t) (hs : t.shape? enclosing = some s) :
    Within root enclosing s := by
  rcases eq_resolve_or_mem_of_shape? hs with rfl | hmem
  · exact ⟨by rw [definitions_resolve]; exact h.here, h.around⟩
  · exact ⟨definitions_subset_of_mem (h.around hmem), h.around⟩

theorem member {members : List (Member TypeDesc)} {m : Member TypeDesc}
    (h : Within root enclosing (.struct name members)) (hm : m ∈ members) :
    Within root (.struct name members :: enclosing) m.type where
  here := List.Subset.trans (definitions_subset_of_mem_members hm) h.here
  around := List.cons_subset.2 ⟨h.here (List.mem_cons_self ..), h.around⟩

theorem branch {discriminant : TypeDesc} {branches : List (Branch TypeDesc)} {b : Branch TypeDesc}
    (h : Within root enclosing (.union name discriminant branches)) (hb : b ∈ branches) :
    Within root (.union name discriminant branches :: enclosing) b.type where
  here := List.Subset.trans (definitions_subset_of_mem_branches hb) h.here
  around := List.cons_subset.2 ⟨h.here (List.mem_cons_self ..), h.around⟩

end Within

namespace Anchored

theorem self (h : t.closed = true) : Anchored [] t :=
  ⟨h, by simp⟩

/-- Where every marker is anchored every type has a shape. -/
theorem exists_shape? (h : Anchored enclosing t) : ∃ s, t.shape? enclosing = some s := by
  have hclosed := h.here
  rw [← closedIn_resolve] at hclosed
  unfold TypeDesc.shape?
  split
  · rename_i name hmarker
    rw [hmarker, closedIn, List.contains_iff_mem, List.mem_filterMap] at hclosed
    obtain ⟨u, hu, hname⟩ := hclosed
    have hfound : (enclosing? name enclosing).isSome = true :=
      List.find?_isSome.2 ⟨u, hu, by simp [hname]⟩
    exact Option.isSome_iff_exists.1 hfound
  · exact ⟨_, rfl⟩

theorem shape? (h : Anchored enclosing t) (hs : t.shape? enclosing = some s) :
    Anchored enclosing s := by
  rcases eq_resolve_or_mem_of_shape? hs with rfl | hmem
  · exact ⟨by rw [closedIn_resolve]; exact h.here, h.around⟩
  · exact ⟨h.around s hmem, h.around⟩

/-- One more type around leaves anchored what was anchored, that type itself included. -/
theorem cons (h : Anchored enclosing t) (hname : t.name? = some name) {part : TypeDesc}
    (hpart : part.closedIn (name :: enclosing.filterMap name?) = true) :
    Anchored (t :: enclosing) part := by
  have hnames : (t :: enclosing).filterMap name? = name :: enclosing.filterMap name? :=
    List.filterMap_cons_some hname
  have hsub : enclosing.filterMap name? ⊆ name :: enclosing.filterMap name? :=
    List.subset_cons_self ..
  refine ⟨by rw [hnames]; exact hpart, ?_⟩
  intro u hu
  rw [hnames]
  rcases List.mem_cons.1 hu with rfl | hu
  · exact closedIn_mono hsub h.here
  · exact closedIn_mono hsub (h.around u hu)

theorem member {members : List (Member TypeDesc)} {m : Member TypeDesc}
    (h : Anchored enclosing (.struct name members)) (hm : m ∈ members) :
    Anchored (.struct name members :: enclosing) m.type :=
  h.cons rfl (closedIn_of_mem_members h.here hm)

theorem branch {discriminant : TypeDesc} {branches : List (Branch TypeDesc)} {b : Branch TypeDesc}
    (h : Anchored enclosing (.union name discriminant branches)) (hb : b ∈ branches) :
    Anchored (.union name discriminant branches :: enclosing) b.type :=
  h.cons rfl (closedIn_of_mem_branches h.here hb)

end Anchored

/-! ## Equal outlines, equal nodes -/

/-- What an outline reduces to its name is a definition of that name. -/
theorem Within.mem_definitions (h : Within root enclosing t) (hs : t.shape? enclosing = some s)
    (houtline : t.outline = .recursive name) :
    s ∈ root.definitions ∧ s.name? = some name := by
  rw [← outline_resolve] at houtline
  rcases shape?_eq_some_iff.1 hs with ⟨rfl, hmarker⟩ | ⟨marker, hmarker, hfound⟩
  · have hdefinitions := h.here
    rw [← definitions_resolve] at hdefinitions
    cases hresolve : t.resolve with
    | struct _ _ | union _ _ _ | enum _ _ =>
      rw [hresolve] at houtline hdefinitions
      exact ⟨hdefinitions (List.mem_cons_self ..), congrArg name? houtline⟩
    | recursive marker => exact absurd hresolve (hmarker marker)
    | typedef _ _ => exact absurd hresolve (t.resolve_ne_typedef _ _)
    | _ =>
      rw [hresolve] at houtline
      cases houtline
  · obtain ⟨hmem, hname⟩ := mem_of_enclosing? hfound
    rw [hmarker] at houtline
    obtain rfl : marker = name := TypeDesc.recursive.inj houtline
    exact ⟨h.around hmem, hname⟩

/-- Any other outline is that of the node itself. -/
theorem abridged_eq_outline (hs : t.shape? enclosing = some s)
    (houtline : ∀ name, t.outline ≠ .recursive name) : s.abridged = t.outline := by
  rw [← outline_resolve] at houtline ⊢
  rcases shape?_eq_some_iff.1 hs with ⟨rfl, -⟩ | ⟨marker, hmarker, -⟩
  · cases hresolve : t.resolve with
    | struct name _ | union name _ _ | enum name _ | recursive name =>
      rw [hresolve] at houtline
      exact absurd rfl (houtline name)
    | typedef _ _ => exact absurd hresolve (t.resolve_ne_typedef _ _)
    | _ => rfl
  · rw [hmarker] at houtline
    exact absurd rfl (houtline marker)

/-! ## Two walks in step -/

/-- Two walks that have come to types of the same outline. The definitions met on the way agree, and
    on the second way every marker stands for something. -/
structure InStep (root root' : TypeDesc) (enclosing enclosing' : List TypeDesc)
    (t t' : TypeDesc) : Prop where
  agree : root.Agrees root'
  within : Within root enclosing t
  within' : Within root' enclosing' t'
  anchored : Anchored enclosing' t'
  outline : t.outline = t'.outline

namespace InStep

/-- **Equal outlines, equal nodes.** The nodes that the two walks find are the same in outline. -/
theorem abridged_eq (h : InStep root root' enclosing enclosing' t t')
    (hs : t.shape? enclosing = some s) (hs' : t'.shape? enclosing' = some s') :
    s.abridged = s'.abridged := by
  by_cases hdefined : ∃ name, t.outline = .recursive name
  · obtain ⟨name, hdefined⟩ := hdefined
    obtain ⟨hmem, hname⟩ := h.within.mem_definitions hs hdefined
    obtain ⟨hmem', hname'⟩ := h.within'.mem_definitions hs' (h.outline ▸ hdefined)
    exact h.agree s hmem s' hmem' (hname.trans hname'.symm)
  · have hother : ∀ name, t.outline ≠ .recursive name := by
      intro name hname
      exact hdefined ⟨name, hname⟩
    calc s.abridged = t.outline := abridged_eq_outline hs hother
      _ = t'.outline := h.outline
      _ = s'.abridged := (abridged_eq_outline hs' (h.outline ▸ hother)).symm

/-- Where the first walk finds a node the second one finds one, too, and the nodes are in step. -/
theorem exists_shape? (h : InStep root root' enclosing enclosing' t t')
    (hs : t.shape? enclosing = some s) :
    ∃ s', t'.shape? enclosing' = some s' ∧ s.abridged = s'.abridged ∧
      InStep root root' enclosing enclosing' s s' := by
  obtain ⟨s', hs'⟩ := h.anchored.exists_shape?
  have habridged := h.abridged_eq hs hs'
  refine ⟨s', hs', habridged, h.agree, h.within.shape? hs, h.within'.shape? hs',
    h.anchored.shape? hs', ?_⟩
  rw [← outline_abridged, habridged, outline_abridged]

theorem sequence {element : TypeDesc} {bound : Option UInt32}
    (h : InStep root root' enclosing enclosing' t t')
    (hs : t.shape? enclosing = some (.sequence element bound)) :
    ∃ element' bound', t'.shape? enclosing' = some (.sequence element' bound') ∧
      InStep root root' enclosing enclosing' element element' := by
  obtain ⟨s', hs', habridged, hnode⟩ := h.exists_shape? hs
  obtain ⟨element', bound', rfl, helement⟩ := exists_of_abridged_eq_sequence habridged
  exact ⟨element', bound', hs', h.agree, ⟨hnode.within.here, hnode.within.around⟩,
    ⟨hnode.within'.here, hnode.within'.around⟩, ⟨hnode.anchored.here, hnode.anchored.around⟩,
    helement⟩

theorem array {element : TypeDesc} {length : UInt32}
    (h : InStep root root' enclosing enclosing' t t')
    (hs : t.shape? enclosing = some (.array element length)) :
    ∃ element', t'.shape? enclosing' = some (.array element' length) ∧
      InStep root root' enclosing enclosing' element element' := by
  obtain ⟨s', hs', habridged, hnode⟩ := h.exists_shape? hs
  obtain ⟨element', rfl, helement⟩ := exists_of_abridged_eq_array habridged
  exact ⟨element', hs', h.agree, ⟨hnode.within.here, hnode.within.around⟩,
    ⟨hnode.within'.here, hnode.within'.around⟩, ⟨hnode.anchored.here, hnode.anchored.around⟩,
    helement⟩

/-- The members of two structs in step are in step, position by position. -/
theorem struct {members : List (Member TypeDesc)}
    (h : InStep root root' enclosing enclosing' t t')
    (hs : t.shape? enclosing = some (.struct name members)) :
    ∃ members', t'.shape? enclosing' = some (.struct name members') ∧
      members.length = members'.length ∧
      ∀ (i : Nat) (m' : Member TypeDesc), members'[i]? = some m' → ∃ m, members[i]? = some m ∧
        InStep root root' (.struct name members :: enclosing)
          (.struct name members' :: enclosing') m.type m'.type := by
  obtain ⟨s', hs', habridged, hnode⟩ := h.exists_shape? hs
  obtain ⟨members', rfl, hmembers⟩ := exists_of_abridged_eq_struct habridged
  refine ⟨members', hs', by simpa using congrArg List.length hmembers, ?_⟩
  intro i m' hm'
  have hoptions := congrArg (·[i]?) hmembers
  simp only [List.getElem?_map, hm', Option.map_some, Option.map_eq_some_iff] at hoptions
  obtain ⟨m, hm, heq⟩ := hoptions
  have hmem := List.mem_of_getElem? hm
  have hmem' := List.mem_of_getElem? hm'
  exact ⟨m, hm, h.agree, hnode.within.member hmem, hnode.within'.member hmem',
    hnode.anchored.member hmem', congrArg Member.type heq⟩

/-- Two unions in step select branches in step. -/
theorem union {discriminant : TypeDesc} {branches : List (Branch TypeDesc)} {b : Branch TypeDesc}
    {d : Int64} (h : InStep root root' enclosing enclosing' t t')
    (hs : t.shape? enclosing = some (.union name discriminant branches))
    (hb : UnionType.selected? ⟨name, discriminant, branches⟩ d = some b) :
    ∃ discriminant' branches' b',
      t'.shape? enclosing' = some (.union name discriminant' branches') ∧
      UnionType.selected? ⟨name, discriminant', branches'⟩ d = some b' ∧
      InStep root root' (.union name discriminant branches :: enclosing)
        (.union name discriminant' branches' :: enclosing') b.type b'.type := by
  obtain ⟨s', hs', habridged, hnode⟩ := h.exists_shape? hs
  obtain ⟨discriminant', branches', rfl, hbranches⟩ := exists_of_abridged_eq_union habridged
  -- Both tables are the same once the branch types are reduced to outlines.
  have hselected := UnionType.selected?_of_branches_eq_map
    (u := ⟨name, discriminant, branches⟩) (v := ⟨name, discriminant, _⟩) TypeDesc.outline rfl d
  have hselected' := UnionType.selected?_of_branches_eq_map
    (u := ⟨name, discriminant', branches'⟩) (v := ⟨name, discriminant, _⟩) TypeDesc.outline
    hbranches d
  rw [hselected, hb, Option.map_some, eq_comm, Option.map_eq_some_iff] at hselected'
  obtain ⟨b', hb', heq⟩ := hselected'
  have hmem := UnionType.mem_of_selected? hb
  have hmem' := UnionType.mem_of_selected? hb'
  exact ⟨discriminant', branches', b', hs', hb', h.agree, hnode.within.branch hmem,
    hnode.within'.branch hmem', hnode.anchored.branch hmem', congrArg Branch.type heq.symm⟩

end InStep

end TypeDesc

/-! ## Values along two walks -/

namespace TypeDesc

variable {root root' : TypeDesc} {enclosing enclosing' : List TypeDesc} {t t' : TypeDesc}

/-- A leaf looks at its node only, of which it sees no part. -/
theorem InStep.leaf {p : Payload} (hstep : InStep root root' enclosing enclosing' t t')
    (hleaf : p.isLeaf = true) (h : p.conforms enclosing t = true) :
    p.conforms enclosing' t' = true := by
  cases hs : t.shape? enclosing with
  | none => cases p <;> simp [Payload.conforms, hs] at h
  | some s =>
    obtain ⟨s', hs', habridged, -⟩ := hstep.exists_shape? hs
    cases p with
    | sequence _ | array _ | struct _ | union _ _ => cases hleaf
    | _ =>
      simp only [Payload.conforms, hs] at h
      simp only [Payload.conforms, hs']
      cases s <;> first | (cases s' <;> cases habridged <;> exact h) | cases h

/-- **Equal outlines, equal values.** What conforms to a type at one point of a walk conforms to the
    type that another walk in step has come to. -/
theorem simulates_inStep (root root' : TypeDesc) : Simulates (InStep root root') where
  leaf := InStep.leaf
  sequence := InStep.sequence
  array := InStep.array
  struct := InStep.struct
  union := InStep.union

end TypeDesc

/-- A value that conforms to its own type has the shape that is declared where it may be stored, if
    the definitions in its type agree with those around the place. -/
theorem Dynamic.conforms_of_assignableTo {x : Dynamic} {root expected : TypeDesc}
    {enclosing : List TypeDesc} (hx : x.conforming = true) (hagree : x.type.Agrees root)
    (hin : TypeDesc.Within root enclosing expected)
    (hanchored : TypeDesc.Anchored enclosing expected)
    (h : x.type.assignableTo expected = true) : x.payload.conforms enclosing expected = true := by
  have houtline := TypeDesc.outline_eq_of_assignableTo h
  exact Payload.conforms_of_simulates (TypeDesc.simulates_inStep x.type root)
    ⟨hagree, .self x.type, hin, hanchored, houtline⟩ hx

end ObjectBroker
