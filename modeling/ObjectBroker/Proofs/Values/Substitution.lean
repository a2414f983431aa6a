import ObjectBroker.Proofs.Types.Substitution
import ObjectBroker.Proofs.Values.Assignable

/-!
# `ObjectBroker.Proofs.Values.Substitution` — values of a part taken out

A value of a struct or union is walked with the definition on the stack, where the markers in it find
it. The same value of a part that was taken out is walked without: the definition is in the type, in
place of the markers. The two walks are compared here.

Other definitions are on both stacks, but not the same ones. What was entered inside the part has had
its markers replaced as well, and has lost nothing else by it. Once a marker is followed to the
definition, or a namesake of it is entered, both walks are inside the same closed type; from there on
they only look up what they have both put on the stack.

The stacks are never cut back, and a marker finds the innermost type of its name that has been
entered on the way. This is the type around it in the description only as long as no marker leads
out of a type and back into a namesake. Where a namesake of the definition is not closed by itself
the two walks can come apart: the one finds the namesake on its stack, the other has the definition
in the type.
-/

namespace ObjectBroker

namespace TypeDesc

variable {target name : String} {content t t' s node : TypeDesc} {names : List String}
  {enclosing enclosing' : List TypeDesc}

/-! ## Look-ups -/

theorem enclosing?_cons_self (h : node.name? = some name) (enclosing : List TypeDesc) :
    enclosing? name (node :: enclosing) = some node := by
  rw [enclosing?, List.find?_cons_of_pos (by rw [h]; exact beq_self_eq_true _)]

theorem enclosing?_cons_ne {f : String} (h : node.name? = some name) (hne : f ≠ name)
    (enclosing : List TypeDesc) : enclosing? f (node :: enclosing) = enclosing? f enclosing := by
  rw [enclosing?, List.find?_cons_of_neg, enclosing?]
  rw [h, beq_iff_eq, Option.some.injEq]
  exact fun heq => hne heq.symm

/-- Under each of these names both stacks have the same type, which needs no other names. -/
def SameScope (names : List String) (enclosing enclosing' : List TypeDesc) : Prop :=
  ∀ f ∈ names, ∃ u, enclosing? f enclosing = some u ∧ enclosing? f enclosing' = some u ∧
    u.closedIn names = true

/-- Under each of these names the second stack has what the first has, with the content in place of
    markers. Under the name of the target the first stack has the content, and the second need not
    have anything. -/
structure ReplacedScope (target : String) (content : TypeDesc) (names : List String)
    (enclosing enclosing' : List TypeDesc) : Prop where
  found : target ∈ names → enclosing? target enclosing = some content
  other : ∀ f ∈ names, f ≠ target → ∃ u, enclosing? f enclosing = some u ∧
    enclosing? f enclosing' = some (u.substitute target content) ∧ u.closedIn names = true ∧
    u.namesakesClosed target = true

/-- The same type entered on both sides is found on both. -/
theorem SameScope.cons (h : SameScope names enclosing enclosing') (hname : node.name? = some name)
    (hclosed : node.closedIn names = true) :
    SameScope (name :: names) (node :: enclosing) (node :: enclosing') := by
  have hsub : names ⊆ name :: names := List.subset_cons_self ..
  intro f hf
  by_cases hne : f = name
  · subst hne
    exact ⟨node, enclosing?_cons_self hname _, enclosing?_cons_self hname _,
      closedIn_mono hsub hclosed⟩
  · obtain ⟨u, hu, hu', hclosedu⟩ := h f ((List.mem_cons.1 hf).resolve_left hne)
    rw [enclosing?_cons_ne hname hne, enclosing?_cons_ne hname hne]
    exact ⟨u, hu, hu', closedIn_mono hsub hclosedu⟩

/-- A closed type needs nothing of what is around it. -/
theorem SameScope.nil (enclosing enclosing' : List TypeDesc) : SameScope [] enclosing enclosing' := by
  intro f hf
  cases hf

/-- Another type entered on both sides is found on both, on the second with its markers replaced. -/
theorem ReplacedScope.cons (h : ReplacedScope target content names enclosing enclosing')
    (hne : name ≠ target) (hname : node.name? = some name)
    (hclosed : node.closedIn names = true) (hnamesakes : node.namesakesClosed target = true) :
    ReplacedScope target content (name :: names) (node :: enclosing)
      (node.substitute target content :: enclosing') := by
  have hsub : names ⊆ name :: names := List.subset_cons_self ..
  have hname' : (node.substitute target content).name? = some name := name?_substitute hname hne
  constructor
  · intro htarget
    rw [enclosing?_cons_ne hname hne.symm]
    exact h.found ((List.mem_cons.1 htarget).resolve_left hne.symm)
  · intro f hf hftarget
    by_cases hfname : f = name
    · subst hfname
      exact ⟨node, enclosing?_cons_self hname _, enclosing?_cons_self hname' _,
        closedIn_mono hsub hclosed, hnamesakes⟩
    · obtain ⟨u, hu, hu', hclosedu, hnamesakesu⟩ :=
        h.other f ((List.mem_cons.1 hf).resolve_left hfname) hftarget
      rw [enclosing?_cons_ne hname hfname, enclosing?_cons_ne hname' hfname]
      exact ⟨u, hu, hu', closedIn_mono hsub hclosedu, hnamesakesu⟩

/-! ## Two walks -/

/-- Two walks, of which the second has the content in place of markers for the target; or both are
    inside the same type, and find the same in it. -/
inductive Replaced (target : String) (content : TypeDesc) :
    (enclosing enclosing' : List TypeDesc) → (t t' : TypeDesc) → Prop where
  | same {enclosing enclosing' : List TypeDesc} {t : TypeDesc} (names : List String)
      (scope : SameScope names enclosing enclosing') (closed : t.closedIn names = true) :
      Replaced target content enclosing enclosing' t t
  | replaced {enclosing enclosing' : List TypeDesc} {t : TypeDesc} (names : List String)
      (scope : ReplacedScope target content names enclosing enclosing')
      (closed : t.closedIn names = true) (namesakes : t.namesakesClosed target = true) :
      Replaced target content enclosing enclosing' t (t.substitute target content)

namespace Replaced

/-- A marker that is closed in some names is for one of them. -/
theorem mem_of_marker (hclosed : t.closedIn names = true) (ht : t.resolve = .recursive name) :
    name ∈ names := by
  rw [← closedIn_resolve, ht, closedIn] at hclosed
  exact List.contains_iff_mem.1 hclosed

/-- Nothing but a marker gives way to something of another kind. -/
theorem substitute_ne_marker (h : ∀ n, t ≠ .recursive n) (n : String) :
    t.substitute target content ≠ .recursive n := by
  intro heq
  cases t with
  | recursive name => exact h name rfl
  | struct name members =>
    rw [substitute] at heq
    split at heq <;> cases heq
  | union name discriminant branches =>
    rw [substitute] at heq
    split at heq <;> cases heq
  | _ => cases heq

section Steps

variable (hclosed : content.closed = true)
  (hcontent : ∀ enclosing, content.shape? enclosing = some content)
include hclosed hcontent

/-- Where the first walk finds a node the second one finds one, too, and the nodes are related. -/
theorem exists_shape? (h : Replaced target content enclosing enclosing' t t')
    (hs : t.shape? enclosing = some s) :
    ∃ s', t'.shape? enclosing' = some s' ∧ Replaced target content enclosing enclosing' s s' := by
  have hnode : content.resolve = content := by
    rcases shape?_eq_some_iff.1 (hcontent []) with ⟨hnode, -⟩ | ⟨f, -, hfound⟩
    · exact hnode.symm
    · cases hfound
  cases h with
  | same names scope closed =>
    rcases shape?_eq_some_iff.1 hs with ⟨rfl, hother⟩ | ⟨f, hmarker, hfound⟩
    · refine ⟨t.resolve, shape?_eq_some_iff.2 (.inl ⟨rfl, hother⟩), .same names scope ?_⟩
      rwa [closedIn_resolve]
    · obtain ⟨u, hu, hu', hclosedu⟩ := scope f (mem_of_marker closed hmarker)
      obtain rfl : u = s := Option.some.inj (hu.symm.trans hfound)
      exact ⟨u, shape?_eq_some_iff.2 (.inr ⟨f, hmarker, hu'⟩), .same names scope hclosedu⟩
  | replaced names scope closed namesakes =>
    have hresolve : (t.substitute target content).resolve = t.resolve.substitute target content :=
      resolve_substitute hnode t
    rcases shape?_eq_some_iff.1 hs with ⟨rfl, hother⟩ | ⟨f, hmarker, hfound⟩
    · refine ⟨t.resolve.substitute target content, shape?_eq_some_iff.2 (.inl ⟨hresolve.symm, ?_⟩),
        .replaced names scope (by rwa [closedIn_resolve]) (everyNode_resolve namesakes)⟩
      rw [hresolve]
      exact substitute_ne_marker hother
    · rw [hmarker, substitute] at hresolve
      have hmem := mem_of_marker closed hmarker
      by_cases hf : f = target
      · -- The marker is for the target: both walks go on in the content.
        subst hf
        rw [if_pos rfl] at hresolve
        obtain rfl : content = s := Option.some.inj ((scope.found hmem).symm.trans hfound)
        refine ⟨content, ?_, .same [] (SameScope.nil _ _) hclosed⟩
        have hshape := hcontent enclosing'
        rw [shape?, hnode] at hshape
        rwa [shape?, hresolve]
      · rw [if_neg hf] at hresolve
        obtain ⟨u, hu, hu', hclosedu, hnamesakesu⟩ := scope.other f hmem hf
        obtain rfl : u = s := Option.some.inj (hu.symm.trans hfound)
        exact ⟨u.substitute target content, shape?_eq_some_iff.2 (.inr ⟨f, hresolve, hu'⟩),
          .replaced names scope hclosedu hnamesakesu⟩

theorem leaf {p : Payload} (h : Replaced target content enclosing enclosing' t t')
    (hleaf : p.isLeaf = true) (hp : p.conforms enclosing t = true) :
    p.conforms enclosing' t' = true := by
  cases hs : t.shape? enclosing with
  | none => cases p <;> simp [Payload.conforms, hs] at hp
  | some s =>
    obtain ⟨s', hs', hnodes⟩ := h.exists_shape? hclosed hcontent hs
    cases p with
    | sequence _ | array _ | struct _ | union _ _ => cases hleaf
    | _ =>
      simp only [Payload.conforms, hs] at hp
      simp only [Payload.conforms, hs']
      cases hnodes with
      | same _ _ _ => exact hp
      | replaced _ _ _ _ => cases s <;> first | exact hp | cases hp

theorem sequence {element : TypeDesc} {bound : Option UInt32}
    (h : Replaced target content enclosing enclosing' t t')
    (hs : t.shape? enclosing = some (.sequence element bound)) :
    ∃ element' bound', t'.shape? enclosing' = some (.sequence element' bound') ∧
      Replaced target content enclosing enclosing' element element' := by
  obtain ⟨s', hs', hnodes⟩ := h.exists_shape? hclosed hcontent hs
  cases hnodes with
  | same names scope closed => exact ⟨element, bound, hs', .same names scope closed⟩
  | replaced names scope closed namesakes =>
    exact ⟨_, bound, hs', .replaced names scope closed namesakes⟩

theorem array {element : TypeDesc} {length : UInt32}
    (h : Replaced target content enclosing enclosing' t t')
    (hs : t.shape? enclosing = some (.array element length)) :
    ∃ element', t'.shape? enclosing' = some (.array element' length) ∧
      Replaced target content enclosing enclosing' element element' := by
  obtain ⟨s', hs', hnodes⟩ := h.exists_shape? hclosed hcontent hs
  cases hnodes with
  | same names scope closed => exact ⟨element, hs', .same names scope closed⟩
  | replaced names scope closed namesakes =>
    exact ⟨_, hs', .replaced names scope closed namesakes⟩

/-- The members of related structs are related, position by position. -/
theorem struct {members : List (Member TypeDesc)}
    (h : Replaced target content enclosing enclosing' t t')
    (hs : t.shape? enclosing = some (.struct name members)) :
    ∃ members', t'.shape? enclosing' = some (.struct name members') ∧
      members.length = members'.length ∧
      ∀ (i : Nat) (m' : Member TypeDesc), members'[i]? = some m' → ∃ m, members[i]? = some m ∧
        Replaced target content (.struct name members :: enclosing)
          (.struct name members' :: enclosing') m.type m'.type := by
  obtain ⟨s', hs', hnodes⟩ := h.exists_shape? hclosed hcontent hs
  cases hnodes with
  | same names scope closed =>
    refine ⟨members, hs', rfl, fun i m hm => ⟨m, hm, .same (name :: names) ?_ ?_⟩⟩
    · exact scope.cons rfl closed
    · exact closedIn_of_mem_members closed (List.mem_of_getElem? hm)
  | replaced names scope closed namesakes =>
    obtain ⟨hnamesake, hinside⟩ := namesakesClosed_struct_iff.1 namesakes
    by_cases hname : name = target
    · -- A namesake was left as it is. It is closed, so nothing around it matters any more.
      rw [substitute, if_pos hname] at hs'
      have hself := hnamesake hname
      refine ⟨members, hs', rfl, fun i m hm => ⟨m, hm, .same [name] ?_ ?_⟩⟩
      · exact (SameScope.nil enclosing enclosing').cons rfl hself
      · exact closedIn_of_mem_members hself (List.mem_of_getElem? hm)
    · rw [substitute, if_neg hname] at hs'
      have hscope := scope.cons hname rfl closed namesakes
      rw [substitute, if_neg hname] at hscope
      refine ⟨substituteMembers members target content, hs', ?_, ?_⟩
      · rw [substituteMembers_eq_map, List.length_map]
      · intro i m' hm'
        rw [substituteMembers_eq_map, List.getElem?_map, Option.map_eq_some_iff] at hm'
        obtain ⟨m, hm, rfl⟩ := hm'
        have hmem := List.mem_of_getElem? hm
        exact ⟨m, hm, .replaced (name :: names) hscope (closedIn_of_mem_members closed hmem)
          (hinside m hmem)⟩

/-- Related unions select related branches. -/
theorem union {discriminant : TypeDesc} {branches : List (Branch TypeDesc)} {b : Branch TypeDesc}
    {d : Int64} (h : Replaced target content enclosing enclosing' t t')
    (hs : t.shape? enclosing = some (.union name discriminant branches))
    (hb : UnionType.selected? ⟨name, discriminant, branches⟩ d = some b) :
    ∃ discriminant' branches' b',
      t'.shape? enclosing' = some (.union name discriminant' branches') ∧
      UnionType.selected? ⟨name, discriminant', branches'⟩ d = some b' ∧
      Replaced target content (.union name discriminant branches :: enclosing)
        (.union name discriminant' branches' :: enclosing') b.type b'.type := by
  obtain ⟨s', hs', hnodes⟩ := h.exists_shape? hclosed hcontent hs
  have hmem := UnionType.mem_of_selected? hb
  cases hnodes with
  | same names scope closed =>
    refine ⟨discriminant, branches, b, hs', hb, .same (name :: names) ?_ ?_⟩
    · exact scope.cons rfl closed
    · exact closedIn_of_mem_branches closed hmem
  | replaced names scope closed namesakes =>
    obtain ⟨hnamesake, -, hinside⟩ := namesakesClosed_union_iff.1 namesakes
    by_cases hname : name = target
    · rw [substitute, if_pos hname] at hs'
      have hself := hnamesake hname
      refine ⟨discriminant, branches, b, hs', hb, .same [name] ?_ ?_⟩
      · exact (SameScope.nil enclosing enclosing').cons rfl hself
      · exact closedIn_of_mem_branches hself hmem
    · rw [substitute, if_neg hname] at hs'
      have hscope := scope.cons hname rfl closed namesakes
      rw [substitute, if_neg hname] at hscope
      -- Selection looks at labels only, and they are the same in both tables.
      have hselected := UnionType.selected?_of_branches_eq_map
        (u := ⟨name, discriminant, branches⟩)
        (v := ⟨name, discriminant.substitute target content, _⟩)
        (TypeDesc.substitute · target content) (substituteBranches_eq_map target content branches) d
      rw [hb, Option.map_some] at hselected
      exact ⟨_, _, _, hs', hselected,
        .replaced (name :: names) hscope (closedIn_of_mem_branches closed hmem) (hinside b hmem)⟩

end Steps

end Replaced

/-- **Parts that are taken out.** A walk with a closed definition on the stack and a walk with the
    definition in place of its markers find nodes that a payload cannot tell apart. -/
theorem simulates_replaced (hclosed : content.closed = true)
    (hcontent : ∀ enclosing, content.shape? enclosing = some content) :
    Simulates (Replaced target content) where
  leaf h := h.leaf hclosed hcontent
  sequence h := h.sequence hclosed hcontent
  array h := h.array hclosed hcontent
  struct h := h.struct hclosed hcontent
  union h := h.union hclosed hcontent

/-! ## Types whose parts can be taken out -/

/-- No marker can be taken for one of another definition: every struct or union in the type that has
    the name of the type itself is closed, or equal names mean equal definitions throughout. -/
def Unambiguous (t : TypeDesc) : Prop :=
  t.resolve.name?.all (fun name => t.namesakesClosed name) = true ∨ t.Agrees t

instance (t : TypeDesc) : Decidable t.Unambiguous :=
  inferInstanceAs (Decidable (_ ∨ _))

variable {root part definition : TypeDesc} {p : Payload}

/-- Where the namesakes of a definition are closed, the stack and the type say the same. -/
theorem PartOf.conforms_of_namesakesClosed (h : PartOf part definition name)
    (hclosed : definition.closed = true) (hnamesakes : definition.namesakesClosed name = true)
    (hp : p.conforms [definition] part = true) :
    p.conforms [] (part.substitute name definition) = true := by
  have hshape : ∀ enclosing, definition.shape? enclosing = some definition := by
    cases h <;> exact fun _ => rfl
  have hscope : ReplacedScope name definition [name] [definition] [] := by
    constructor
    · intro _
      exact enclosing?_cons_self h.name?_eq []
    · intro f hf hne
      exact absurd (List.mem_singleton.1 hf) hne
  exact Payload.conforms_of_simulates (simulates_replaced hclosed hshape)
    (.replaced [name] hscope (h.closedIn hclosed) (h.namesakesClosed hnamesakes)) hp

/-- So they do where equal names mean equal definitions: to a comparison by name the part has not
    changed. -/
theorem PartOf.conforms_of_agrees (h : PartOf part definition name)
    (hclosed : definition.closed = true) (hagree : definition.Agrees definition)
    (hp : p.conforms [definition] part = true) :
    p.conforms [] (part.substitute name definition) = true := by
  have hagrees := (hagree.substitute h.outline_eq (List.Subset.refl _) h.definitions_subset).1
  have hstep : InStep definition (part.substitute name definition) [definition] [] part
      (part.substitute name definition) :=
    ⟨hagrees, ⟨h.definitions_subset, List.cons_subset.2 ⟨h.mem_definitions, List.nil_subset _⟩⟩,
      .self _, .self (closed_substitute hclosed (h.closedIn hclosed)),
      (outline_substitute h.outline_eq part).symm⟩
  exact Payload.conforms_of_simulates (simulates_inStep _ _) hstep hp

/-- **Parts.** A value that conforms as part of a value conforms by itself, to the type of the part
    with the definition in place of its markers. That type is closed, and where equal names meant
    equal definitions they still do. -/
theorem PartOf.conforming (h : PartOf part definition name) (hroot : root.resolve = definition)
    (hclosed : root.closed = true) (hnames : root.Unambiguous)
    (hp : p.conforms [definition] part = true) :
    (Dynamic.mk (part.substitute name definition) p).conforming = true ∧
      (part.substitute name definition).closed = true ∧
      (root.Agrees root →
        (part.substitute name definition).Agrees (part.substitute name definition)) := by
  subst hroot
  have hresolved : root.resolve.closed = true := by rwa [closed, closedIn_resolve]
  have hagrees : root.Agrees root → root.resolve.Agrees root.resolve := by
    intro hagree
    unfold Agrees
    rwa [definitions_resolve]
  refine ⟨?_, closed_substitute hresolved (h.closedIn hresolved), ?_⟩
  · rcases hnames with hnamesakes | hagree
    · rw [h.name?_eq, Option.all_some] at hnamesakes
      exact h.conforms_of_namesakesClosed hresolved (everyNode_resolve hnamesakes) hp
    · exact h.conforms_of_agrees hresolved (hagrees hagree) hp
  · intro hagree
    exact ((hagrees hagree).substitute h.outline_eq (List.Subset.refl _) h.definitions_subset).2

end TypeDesc

end ObjectBroker
