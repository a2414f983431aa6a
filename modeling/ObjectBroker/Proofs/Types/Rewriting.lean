import ObjectBroker.Proofs.Types.WellFormed
import ObjectBroker.Types.Substitution

/-!
# `ObjectBroker.Proofs.Types.Rewriting` — the laws of collapsing and substituting

Two operations rewrite a description at every depth. One takes the `typedef` names out of it, the
other puts a definition in place of the markers for it. Both reach what they are to replace wherever
it stands, in a member, a discriminant, a branch or an element. So either is done once and for all:
what it is to replace is not there afterwards, and where it is not there nothing is changed.

The two do not get in each other's way. Substitution stops at a struct or union of the name to be
replaced, whose markers are for that type; and since collapsing takes no struct or union away and
gives none another name, it makes no difference which of the two comes first.
-/

namespace ObjectBroker.TypeDesc

variable {t content : TypeDesc} {target name : String}

/-! ## Definitions and their markers -/

/-- Whether the description is a struct or union of this name, so that markers of the name can stand
    for it. -/
def defines (name : String) : TypeDesc → Bool
  | .struct n _ | .union n _ _ => n == name
  | _ => false

mutual
/-- Whether every marker of this name lies inside a struct or union of the name. -/
def freeOf (name : String) : TypeDesc → Bool
  | .recursive n => n != name
  | .struct n members => n == name || membersFreeOf name members
  | .union n discriminant branches =>
    n == name || (freeOf name discriminant && branchesFreeOf name branches)
  | .sequence element _ | .array element _ => freeOf name element
  | .typedef _ underlying => freeOf name underlying
  | .null | .scalar _ | .string | .wstring | .any | .enum _ _ | .objectRef _ => true
/-- Whether every marker of this name in a member type lies inside a struct or union of the name. -/
def membersFreeOf (name : String) : List (Member TypeDesc) → Bool
  | [] => true
  | m :: ms => freeOf name m.type && membersFreeOf name ms
/-- Whether every marker of this name in a branch type lies inside a struct or union of the name. -/
def branchesFreeOf (name : String) : List (Branch TypeDesc) → Bool
  | [] => true
  | b :: bs => freeOf name b.type && branchesFreeOf name bs
end

theorem membersFreeOf_eq_all (name : String) (ms : List (Member TypeDesc)) :
    membersFreeOf name ms = ms.all fun m => freeOf name m.type := by
  induction ms with
  | nil => rfl
  | cons m ms ih => exact congrArg (freeOf name m.type && ·) ih

theorem branchesFreeOf_eq_all (name : String) (bs : List (Branch TypeDesc)) :
    branchesFreeOf name bs = bs.all fun b => freeOf name b.type := by
  induction bs with
  | nil => rfl
  | cons b bs ih => exact congrArg (freeOf name b.type && ·) ih

theorem freeOf_struct_iff {members : List (Member TypeDesc)} :
    (struct name members).freeOf target = true ↔
      name = target ∨ ∀ m ∈ members, m.type.freeOf target = true := by
  simp only [freeOf, membersFreeOf_eq_all, Bool.or_eq_true, beq_iff_eq, List.all_eq_true]

theorem freeOf_union_iff {discriminant : TypeDesc} {branches : List (Branch TypeDesc)} :
    (union name discriminant branches).freeOf target = true ↔
      name = target ∨ discriminant.freeOf target = true ∧
        ∀ b ∈ branches, b.type.freeOf target = true := by
  simp only [freeOf, branchesFreeOf_eq_all, Bool.or_eq_true, Bool.and_eq_true, beq_iff_eq,
    List.all_eq_true]

/-- A definition keeps its markers to itself. -/
theorem freeOf_of_defines (h : content.defines target = true) : content.freeOf target = true := by
  cases content with
  | struct name members => exact freeOf_struct_iff.2 (.inl (beq_iff_eq.1 h))
  | union name discriminant branches => exact freeOf_union_iff.2 (.inl (beq_iff_eq.1 h))
  | _ => cases h

/-! ## Substitution -/

/-- **No marker is left.** Every marker of the name that could be reached has given way. -/
theorem freeOf_substitute (hcontent : content.defines target = true) (t : TypeDesc) :
    (t.substitute target content).freeOf target = true := by
  induction t with
  | recursive name =>
    rw [substitute]
    split
    · exact freeOf_of_defines hcontent
    · rename_i hne
      exact bne_iff_ne.2 hne
  | struct name members ih =>
    -- Inside a struct of the name nothing is replaced, and its markers do not count.
    rw [substitute]
    split
    · rename_i hname
      exact freeOf_struct_iff.2 (.inl hname)
    · rw [substituteMembers_eq_map, freeOf_struct_iff]
      exact .inr (List.forall_mem_map.2 ih)
  | union name discriminant branches ihd ihb =>
    rw [substitute]
    split
    · rename_i hname
      exact freeOf_union_iff.2 (.inl hname)
    · rw [substituteBranches_eq_map, freeOf_union_iff]
      exact .inr ⟨ihd, List.forall_mem_map.2 ihb⟩
  | sequence element bound ih => exact ih
  | array element length ih => exact ih
  | typedef name underlying ih => exact ih
  | _ => rfl

/-- **Nothing else changes.** Where no marker can be reached, the description stays as it is. -/
theorem substitute_of_freeOf (h : t.freeOf target = true) : t.substitute target content = t := by
  induction t with
  | recursive name => rw [substitute, if_neg (bne_iff_ne.1 h)]
  | struct name members ih =>
    rw [substitute]
    split
    · rfl
    · rename_i hne
      have hmembers := (freeOf_struct_iff.1 h).resolve_left hne
      have hsame : ∀ m ∈ members, { m with type := m.type.substitute target content } = m :=
        fun m hm => by rw [ih m hm (hmembers m hm)]
      rw [substituteMembers_eq_map, List.map_congr_left hsame, List.map_id']
  | union name discriminant branches ihd ihb =>
    rw [substitute]
    split
    · rfl
    · rename_i hne
      obtain ⟨hdiscriminant, hbranches⟩ := (freeOf_union_iff.1 h).resolve_left hne
      have hsame : ∀ b ∈ branches, { b with type := b.type.substitute target content } = b :=
        fun b hb => by rw [ihb b hb (hbranches b hb)]
      rw [substituteBranches_eq_map, List.map_congr_left hsame, List.map_id', ihd hdiscriminant]
  | sequence element bound ih => rw [substitute, ih h]
  | array element length ih => rw [substitute, ih h]
  | typedef name underlying ih => rw [substitute, ih h]
  | _ => rfl

/-! ## Collapsing -/

/-- Whether no node of the description is a `typedef` name. -/
def typedefFree (t : TypeDesc) : Bool :=
  t.everyNode fun
    | .typedef _ _ => false
    | _ => true

theorem typedefFree_struct_iff {members : List (Member TypeDesc)} :
    (struct name members).typedefFree = true ↔ ∀ m ∈ members, m.type.typedefFree = true := by
  simp only [typedefFree, everyNode_struct_iff, true_and]

theorem typedefFree_union_iff {discriminant : TypeDesc} {branches : List (Branch TypeDesc)} :
    (union name discriminant branches).typedefFree = true ↔
      discriminant.typedefFree = true ∧ ∀ b ∈ branches, b.type.typedefFree = true := by
  simp only [typedefFree, everyNode_union_iff, true_and]

/-- **No `typedef` name is left**, at any depth. -/
theorem typedefFree_collapse (t : TypeDesc) : t.collapse.typedefFree = true := by
  induction t with
  | struct name members ih =>
    rw [collapse, collapseMembers_eq_map, typedefFree_struct_iff]
    exact List.forall_mem_map.2 ih
  | union name discriminant branches ihd ihb =>
    rw [collapse, collapseBranches_eq_map, typedefFree_union_iff]
    exact ⟨ihd, List.forall_mem_map.2 ihb⟩
  | sequence element bound ih => exact ih
  | array element length ih => exact ih
  | typedef name underlying ih => exact ih
  | _ => rfl

/-- **Nothing else changes.** Without a `typedef` name the description stays as it is. -/
theorem collapse_of_typedefFree (h : t.typedefFree = true) : t.collapse = t := by
  induction t with
  | struct name members ih =>
    rw [typedefFree_struct_iff] at h
    have hsame : ∀ m ∈ members, { m with type := m.type.collapse } = m :=
      fun m hm => by rw [ih m hm (h m hm)]
    rw [collapse, collapseMembers_eq_map, List.map_congr_left hsame, List.map_id']
  | union name discriminant branches ihd ihb =>
    rw [typedefFree_union_iff] at h
    have hsame : ∀ b ∈ branches, { b with type := b.type.collapse } = b :=
      fun b hb => by rw [ihb b hb (h.2 b hb)]
    rw [collapse, collapseBranches_eq_map, List.map_congr_left hsame, List.map_id', ihd h.1]
  | sequence element bound ih => rw [collapse, ih h]
  | array element length ih => rw [collapse, ih h]
  | typedef name underlying => cases h
  | _ => rfl

/-! ## One after the other -/

/-- **Commutation.** Markers that gave way and were then collapsed with what took their place are
    collapsed markers that gave way to what is collapsed. -/
theorem collapse_substitute (t : TypeDesc) (target : String) (content : TypeDesc) :
    (t.substitute target content).collapse = t.collapse.substitute target content.collapse := by
  induction t with
  | recursive name =>
    rw [substitute, collapse, substitute]
    split <;> rfl
  | struct name members ih =>
    -- Collapsing keeps the name of the struct, so both orders stop at the same structs.
    rw [substitute, collapse, substitute]
    split
    · rfl
    · simp only [collapse, substituteMembers_eq_map, collapseMembers_eq_map, List.map_map]
      refine congrArg (struct name) (List.map_congr_left fun m hm => ?_)
      simp only [Function.comp_apply, ih m hm]
  | union name discriminant branches ihd ihb =>
    rw [substitute, collapse, substitute]
    split
    · rfl
    · simp only [collapse, substituteBranches_eq_map, collapseBranches_eq_map, List.map_map, ihd]
      refine congrArg (union name _) (List.map_congr_left fun b hb => ?_)
      simp only [Function.comp_apply, ihb b hb]
  | sequence element bound ih => simp only [substitute, collapse, ih]
  | array element length ih => simp only [substitute, collapse, ih]
  | typedef name underlying ih => simpa only [substitute, collapse] using ih
  | _ => rfl

/-- **The laws of rewriting.** Where a definition takes the place of its markers, none is left that
    could be reached, a description without such markers stays as it is, and doing it again changes
    nothing. Collapsing leaves no `typedef` name and changes nothing the second time. And of the two,
    either may come first. -/
theorem rewriting_laws (t : TypeDesc) {content : TypeDesc} {target : String}
    (hcontent : content.defines target = true) :
    (t.substitute target content).freeOf target = true ∧
    (t.freeOf target = true → t.substitute target content = t) ∧
    (t.substitute target content).substitute target content = t.substitute target content ∧
    t.collapse.typedefFree = true ∧
    t.collapse.collapse = t.collapse ∧
    (t.substitute target content).collapse = t.collapse.substitute target content.collapse := by
  have hfree := freeOf_substitute hcontent t
  have hcollapsed := typedefFree_collapse t
  exact ⟨hfree, substitute_of_freeOf, substitute_of_freeOf hfree, hcollapsed,
    collapse_of_typedefFree hcollapsed, collapse_substitute t target content⟩

/-- A list of nodes, by a `typedef` name. -/
def namedNodes : TypeDesc := TypeDesc.typedef "Nodes" (.sequence (.recursive "Node") none)

/-- A node with some nodes below it. -/
def namedNode : TypeDesc := .struct "Node" [⟨"below", namedNodes⟩]

/-- A part with a list of nodes, and with another struct that has the name of the node. -/
def partOfNode : TypeDesc :=
  .struct "Part" [⟨"nodes", namedNodes⟩,
    ⟨"namesake", .struct "Node" [⟨"itself", .sequence (.recursive "Node") none⟩]⟩]

/-- The list gets the definition, and the namesake keeps its marker. The definition by itself has
    no marker to give way. -/
theorem rewriting_laws_partOfNode :
    namedNode.defines "Node" = true ∧ partOfNode.freeOf "Node" = false ∧
      (partOfNode.substitute "Node" namedNode).freeOf "Node" = true ∧
      (partOfNode.substitute "Node" namedNode).collapse =
        .struct "Part" [⟨"nodes", .sequence
            (.struct "Node" [⟨"below", .sequence (.recursive "Node") none⟩]) none⟩,
          ⟨"namesake", .struct "Node" [⟨"itself", .sequence (.recursive "Node") none⟩]⟩] ∧
      namedNode.freeOf "Node" = true ∧ namedNode.substitute "Node" namedNode = namedNode := by
  have hcontent : namedNode.defines "Node" = true := rfl
  obtain ⟨hfree, -, -, -, -, hcommute⟩ := rewriting_laws partOfNode hcontent
  have hnone : namedNode.freeOf "Node" = true := rfl
  have hsame := (rewriting_laws namedNode hcontent).2.1 hnone
  exact ⟨hcontent, rfl, hfree, hcommute.trans rfl, hnone, hsame⟩

end ObjectBroker.TypeDesc
