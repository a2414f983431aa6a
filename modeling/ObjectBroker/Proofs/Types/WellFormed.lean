import ObjectBroker.Types.Checked

/-!
# `ObjectBroker.Proofs.Types.WellFormed` — descriptions as a whole

The checks on a description concern one node. What a peer may rely on concerns the whole tree: every
node has passed its checks, every marker has something to stand for, and the tree is no deeper than
some limit. These are the properties that the type code and the values of a type are proved under.
-/

namespace ObjectBroker

namespace TypeDesc

/-! ## Properties of every node -/

mutual
/-- Whether every node of the description has a property. -/
def everyNode (p : TypeDesc → Bool) : TypeDesc → Bool
  | .struct name members => p (.struct name members) && everyMember p members
  | .union name discriminant branches =>
    p (.union name discriminant branches) && everyNode p discriminant && everyBranch p branches
  | .sequence element bound => p (.sequence element bound) && everyNode p element
  | .array element length => p (.array element length) && everyNode p element
  | .typedef name underlying => p (.typedef name underlying) && everyNode p underlying
  | .null => p .null
  | .scalar kind => p (.scalar kind)
  | .string => p .string
  | .wstring => p .wstring
  | .any => p .any
  | .enum name enumerators => p (.enum name enumerators)
  | .objectRef interface => p (.objectRef interface)
  | .recursive name => p (.recursive name)
/-- Whether every node of every member type has a property. -/
def everyMember (p : TypeDesc → Bool) : List (Member TypeDesc) → Bool
  | [] => true
  | m :: ms => everyNode p m.type && everyMember p ms
/-- Whether every node of every branch type has a property. -/
def everyBranch (p : TypeDesc → Bool) : List (Branch TypeDesc) → Bool
  | [] => true
  | b :: bs => everyNode p b.type && everyBranch p bs
end

theorem everyMember_eq_all (p : TypeDesc → Bool) (ms : List (Member TypeDesc)) :
    everyMember p ms = ms.all fun m => everyNode p m.type := by
  induction ms with
  | nil => rfl
  | cons m ms ih => exact congrArg (everyNode p m.type && ·) ih

theorem everyBranch_eq_all (p : TypeDesc → Bool) (bs : List (Branch TypeDesc)) :
    everyBranch p bs = bs.all fun b => everyNode p b.type := by
  induction bs with
  | nil => rfl
  | cons b bs ih => exact congrArg (everyNode p b.type && ·) ih

/-- Every node is the outermost node, too. -/
theorem self_of_everyNode {p : TypeDesc → Bool} {t : TypeDesc} (h : everyNode p t = true) :
    p t = true := by
  cases t <;> simp only [everyNode, Bool.and_eq_true] at h <;> simp only [h]

theorem everyNode_struct_iff {p : TypeDesc → Bool} {name : String}
    {members : List (Member TypeDesc)} :
    everyNode p (struct name members) = true ↔
      p (struct name members) = true ∧ ∀ m ∈ members, everyNode p m.type = true := by
  show (p (struct name members) && everyMember p members) = true ↔ _
  rw [everyMember_eq_all, Bool.and_eq_true, List.all_eq_true]

theorem everyNode_union_iff {p : TypeDesc → Bool} {name : String} {discriminant : TypeDesc}
    {branches : List (Branch TypeDesc)} :
    everyNode p (union name discriminant branches) = true ↔
      p (union name discriminant branches) = true ∧ everyNode p discriminant = true ∧
        ∀ b ∈ branches, everyNode p b.type = true := by
  show (p (union name discriminant branches) && everyNode p discriminant &&
    everyBranch p branches) = true ↔ _
  rw [everyBranch_eq_all, Bool.and_eq_true, Bool.and_eq_true, List.all_eq_true, and_assoc]

/-- A property of every node that implies another one. -/
theorem everyNode_mono {p q : TypeDesc → Bool} (himp : ∀ t, p t = true → q t = true)
    {t : TypeDesc} (h : everyNode p t = true) : everyNode q t = true := by
  induction t with
  | struct name members ih =>
    rw [everyNode_struct_iff] at h ⊢
    exact ⟨himp _ h.1, fun m hm => ih m hm (h.2 m hm)⟩
  | union name discriminant branches ihd ihb =>
    rw [everyNode_union_iff] at h ⊢
    exact ⟨himp _ h.1, ihd h.2.1, fun b hb => ihb b hb (h.2.2 b hb)⟩
  | sequence _ _ ih | array _ _ ih | typedef _ _ ih =>
    simp only [everyNode, Bool.and_eq_true] at h ⊢
    exact ⟨himp _ h.1, ih h.2⟩
  | _ => exact himp _ h

/-- What holds of every node still does behind the `typedef` names. -/
theorem everyNode_resolve {p : TypeDesc → Bool} {t : TypeDesc} (h : everyNode p t = true) :
    everyNode p t.resolve = true := by
  induction t with
  | typedef name underlying ih =>
    simp only [everyNode, Bool.and_eq_true] at h
    exact ih h.2
  | _ => exact h

/-- Every node has passed its checks, as if each had been built by a checked constructor. -/
def wellFormed (t : TypeDesc) : Bool :=
  t.everyNode fun node => node.validate.isOk

theorem validate_isOk_iff {t : TypeDesc} : t.validate.isOk = true ↔ t.validate = .ok () := by
  cases t.validate with
  | ok _ => simp [Except.isOk, Except.toBool]
  | error f => simp [Except.isOk, Except.toBool]

theorem wellFormed_struct_iff {name : String} {members : List (Member TypeDesc)} :
    (struct name members).wellFormed = true ↔
      (struct name members).validate = .ok () ∧ ∀ m ∈ members, m.type.wellFormed = true := by
  simp only [wellFormed, everyNode_struct_iff, validate_isOk_iff]

theorem wellFormed_union_iff {name : String} {discriminant : TypeDesc}
    {branches : List (Branch TypeDesc)} :
    (union name discriminant branches).wellFormed = true ↔
      (union name discriminant branches).validate = .ok () ∧
      discriminant.wellFormed = true ∧ ∀ b ∈ branches, b.type.wellFormed = true := by
  simp only [wellFormed, everyNode_union_iff, validate_isOk_iff]

theorem wellFormed_sequence_iff {element : TypeDesc} {bound : Option UInt32} :
    (sequence element bound).wellFormed = true ↔
      (sequence element bound).validate = .ok () ∧ element.wellFormed = true := by
  simp only [wellFormed, everyNode, Bool.and_eq_true, validate_isOk_iff]

/-- Only a bound of zero is not taken as it stands. -/
theorem filter_of_ne_zero {bound : Option UInt32} (h : bound ≠ some 0) :
    bound.filter (· != 0) = bound := by
  cases bound with
  | none => rfl
  | some b =>
    have hb : b ≠ 0 := fun hzero => h (congrArg some hzero)
    simp [Option.filter, hb]

theorem wellFormed_array_iff {element : TypeDesc} {length : UInt32} :
    (array element length).wellFormed = true ↔ element.wellFormed = true :=
  Iff.of_eq (congrArg (· = true) (Bool.true_and _))

theorem wellFormed_typedef_iff {name : String} {underlying : TypeDesc} :
    (typedef name underlying).wellFormed = true ↔ underlying.wellFormed = true :=
  Iff.of_eq (congrArg (· = true) (Bool.true_and _))

/-- Whether every union has passed its checks. -/
def unionsChecked (t : TypeDesc) : Bool :=
  t.everyNode fun
    | .union name discriminant branches => (union name discriminant branches).validate.isOk
    | _ => true

theorem unionsChecked_of_wellFormed {t : TypeDesc} (h : t.wellFormed = true) :
    t.unionsChecked = true := by
  refine everyNode_mono (fun node hnode => ?_) h
  split
  · exact hnode
  · rfl

theorem unionsChecked_struct_iff {name : String} {members : List (Member TypeDesc)} :
    (struct name members).unionsChecked = true ↔ ∀ m ∈ members, m.type.unionsChecked = true := by
  simp only [unionsChecked, everyNode_struct_iff, true_and]

theorem unionsChecked_union_iff {name : String} {discriminant : TypeDesc}
    {branches : List (Branch TypeDesc)} :
    (union name discriminant branches).unionsChecked = true ↔
      (union name discriminant branches).validate = .ok () ∧
      discriminant.unionsChecked = true ∧ ∀ b ∈ branches, b.type.unionsChecked = true := by
  simp only [unionsChecked, everyNode_union_iff, validate_isOk_iff]

theorem unionsChecked_sequence_iff {element : TypeDesc} {bound : Option UInt32} :
    (sequence element bound).unionsChecked = true ↔ element.unionsChecked = true := by
  simp only [unionsChecked, everyNode, Bool.true_and]

theorem unionsChecked_array_iff {element : TypeDesc} {length : UInt32} :
    (array element length).unionsChecked = true ↔ element.unionsChecked = true := by
  simp only [unionsChecked, everyNode, Bool.true_and]

/-! ## Markers -/

mutual
/-- Whether every marker stands for a type around it: a struct or union of the description itself,
    or one of those named. -/
def closedIn (enclosing : List String) : TypeDesc → Bool
  | .recursive name => enclosing.contains name
  | .struct name members => membersClosedIn (name :: enclosing) members
  | .union name discriminant branches =>
    closedIn (name :: enclosing) discriminant && branchesClosedIn (name :: enclosing) branches
  | .sequence element _ | .array element _ => closedIn enclosing element
  | .typedef _ underlying => closedIn enclosing underlying
  | .null | .scalar _ | .string | .wstring | .any | .enum _ _ | .objectRef _ => true
/-- Whether every marker in a member type stands for a type around it. -/
def membersClosedIn (enclosing : List String) : List (Member TypeDesc) → Bool
  | [] => true
  | m :: ms => closedIn enclosing m.type && membersClosedIn enclosing ms
/-- Whether every marker in a branch type stands for a type around it. -/
def branchesClosedIn (enclosing : List String) : List (Branch TypeDesc) → Bool
  | [] => true
  | b :: bs => closedIn enclosing b.type && branchesClosedIn enclosing bs
end

/-- A description that needs no other around it. -/
def closed (t : TypeDesc) : Bool := t.closedIn []

theorem membersClosedIn_eq_all (enclosing : List String) (ms : List (Member TypeDesc)) :
    membersClosedIn enclosing ms = ms.all fun m => closedIn enclosing m.type := by
  induction ms with
  | nil => rfl
  | cons m ms ih => exact congrArg (closedIn enclosing m.type && ·) ih

theorem branchesClosedIn_eq_all (enclosing : List String) (bs : List (Branch TypeDesc)) :
    branchesClosedIn enclosing bs = bs.all fun b => closedIn enclosing b.type := by
  induction bs with
  | nil => rfl
  | cons b bs ih => exact congrArg (closedIn enclosing b.type && ·) ih

theorem closedIn_of_mem_members {enclosing : List String} {name : String}
    {members : List (Member TypeDesc)} {m : Member TypeDesc}
    (h : (struct name members).closedIn enclosing = true) (hm : m ∈ members) :
    m.type.closedIn (name :: enclosing) = true := by
  rw [closedIn, membersClosedIn_eq_all, List.all_eq_true] at h
  exact h m hm

theorem closedIn_of_mem_branches {enclosing : List String} {name : String}
    {discriminant : TypeDesc} {branches : List (Branch TypeDesc)} {b : Branch TypeDesc}
    (h : (union name discriminant branches).closedIn enclosing = true) (hb : b ∈ branches) :
    b.type.closedIn (name :: enclosing) = true := by
  rw [closedIn, branchesClosedIn_eq_all, Bool.and_eq_true, List.all_eq_true] at h
  exact h.2 b hb

/-- More types around a description leave it closed. -/
theorem closedIn_mono {t : TypeDesc} {enclosing enclosing' : List String}
    (hsub : enclosing ⊆ enclosing') (h : t.closedIn enclosing = true) :
    t.closedIn enclosing' = true := by
  induction t generalizing enclosing enclosing' with
  | recursive name =>
    simp only [closedIn, List.contains_iff_mem] at h ⊢
    exact hsub h
  | struct name members ih =>
    simp only [closedIn, membersClosedIn_eq_all, List.all_eq_true] at h ⊢
    intro m hm
    exact ih m hm (List.cons_subset_cons name hsub) (h m hm)
  | union name discriminant branches ihd ihb =>
    simp only [closedIn, branchesClosedIn_eq_all, Bool.and_eq_true, List.all_eq_true] at h ⊢
    refine ⟨ihd (List.cons_subset_cons name hsub) h.1, ?_⟩
    intro b hb
    exact ihb b hb (List.cons_subset_cons name hsub) (h.2 b hb)
  | sequence element bound ih => exact ih hsub h
  | array element length ih => exact ih hsub h
  | typedef name underlying ih => exact ih hsub h
  | _ => rfl

@[simp] theorem closedIn_resolve (t : TypeDesc) (enclosing : List String) :
    t.resolve.closedIn enclosing = t.closedIn enclosing := by
  induction t with
  | typedef name underlying ih => exact ih
  | _ => rfl

/-! ## Depth -/

mutual
/-- Number of levels below the outermost node. -/
def nesting : TypeDesc → Nat
  | .struct _ members => membersNesting members
  | .union _ discriminant branches => max (nesting discriminant + 1) (branchesNesting branches)
  | .sequence element _ | .array element _ => nesting element + 1
  | .typedef _ underlying => nesting underlying + 1
  | .null | .scalar _ | .string | .wstring | .any | .enum _ _ | .objectRef _ | .recursive _ => 0
/-- Number of levels taken by the deepest member, none without members. -/
def membersNesting : List (Member TypeDesc) → Nat
  | [] => 0
  | m :: ms => max (nesting m.type + 1) (membersNesting ms)
/-- Number of levels taken by the deepest branch, none without branches. -/
def branchesNesting : List (Branch TypeDesc) → Nat
  | [] => 0
  | b :: bs => max (nesting b.type + 1) (branchesNesting bs)
end

theorem nesting_lt_of_mem_members {m : Member TypeDesc} {ms : List (Member TypeDesc)}
    (h : m ∈ ms) : m.type.nesting < membersNesting ms := by
  induction ms with
  | nil => cases h
  | cons first ms ih =>
    rcases List.mem_cons.1 h with rfl | h
    · simp only [membersNesting]
      omega
    · have := ih h
      simp only [membersNesting]
      omega

theorem nesting_lt_of_mem_branches {b : Branch TypeDesc} {bs : List (Branch TypeDesc)}
    (h : b ∈ bs) : b.type.nesting < branchesNesting bs := by
  induction bs with
  | nil => cases h
  | cons first bs ih =>
    rcases List.mem_cons.1 h with rfl | h
    · simp only [branchesNesting]
      omega
    · have := ih h
      simp only [branchesNesting]
      omega

end TypeDesc

/-! ## Ordinals as discriminants -/

/-- Whether every discriminant of the union fits the form it is sent in. Only the ordinals of an
    enum of more than 2^32 enumerators do not. -/
def UnionType.ordinalsFit (u : UnionType) : Bool :=
  match u.discriminant.resolve with
  | .enum _ enumerators => enumerators.length ≤ UInt32.size
  | _ => true

/-- Whether every discriminant of every union in the description fits the form it is sent in. -/
def TypeDesc.ordinalsFit (t : TypeDesc) : Bool :=
  t.everyNode fun
    | .union name discriminant branches => UnionType.ordinalsFit ⟨name, discriminant, branches⟩
    | _ => true

namespace TypeDesc

theorem ordinalsFit_struct_iff {name : String} {members : List (Member TypeDesc)} :
    (struct name members).ordinalsFit = true ↔ ∀ m ∈ members, m.type.ordinalsFit = true := by
  simp only [ordinalsFit, everyNode_struct_iff, true_and]

theorem ordinalsFit_union_iff {name : String} {discriminant : TypeDesc}
    {branches : List (Branch TypeDesc)} :
    (union name discriminant branches).ordinalsFit = true ↔
      UnionType.ordinalsFit ⟨name, discriminant, branches⟩ = true ∧
      discriminant.ordinalsFit = true ∧ ∀ b ∈ branches, b.type.ordinalsFit = true := by
  simp only [ordinalsFit, everyNode_union_iff]

end TypeDesc

end ObjectBroker
