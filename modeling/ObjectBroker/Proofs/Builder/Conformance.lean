import ObjectBroker.Builder.SequenceValue
import ObjectBroker.Builder.StructValue
import ObjectBroker.Builder.UnionValue
import ObjectBroker.Proofs.Values.Assignable

/-!
# `ObjectBroker.Proofs.Builder.Conformance` — what is stored has the declared shape

A builder accepts a value by the name of its type. That keeps the builder in the shape of its own
type only as far as names tell: a value whose type has the name of the declared one and another
definition is accepted as well, and then the builder holds what its type does not describe. Where
definitions of the same name agree nothing of the kind happens.

## Contents
- `exists_of_set_eq_ok`, `exists_of_push_eq_ok`, `exists_of_setDiscriminant_eq_ok`,
  `exists_of_ofDynamic_eq_ok`: what an operation has done once it succeeds;
  `UnionValue.set_eq_ok_iff`: the branch that is set under a name.
- `StructValue.conforming_set_iff`, `SequenceValue.conforming_push_iff`,
  `UnionValue.conforming_set_iff`: all depends on what is stored.
- `UnionValue.Coherent`: the discriminant selects the branch that is held; every operation keeps
  this.
- `StructValue.conforming_set`, `SequenceValue.conforming_push`, `UnionValue.conforming_set`: each
  step keeps the builder in shape where definitions agree; `conforming_of_stored` has all three.
-/

namespace ObjectBroker

/-! ## Structs -/

namespace StructValue

variable {s s' : StructValue} {name : String} {x : Dynamic}

theorem shape?_type (s : StructValue) : s.type.shape? [] = some s.shape.desc := by
  rw [TypeDesc.shape?, TypeDesc.struct?_eq_some_iff.1 s.isStruct]
  rfl

/-- A struct conforms to its type if each field has the shape of its member. -/
theorem conforming_iff : s.toDynamic.conforming = true ↔
    ∀ (i : Nat) (m : Member TypeDesc) (f : Payload), s.shape.members[i]? = some m →
      s.fields[i]? = some f → f.conforms [s.shape.desc] m.type = true := by
  have hlength := s.complete.symm
  simp only [Dynamic.conforming, toDynamic, Payload.conforms, shape?_type, StructType.desc,
    Payload.conformsMembers_iff, hlength, true_and]

/-- The place of a name is that of a member with this name. -/
theorem exists_of_memberIndex_eq_ok {i : Nat} (h : s.memberIndex name = .ok i) :
    ∃ m, s.shape.members[i]? = some m ∧ m.name = name ∧ s.memberType i = m.type := by
  unfold memberIndex at h
  split at h
  · rename_i place hplace
    obtain rfl : place = i := Except.ok.inj h
    obtain ⟨hi, hname, -⟩ := List.findIdx?_eq_some_iff_getElem.1 hplace
    have hm : s.shape.members[place]? = some s.shape.members[place] := List.getElem?_eq_getElem hi
    refine ⟨_, hm, beq_iff_eq.1 hname, ?_⟩
    rw [memberType, hm]
    rfl
  · cases h

/-- What `set` does once it succeeds: one field is replaced. -/
theorem exists_of_set_eq_ok (h : s.set name x = .ok s') :
    ∃ i m field, s.shape.members[i]? = some m ∧ fieldOf m.type x = .ok field ∧
      s'.type = s.type ∧ s'.shape = s.shape ∧ s'.fields = s.fields.set i field := by
  obtain ⟨i, hindex, h⟩ := Except.bind_eq_ok_iff.1 h
  obtain ⟨field, hfield, h⟩ := Except.bind_eq_ok_iff.1 h
  obtain ⟨m, hm, -, htype⟩ := exists_of_memberIndex_eq_ok hindex
  rw [htype] at hfield
  cases h
  exact ⟨i, m, field, hm, hfield, rfl, rfl, rfl⟩

/-- The field is the value itself if its type is assignable, and holds it as a content if the member
    is of type `any`. -/
theorem fieldOf_eq_ok {member : TypeDesc} {field : Payload} (h : fieldOf member x = .ok field) :
    member.resolve = .any ∧ field = x.toAny ∨
      x.type.assignableTo member = true ∧ field = x.payload := by
  unfold fieldOf at h
  split at h
  · rename_i hany
    exact .inl ⟨hany.1, (Except.ok.inj h).symm⟩
  · split at h
    · rename_i hassignable
      exact .inr ⟨hassignable, (Except.ok.inj h).symm⟩
    · cases h

/-- A struct that conforms does so with one field replaced exactly if that field has the shape of
    its member. -/
theorem conforming_set_iff {i : Nat} {m : Member TypeDesc} {field : Payload}
    (hs : s.toDynamic.conforming = true) (hm : s.shape.members[i]? = some m)
    (hshape : s'.shape = s.shape) (hfields : s'.fields = s.fields.set i field) :
    s'.toDynamic.conforming = true ↔ field.conforms [s.shape.desc] m.type = true := by
  rw [conforming_iff] at hs ⊢
  rw [hshape, hfields]
  constructor
  · intro hall
    have hi : i < s.fields.length := by
      rw [s.complete]
      exact (List.getElem?_eq_some_iff.1 hm).1
    exact hall i m field hm (by simp [hi])
  · intro hfield j m' f hm' hf
    by_cases hij : i = j
    · subst hij
      obtain rfl : m = m' := Option.some.inj (hm.symm.trans hm')
      obtain ⟨-, rfl⟩ : i < s.fields.length ∧ field = f := by simpa [List.getElem?_set] using hf
      exact hfield
    · rw [List.getElem?_set_ne hij] at hf
      exact hs j m' f hm' hf

/-- What is stored in a member has the shape of the member where definitions agree. -/
theorem conforms_fieldOf {i : Nat} {m : Member TypeDesc} {field : Payload}
    (hx : x.conforming = true) (hclosed : s.type.closed = true) (hagree : x.type.Agrees s.type)
    (hm : s.shape.members[i]? = some m) (hfield : fieldOf m.type x = .ok field) :
    field.conforms [s.shape.desc] m.type = true := by
  rcases fieldOf_eq_ok hfield with ⟨hany, rfl⟩ | ⟨hassignable, rfl⟩
  · simp [Dynamic.toAny, Payload.conforms, TypeDesc.shape?, hany]
  · have hmem := List.mem_of_getElem? hm
    have hin := ((TypeDesc.Within.self s.type).shape? s.shape?_type).member hmem
    have hanchored := ((TypeDesc.Anchored.self hclosed).shape? s.shape?_type).member hmem
    exact Dynamic.conforms_of_assignableTo hx hagree hin hanchored hassignable

/-- Setting a member keeps a struct in the shape of its type where definitions agree. -/
theorem conforming_set (hx : x.conforming = true) (hclosed : s.type.closed = true)
    (hagree : x.type.Agrees s.type) (hs : s.toDynamic.conforming = true)
    (h : s.set name x = .ok s') : s'.toDynamic.conforming = true := by
  obtain ⟨i, m, field, hm, hfield, -, hshape, hfields⟩ := exists_of_set_eq_ok h
  rw [conforming_set_iff hs hm hshape hfields]
  exact conforms_fieldOf hx hclosed hagree hm hfield

end StructValue

/-! ## Sequences -/

namespace SequenceValue

variable {s s' : SequenceValue} {x : Dynamic}

/-- A sequence conforms to its type if each element has the shape of the element type. -/
theorem conforming_iff : s.toDynamic.conforming = true ↔
    ∀ e ∈ s.elements, e.conforms [] s.element = true := by
  simp only [Dynamic.conforming, toDynamic, type, TypeDesc.sequenceOf, Payload.conforms,
    TypeDesc.shape?, TypeDesc.resolve, Payload.conformsAll_eq_all, List.all_eq_true]

theorem exists_of_push_eq_ok (h : s.push x = .ok s') :
    x.type.assignableTo s.element = true ∧ s'.type = s.type ∧ s'.element = s.element ∧
      s'.elements = s.elements ++ [x.payload] := by
  unfold push at h
  split at h
  · rename_i hassignable
    cases h
    exact ⟨hassignable, rfl, rfl, rfl⟩
  · cases h

/-- A sequence that conforms does so with one element more exactly if that element has the shape of
    the element type. -/
theorem conforming_push_iff {e : Payload} (hs : s.toDynamic.conforming = true)
    (helement : s'.element = s.element) (helements : s'.elements = s.elements ++ [e]) :
    s'.toDynamic.conforming = true ↔ e.conforms [] s.element = true := by
  rw [conforming_iff] at hs ⊢
  rw [helement, helements]
  constructor
  · intro hall
    exact hall e (by simp)
  · intro he e' he'
    rcases List.mem_append.1 he' with he' | he'
    · exact hs e' he'
    · obtain rfl := List.mem_singleton.1 he'
      exact he

/-- What is pushed has the shape of the element type where definitions agree. -/
theorem conforms_of_push (hx : x.conforming = true) (hclosed : s.type.closed = true)
    (hagree : x.type.Agrees s.type) (h : x.type.assignableTo s.element = true) :
    x.payload.conforms [] s.element = true := by
  -- The element type has the definitions and the markers of the sequence type.
  have hin : TypeDesc.Within s.type [] s.element := ⟨List.Subset.refl _, List.nil_subset _⟩
  have hanchored : TypeDesc.Anchored [] s.element := .self hclosed
  exact Dynamic.conforms_of_assignableTo hx hagree hin hanchored h

/-- Pushing keeps a sequence in the shape of its type where definitions agree. -/
theorem conforming_push (hx : x.conforming = true) (hclosed : s.type.closed = true)
    (hagree : x.type.Agrees s.type) (hs : s.toDynamic.conforming = true)
    (h : s.push x = .ok s') : s'.toDynamic.conforming = true := by
  obtain ⟨hassignable, -, helement, helements⟩ := exists_of_push_eq_ok h
  rw [conforming_push_iff hs helement helements]
  exact conforms_of_push hx hclosed hagree hassignable

/-- A sequence built by pushing stays in the shape of its type, by induction on what is pushed. -/
theorem conforming_of_pushes {xs : List Dynamic} (hclosed : s.type.closed = true)
    (hxs : ∀ x ∈ xs, x.conforming = true ∧ x.type.Agrees s.type)
    (hs : s.toDynamic.conforming = true) (h : xs.foldlM push s = .ok s') :
    s'.toDynamic.conforming = true := by
  induction xs generalizing s with
  | nil =>
    obtain rfl : s = s' := Except.ok.inj h
    exact hs
  | cons x xs ih =>
    obtain ⟨hx, hagree⟩ := hxs x (List.mem_cons_self ..)
    rw [List.foldlM_cons, Except.bind_eq_ok_iff] at h
    obtain ⟨next, hpush, h⟩ := h
    have hnext := conforming_push hx hclosed hagree hs hpush
    obtain ⟨-, htype, -, -⟩ := exists_of_push_eq_ok hpush
    refine ih (by rwa [htype]) ?_ hnext h
    intro y hy
    rw [htype]
    exact hxs y (List.mem_cons_of_mem _ hy)

end SequenceValue

/-! ## Unions -/

namespace UnionValue

variable {u u' : UnionValue} {name : String} {x : Dynamic} {d : Int64}

/-- A union whose discriminant selects the branch that is held, if one is held. -/
def Coherent (u : UnionValue) : Prop :=
  ∀ held, u.active = some held → u.shape.select? held.discriminant = some held.position

/-- A new union is of the type and holds nothing. -/
theorem of_new_eq_ok {type : TypeDesc} (h : UnionValue.new type = .ok u) :
    u.type = type ∧ u.active = none := by
  unfold UnionValue.new at h
  split at h
  · cases h
    exact ⟨rfl, rfl⟩
  · cases h

/-- A discriminant is set if it is in range and selects a branch. The branch keeps the value it holds,
    and starts from its zero if it holds none. -/
theorem setDiscriminant_eq_ok_iff : u.setDiscriminant d = .ok u' ↔
    u.shape.inRange d = true ∧ ∃ position, u.shape.select? d = some position ∧
      u' = { u with active := some ⟨d, position,
        ((u.heldIn? position).map (·.value)).getD (u.branchType position).zero⟩ } := by
  unfold setDiscriminant
  cases u.shape.inRange d with
  | false => simp
  | true => cases u.shape.select? d <;> simp [eq_comm]

/-- What a discriminant does once it is set: the branch that it selects is held under it. -/
theorem exists_of_setDiscriminant_eq_ok (h : u.setDiscriminant d = .ok u') :
    ∃ position value, u.shape.select? d = some position ∧
      u' = { u with active := some ⟨d, position, value⟩ } := by
  obtain ⟨-, position, hselect, rfl⟩ := setDiscriminant_eq_ok_iff.1 h
  exact ⟨position, _, hselect, rfl⟩

/-- A union made from a value holds the branch that the discriminant of the value selects. -/
theorem exists_of_ofDynamic_eq_ok (h : UnionValue.ofDynamic x = .ok u) :
    ∃ empty position d value, UnionValue.new x.type = .ok empty ∧
      empty.shape.select? d = some position ∧
      u = { empty with active := some ⟨d, position, value⟩ } := by
  obtain ⟨empty, hnew, h⟩ := Except.bind_eq_ok_iff.1 h
  split at h
  · split at h
    · rename_i position hselect
      cases h
      exact ⟨empty, position, _, _, hnew, hselect, rfl⟩
    · cases h
  · cases h

theorem coherent_new {type : TypeDesc} (h : UnionValue.new type = .ok u) : u.Coherent := by
  intro held hheld
  rw [(of_new_eq_ok h).2] at hheld
  cases hheld

theorem coherent_setDiscriminant (h : u.setDiscriminant d = .ok u') : u'.Coherent := by
  obtain ⟨position, value, hselect, rfl⟩ := exists_of_setDiscriminant_eq_ok h
  rintro held ⟨⟩
  exact hselect

theorem coherent_ofDynamic (h : UnionValue.ofDynamic x = .ok u) : u.Coherent := by
  obtain ⟨empty, position, d, value, -, hselect, rfl⟩ := exists_of_ofDynamic_eq_ok h
  rintro held ⟨⟩
  exact hselect

/-- In a checked table the discriminant with which a branch is activated selects it. -/
theorem select?_of_discriminantFor {position : Nat} {b : Branch TypeDesc}
    (hchecked : u.shape.validate = .ok ()) (hu : u.Coherent)
    (hb : u.shape.branches[position]? = some b) (h : u.discriminantFor position b = .ok d) :
    u.shape.select? d = some position := by
  unfold discriminantFor at h
  split at h
  · rename_i held hheld
    obtain ⟨hactive, hposition⟩ := Option.filter_eq_some_iff.1 hheld
    rw [← Except.ok.inj h, hu held hactive, beq_iff_eq.1 hposition]
  · split at h
    · rename_i hactivation
      rw [← Except.ok.inj h]
      exact UnionType.select?_of_activation? hchecked hb hactivation
    · cases h

/-- A name leads to the first branch that has it. -/
theorem find?_named_eq_some_iff {branches : List (Branch TypeDesc)} {b : Branch TypeDesc}
    {position : Nat} :
    branches.zipIdx.find? (·.1.name == name) = some (b, position) ↔
      branches[position]? = some b ∧ b.name = name ∧
        ∀ earlier ∈ branches.take position, earlier.name ≠ name := by
  simp only [List.find?_eq_some_iff_getElem, List.getElem_zipIdx, List.length_zipIdx, Prod.mk.injEq,
    Nat.zero_add, beq_iff_eq, Bool.not_eq_true', beq_eq_false_iff_ne, List.mem_take_iff_getElem]
  constructor
  · rintro ⟨hname, i, hi, ⟨hb, rfl⟩, hearlier⟩
    refine ⟨List.getElem?_eq_some_iff.2 ⟨hi, hb⟩, hname, ?_⟩
    rintro earlier ⟨j, hj, rfl⟩
    exact hearlier j (by omega)
  · rintro ⟨hb, hname, hearlier⟩
    obtain ⟨hi, hb⟩ := List.getElem?_eq_some_iff.1 hb
    exact ⟨hname, position, hi, ⟨hb, rfl⟩, fun j hj => hearlier _ ⟨j, by omega, rfl⟩⟩

/-- A value is set in the first branch of the name, if its type is assignable to the type of the
    branch and the branch has a discriminant to be activated with. -/
theorem set_eq_ok_iff : u.set name x = .ok u' ↔
    ∃ position b d, u.shape.branches[position]? = some b ∧ b.name = name ∧
      (∀ earlier ∈ u.shape.branches.take position, earlier.name ≠ name) ∧
      x.type.assignableTo b.type = true ∧ u.discriminantFor position b = .ok d ∧
      u' = { u with active := some ⟨d, position, x.payload⟩ } := by
  constructor
  · intro h
    unfold set at h
    split at h
    · cases h
    · rename_i b position hfind
      obtain ⟨hb, hname, hearlier⟩ := find?_named_eq_some_iff.1 hfind
      split at h
      · rename_i hassignable
        obtain ⟨d, hd, h⟩ := Except.bind_eq_ok_iff.1 h
        cases h
        exact ⟨position, b, d, hb, hname, hearlier, hassignable, hd, rfl⟩
      · cases h
  · rintro ⟨position, b, d, hb, hname, hearlier, hassignable, hd, rfl⟩
    have hfind := find?_named_eq_some_iff.2 ⟨hb, hname, hearlier⟩
    simp only [set, hfind, hassignable, hd]
    rfl

/-- What `set` does once it succeeds: the branch is held under a discriminant for it. -/
theorem exists_of_set_eq_ok (h : u.set name x = .ok u') :
    ∃ position b d, u.shape.branches[position]? = some b ∧ x.type.assignableTo b.type = true ∧
      u.discriminantFor position b = .ok d ∧
      u' = { u with active := some ⟨d, position, x.payload⟩ } := by
  obtain ⟨position, b, d, hb, -, -, hassignable, hd, rfl⟩ := set_eq_ok_iff.1 h
  exact ⟨position, b, d, hb, hassignable, hd, rfl⟩

theorem coherent_set (hchecked : u.shape.validate = .ok ()) (hu : u.Coherent)
    (h : u.set name x = .ok u') : u'.Coherent := by
  obtain ⟨position, b, d, hb, -, hd, rfl⟩ := exists_of_set_eq_ok h
  rintro held ⟨⟩
  exact select?_of_discriminantFor (u := u) hchecked hu hb hd

theorem shape?_type (u : UnionValue) : u.type.shape? [] = some u.shape.desc := by
  rw [TypeDesc.shape?, TypeDesc.union?_eq_some_iff.1 u.isUnion]
  rfl

/-- A union that holds a branch conforms to its type exactly if what it holds has the shape of that
    branch. -/
theorem conforming_set_iff {held : ActiveBranch} {b : Branch TypeDesc} (hu : u.Coherent)
    (hheld : u.active = some held) (hb : u.shape.branches[held.position]? = some b) :
    (∃ y, u.toDynamic = .ok y ∧ y.conforming = true) ↔
      held.value.conforms [u.shape.desc] b.type = true := by
  have hselected : u.shape.selected? held.discriminant = some b := by
    rw [UnionType.selected?, hu held hheld, Option.bind_some, hb]
  have hdynamic : u.toDynamic = .ok ⟨u.type, .union held.discriminant held.value⟩ := by
    rw [toDynamic, hheld]
  simp only [hdynamic, Except.ok.injEq, exists_eq_left', Dynamic.conforming, Payload.conforms,
    shape?_type, UnionType.desc, hselected]

/-- What a branch is set to has the shape of the branch where definitions agree. -/
theorem conforms_of_set {position : Nat} {b : Branch TypeDesc} (hx : x.conforming = true)
    (hclosed : u.type.closed = true) (hagree : x.type.Agrees u.type)
    (hb : u.shape.branches[position]? = some b) (h : x.type.assignableTo b.type = true) :
    x.payload.conforms [u.shape.desc] b.type = true := by
  have hmem := List.mem_of_getElem? hb
  have hin := ((TypeDesc.Within.self u.type).shape? u.shape?_type).branch hmem
  have hanchored := ((TypeDesc.Anchored.self hclosed).shape? u.shape?_type).branch hmem
  exact Dynamic.conforms_of_assignableTo hx hagree hin hanchored h

/-- Setting a branch brings a union into the shape of its type, whatever it held before, where
    definitions agree. -/
theorem conforming_set (hx : x.conforming = true) (hclosed : u.type.closed = true)
    (hagree : x.type.Agrees u.type) (hchecked : u.shape.validate = .ok ()) (hu : u.Coherent)
    (h : u.set name x = .ok u') : ∃ y, u'.toDynamic = .ok y ∧ y.conforming = true := by
  have hu' := coherent_set hchecked hu h
  obtain ⟨position, b, d, hb, hassignable, -, rfl⟩ := exists_of_set_eq_ok h
  rw [conforming_set_iff hu' rfl hb]
  exact conforms_of_set hx hclosed hagree hb hassignable

end UnionValue

/-! ## What is stored -/

/-- **What is stored has the declared shape.** A value that conforms to its own type may be stored
    wherever its type is assignable: if definitions of the same name agree between its type and the
    type of the builder, and every marker in the latter stands for something, then the builder still
    conforms to its type. A union comes to conform whatever it held before. -/
theorem conforming_of_stored {x : Dynamic} (hx : x.conforming = true) :
    (∀ (s s' : StructValue) (name : String), s.type.closed = true → x.type.Agrees s.type →
      s.toDynamic.conforming = true → s.set name x = .ok s' →
        s'.toDynamic.conforming = true) ∧
    (∀ s s' : SequenceValue, s.type.closed = true → x.type.Agrees s.type →
      s.toDynamic.conforming = true → s.push x = .ok s' →
        s'.toDynamic.conforming = true) ∧
    (∀ (u u' : UnionValue) (name : String), u.type.closed = true → x.type.Agrees u.type →
      u.shape.validate = .ok () → u.Coherent → u.set name x = .ok u' →
        u'.Coherent ∧ ∃ y, u'.toDynamic = .ok y ∧ y.conforming = true) := by
  refine ⟨?struct, ?sequence, ?union⟩
  case struct =>
    intro s s' name hclosed hagree hs h
    exact StructValue.conforming_set hx hclosed hagree hs h
  case sequence =>
    intro s s' hclosed hagree hs h
    exact SequenceValue.conforming_push hx hclosed hagree hs h
  case union =>
    intro u u' name hclosed hagree hchecked hu h
    exact ⟨UnionValue.coherent_set hchecked hu h,
      UnionValue.conforming_set hx hclosed hagree hchecked hu h⟩

/-! ## Trees of one name -/

/-- A tree whose nodes hold values of some type. -/
def treeOf (value : TypeDesc) : TypeDesc :=
  .struct "Tree" [⟨"value", value⟩, ⟨"children", .sequence (.recursive "Tree") none⟩]

/-- A tree of one node below another. -/
def twoNodes (value : TypeDesc) (upper lower : Payload) : Dynamic :=
  ⟨treeOf value, .struct [upper, .sequence [.struct [lower, .sequence []]]]⟩

/-- A garden with a tree of numbers, which has no children yet. -/
def garden : StructValue :=
  let shape : StructType := ⟨"Garden", [⟨"name", .string⟩, ⟨"tree", treeOf (.scalar .long)⟩]⟩
  ⟨shape.desc, shape, TypeDesc.zeroMembers shape.members, rfl, rfl⟩

/-- A row of trees of numbers, none yet. -/
def row : SequenceValue := SequenceValue.new (treeOf (.scalar .long)) none

/-- A plot for a tree of numbers, with the discriminant for the tree. -/
def plot : UnionValue :=
  let shape : UnionType :=
    ⟨"Plot", .scalar .boolean,
      [⟨[.value 1], "tree", treeOf (.scalar .long)⟩, ⟨[.default], "size", .scalar .long⟩]⟩
  { type := shape.desc
    shape := shape
    active := some ⟨1, 0, (treeOf (.scalar .long)).zero⟩
    isUnion := rfl }

/-- A tree of numbers is stored where one is declared. -/
theorem conforming_of_stored_twoNodes :
    ∃ (x : Dynamic) (s : StructValue) (q : SequenceValue) (u : UnionValue),
      (x = twoNodes (.scalar .long) (.scalar (.long 1)) (.scalar (.long 2)) ∧
        x.conforming = true) ∧
      (garden.set "tree" x = .ok s ∧ s.toDynamic.conforming = true) ∧
      (row.push x = .ok q ∧ q.toDynamic.conforming = true) ∧
      (plot.set "tree" x = .ok u ∧ ∃ y, u.toDynamic = .ok y ∧ y.conforming = true) := by
  have hx : (twoNodes (.scalar .long) (.scalar (.long 1)) (.scalar (.long 2))).conforming = true :=
    by decide
  have hplot : plot.Coherent := by
    rintro held ⟨⟩
    decide
  obtain ⟨hstruct, hsequence, hunion⟩ := conforming_of_stored hx
  refine ⟨_, _, _, _, ⟨rfl, hx⟩, ⟨rfl, ?_⟩, ⟨rfl, ?_⟩, ⟨rfl, ?_⟩⟩
  · exact hstruct garden _ "tree" (by decide) (by decide) (by decide) rfl
  · exact hsequence row _ (by decide) (by decide) (by decide) rfl
  · exact (hunion plot _ "tree" (by decide) (by decide) rfl hplot rfl).2

/-- A tree of texts is stored where a tree of numbers is declared: by name the types are the same,
    and the builder does not conform to its type any more. -/
theorem stored_and_not_conforming :
    ∃ (x : Dynamic) (s : StructValue) (q : SequenceValue) (u : UnionValue) (y y' : Dynamic),
      (x = twoNodes .string (.string "a") (.string "b") ∧ x.conforming = true) ∧
      (garden.toDynamic.conforming = true ∧
        garden.set "tree" x = .ok s ∧ s.toDynamic.conforming = false) ∧
      (row.toDynamic.conforming = true ∧
        row.push x = .ok q ∧ q.toDynamic.conforming = false) ∧
      (plot.toDynamic = .ok y ∧ y.conforming = true ∧
        plot.set "tree" x = .ok u ∧ u.toDynamic = .ok y' ∧ y'.conforming = false) := by
  refine ⟨_, _, _, _, _, _, ⟨rfl, ?_⟩, ⟨?_, rfl, ?_⟩, ⟨?_, rfl, ?_⟩, ⟨rfl, ?_, rfl, rfl, ?_⟩⟩ <;>
    decide

end ObjectBroker
