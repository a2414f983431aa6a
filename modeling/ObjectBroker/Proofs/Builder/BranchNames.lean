import ObjectBroker.Proofs.Builder.UnionRuns
import ObjectBroker.Proofs.Types.Substitution

/-!
# `ObjectBroker.Proofs.Builder.BranchNames` — the active branch by its name

A branch is selected by a discriminant and set by its name. Whoever reads the name of the active
branch expects that a value set under this name goes into this branch, and that the discriminant
stays as it was chosen. This is so where the name leads back to the branch: if no branch declared
before it has the same name. Branch names are not among the things that are checked in a union, and
where two branches share a name, the later one can be read under it but never set.

The type of the active branch is handed out with the union in place of its markers. A value that is
assignable to this type is assignable to the type as declared, since a marker admits whatever the
union in its place does.
-/

namespace ObjectBroker

namespace UnionValue

variable {u u' : UnionValue} {name : String} {x y : Dynamic}

/-! ## Names -/

/-- Where names are distinct, each of them leads to the only branch that has it. -/
theorem earlier_ne_of_nodup {branches : List (Branch TypeDesc)} {b : Branch TypeDesc}
    {position : Nat} (hdistinct : (branches.map (·.name)).Nodup)
    (hb : branches[position]? = some b) :
    ∀ earlier ∈ branches.take position, earlier.name ≠ b.name := by
  intro earlier hmem hname
  obtain ⟨j, hj, rfl⟩ := List.mem_take_iff_getElem.1 hmem
  obtain ⟨hi, rfl⟩ := List.getElem?_eq_some_iff.1 hb
  have hsame : (branches.map (·.name))[j]? = (branches.map (·.name))[position]? := by
    rw [List.getElem?_map, List.getElem?_map, List.getElem?_eq_getElem (by omega),
      List.getElem?_eq_getElem hi, Option.map_some, Option.map_some, hname]
  exact List.nodup_iff_getElem?_ne_getElem?.1 hdistinct j position (by omega)
    (by rwa [List.length_map]) hsame

/-- The branch that is held is activated with the discriminant it is held under. -/
theorem discriminantFor_of_held {held : ActiveBranch} (hheld : u.active = some held)
    (b : Branch TypeDesc) : u.discriminantFor held.position b = .ok held.discriminant := by
  have hsame : u.heldIn? held.position = some held :=
    Option.filter_eq_some_iff.2 ⟨hheld, beq_self_eq_true held.position⟩
  simp only [discriminantFor, hsame]

/-! ## The active branch -/

/-- The branch as declared admits what is assignable to its type as handed out. -/
theorem assignableTo_of_active? {held : ActiveBranch} {b : Branch TypeDesc}
    (hheld : u.active = some held) (hb : u.shape.branches[held.position]? = some b)
    (hactive : u.active? = some (name, y)) (h : x.type.assignableTo y.type = true) :
    x.type.assignableTo b.type = true := by
  obtain ⟨held', b', hheld', hb', -, rfl⟩ := exists_of_active?_eq_some hactive
  obtain rfl : held = held' := Option.some.inj (hheld.symm.trans hheld')
  obtain rfl : b = b' := Option.some.inj (hb.symm.trans hb')
  have hdefines : u.shape.desc.defines u.shape.name = true := beq_self_eq_true u.shape.name
  exact TypeDesc.assignableTo_of_substitute hdefines h

/-- **A branch name designates the active branch** exactly if no branch before it has the same name.
    Take a union with an active branch, and a value that is assignable to the type of this branch,
    as handed out or as declared. Then setting the value under the name of the active branch
    succeeds, keeps the discriminant and the branch, and stores the value, if and only if no branch
    declared earlier has this name. So it does in every union whose branches have different names,
    and the value is what is then read under the name. -/
theorem set_keeps_active_iff {held : ActiveBranch} (hheld : u.active = some held)
    (hactive : u.active? = some (name, y))
    (hx : x.type.assignableTo y.type = true ∨
      x.type.assignableTo (u.branchType held.position) = true) :
    (u.call (.set name x) = (.ok (), { u with active := some { held with value := x.payload } }) ↔
      ∀ earlier ∈ u.shape.branches.take held.position, earlier.name ≠ name) ∧
    ((u.shape.branches.map (·.name)).Nodup →
      ∃ u', u.call (.set name x) = (.ok (), u') ∧ u'.discriminant? = u.discriminant? ∧
        u'.active? = some (name, ⟨y.type, x.payload⟩)) := by
  obtain ⟨held', b, hheld', hb, hname, hy⟩ := exists_of_active?_eq_some hactive
  obtain rfl : held = held' := Option.some.inj (hheld.symm.trans hheld')
  have hassignable : x.type.assignableTo b.type = true := by
    rcases hx with hx | hx
    · exact assignableTo_of_active? hheld hb hactive hx
    · rwa [branchType, hb] at hx
  have hkept : u.call (.set name x)
      = (.ok (), { u with active := some { held with value := x.payload } }) ↔
        ∀ earlier ∈ u.shape.branches.take held.position, earlier.name ≠ name := by
    rw [call_eq_ok_iff, UnionCall.apply, set_eq_ok_iff]
    -- The branch that is set is the first of its name, and it is to be the one that is held.
    constructor
    · rintro ⟨position, b', d, -, -, hearlier, -, -, hsame⟩
      obtain rfl : held.position = position :=
        congrArg ActiveBranch.position (Option.some.inj (congrArg UnionValue.active hsame))
      exact hearlier
    · intro hearlier
      exact ⟨_, b, _, hb, hname, hearlier, hassignable, discriminantFor_of_held hheld b, rfl⟩
  refine ⟨hkept, fun hdistinct => ⟨_, hkept.2 ?earlier, ?discriminant, ?read⟩⟩
  case earlier => exact hname ▸ earlier_ne_of_nodup hdistinct hb
  case discriminant => simp only [discriminant?, hheld, Option.map_some]
  case read =>
    subst hy
    simp only [active?, Option.bind_eq_bind, Option.bind_some, hb]
    rw [hname]
    rfl

/-- A shape by its radius, its number of sides or its name. -/
def shapeType : TypeDesc :=
  .union "Shape" (.scalar .long)
    [⟨[.value 1], "radius", .scalar .double⟩, ⟨[.value 2, .value 3], "sides", .scalar .ushort⟩,
      ⟨[.default], "name", .string⟩]

/-- A shape before any call. -/
def newShape : UnionValue := ⟨shapeType, ⟨"Shape", .scalar .long, _⟩, none, rfl⟩

/-- The second label of the sides stays when a number of sides is set, and the number is read under
    the name it was set under. -/
theorem set_keeps_active_iff_sides :
    let u := newShape.after [.setDiscriminant 3]
    let held : ActiveBranch := ⟨3, 1, .scalar (.ushort 0)⟩
    let four : Dynamic := ⟨.scalar .ushort, .scalar (.ushort 4)⟩
    (newShape.shape.validate = .ok () ∧ u.active = some held ∧
        u.active? = some ("sides", ⟨.scalar .ushort, .scalar (.ushort 0)⟩) ∧
        four.type.assignableTo (.scalar .ushort) = true) ∧
      u.call (.set "sides" four)
        = (.ok (), { u with active := some ⟨3, 1, .scalar (.ushort 4)⟩ }) ∧
      ∃ u', u.call (.set "sides" four) = (.ok (), u') ∧ u'.discriminant? = some 3 ∧
        u'.active? = some ("sides", four) := by
  intro u held four
  have hheld : u.active = some held := rfl
  have hactive : u.active? = some ("sides", ⟨.scalar .ushort, .scalar (.ushort 0)⟩) := rfl
  have hassignable : four.type.assignableTo (.scalar .ushort) = true := by decide
  obtain ⟨hkept, hdistinct⟩ := set_keeps_active_iff hheld hactive (.inl hassignable)
  exact ⟨⟨by decide, hheld, hactive, hassignable⟩, hkept.2 (by decide), hdistinct (by decide)⟩

/-- A side on the left or on the right, as the same name tells. -/
def sideType : TypeDesc :=
  .union "Side" (.scalar .long)
    [⟨[.value 1], "length", .scalar .octet⟩, ⟨[.value 2], "length", .scalar .octet⟩]

/-- A side before any call. -/
def newSide : UnionValue := ⟨sideType, ⟨"Side", .scalar .long, _⟩, none, rfl⟩

/-- The union passes its checks, its second branch is active under its name, and a value of the type
    of this branch set under this name goes into the first branch and changes the discriminant. -/
theorem namesake_set_instead :
    ∃ (u : UnionValue) (x : Dynamic), newSide.shape.validate = .ok () ∧
      newSide.call (.setDiscriminant 2) = (.ok (), u) ∧ u.discriminant? = some 2 ∧
      u.active? = some ("length", ⟨.scalar .octet, .scalar (.octet 0)⟩) ∧
      x.type.assignableTo (.scalar .octet) = true ∧
      (u.call (.set "length" x)).1 = .ok () ∧
      (u.call (.set "length" x)).2.discriminant? = some 1 :=
  ⟨_, ⟨.scalar .octet, .scalar (.octet 5)⟩, by decide, rfl, rfl, rfl, by decide, rfl, rfl⟩

end UnionValue

end ObjectBroker
