import ObjectBroker.Proofs.Builder.Conformance
import ObjectBroker.Proofs.Values.Substitution

/-!
# `ObjectBroker.Proofs.Builder.Parts` — a part is as valid as the whole

A member of a struct, or the active branch of a union, is handed out as a value of its own. Its type
is made for the occasion: markers of the struct or union in it are replaced by the struct or union
itself. The value was checked as a part, with the definition around it, and nothing checks it again
when it is taken out. So it has to be known that the value conforms to the type made for it.

It does where no marker can be taken for one of another definition. If a struct contains another
struct of its own name, and a marker leads from inside that one to something around it, the check of
the whole finds the inner struct where the part has the outer one, and the part may have a value that
does not conform to its type.
-/

namespace ObjectBroker

/-! ## Members of a struct -/

namespace StructValue

variable {s : StructValue} {x y : Dynamic} {name : String}

/-- A struct comes back from the value it is. -/
theorem ofDynamic_toDynamic (s : StructValue) : ofDynamic s.toDynamic = .ok s := by
  unfold ofDynamic
  split
  · rename_i shape fields hshape hfields
    obtain rfl : s.shape = shape := Option.some.inj (s.isStruct.symm.trans hshape)
    obtain rfl : s.fields = fields := Payload.struct.inj hfields
    rw [dif_pos s.complete]
    rfl
  · rename_i hother
    exact absurd rfl (hother s.shape s.fields s.isStruct)

/-- A conforming value of a struct type is one as a builder, and is the same value again. -/
theorem exists_ofDynamic {shape : StructType} (hx : x.conforming = true)
    (hshape : x.type.struct? = some shape) :
    ∃ s, ofDynamic x = .ok s ∧ s.shape = shape ∧ s.toDynamic = x := by
  obtain ⟨type, payload⟩ := x
  have hs : type.shape? [] = some shape.desc := by
    rw [TypeDesc.shape?, TypeDesc.struct?_eq_some_iff.1 hshape]
    rfl
  unfold Dynamic.conforming at hx
  cases payload with
  | struct fields =>
    simp only [Payload.conforms, hs, StructType.desc] at hx
    have hlength := (Payload.conformsMembers_length hx).symm
    exact ⟨_, ofDynamic_toDynamic ⟨type, shape, fields, hshape, hlength⟩, rfl, rfl⟩
  | _ => simp [Payload.conforms, hs, StructType.desc] at hx

/-- What `get` does once it succeeds: it hands out a field under the type of its member. -/
theorem exists_of_get_eq_ok (h : s.get name = .ok y) :
    ∃ (i : Nat) (m : Member TypeDesc) (field : Payload), s.shape.members[i]? = some m ∧
      m.name = name ∧ s.fields[i]? = some field ∧
      y = ⟨m.type.substitute s.shape.name s.shape.desc, field⟩ := by
  obtain ⟨i, hindex, h⟩ := Except.bind_eq_ok_iff.1 h
  obtain ⟨m, hm, hname, htype⟩ := exists_of_memberIndex_eq_ok hindex
  obtain ⟨hi, -⟩ := List.getElem?_eq_some_iff.1 hm
  have hlength : i < s.fields.length := s.complete ▸ hi
  have hfield : s.fields[i]? = some s.fields[i] := List.getElem?_eq_getElem hlength
  refine ⟨i, m, _, hm, hname, hfield, ?_⟩
  rw [← Except.ok.inj h, htype, List.getD_eq_getElem?_getD, hfield, Option.getD_some]

/-- A member that the type declares can be read. -/
theorem exists_get (h : ∃ m ∈ s.shape.members, m.name = name) : ∃ y, s.get name = .ok y := by
  obtain ⟨m, hm, hname⟩ := h
  have hindex : (s.shape.memberIndex? name).isSome = true := by
    rw [StructType.memberIndex?, List.findIdx?_isSome, List.any_eq_true]
    exact ⟨m, hm, beq_iff_eq.2 hname⟩
  obtain ⟨i, hi⟩ := Option.isSome_iff_exists.1 hindex
  unfold get memberIndex
  rw [hi]
  exact ⟨_, rfl⟩

/-- **Members.** What is read from a conforming struct conforms to the type it is read under. -/
theorem conforming_get (hs : s.toDynamic.conforming = true) (hclosed : s.type.closed = true)
    (hnames : s.type.Unambiguous) (h : s.get name = .ok y) :
    y.conforming = true ∧ y.type.closed = true ∧ (s.type.Agrees s.type → y.type.Agrees y.type) := by
  obtain ⟨i, m, field, hm, -, hfield, rfl⟩ := exists_of_get_eq_ok h
  have hpart : TypeDesc.PartOf m.type s.shape.desc s.shape.name :=
    .member (List.mem_of_getElem? hm)
  have hconforms := conforming_iff.1 hs i m field hm hfield
  exact hpart.conforming (TypeDesc.struct?_eq_some_iff.1 s.isStruct) hclosed hnames hconforms

end StructValue

/-! ## The active branch of a union -/

namespace UnionValue

variable {u : UnionValue} {x y : Dynamic} {name : String}

theorem new_eq_ok {type : TypeDesc} {shape : UnionType} (h : type.union? = some shape) :
    new type = .ok ⟨type, shape, none, h⟩ := by
  unfold new
  split
  · rename_i shape' hshape
    obtain rfl : shape = shape' := Option.some.inj (h.symm.trans hshape)
    rfl
  · rename_i hnone
    cases h.symm.trans hnone

/-- A union comes back from the value it is, with the branch its discriminant selects. -/
theorem ofDynamic_of_toDynamic (hu : u.Coherent) (h : u.toDynamic = .ok x) :
    ofDynamic x = .ok u := by
  obtain ⟨type, shape, active, hshape⟩ := u
  cases active with
  | none => cases h
  | some held =>
    obtain rfl : ⟨type, .union held.discriminant held.value⟩ = x := Except.ok.inj h
    have hposition : shape.select? held.discriminant = some held.position := hu held rfl
    simp only [ofDynamic, new_eq_ok hshape, bind, Except.bind, hposition]
    rfl

/-- A conforming value of a union type is one as a builder, and is the same value again. -/
theorem exists_ofDynamic {shape : UnionType} (hx : x.conforming = true)
    (hshape : x.type.union? = some shape) :
    ∃ u, ofDynamic x = .ok u ∧ u.shape = shape ∧ u.toDynamic = .ok x := by
  obtain ⟨type, payload⟩ := x
  have hs : type.shape? [] = some shape.desc := by
    rw [TypeDesc.shape?, TypeDesc.union?_eq_some_iff.1 hshape]
    rfl
  unfold Dynamic.conforming at hx
  cases payload with
  | union d value =>
    have hselected : (shape.select? d).isSome = true := by
      rw [← UnionType.selected?_isSome_iff]
      simp only [Payload.conforms, hs, UnionType.desc] at hx
      split at hx
      · rename_i hb
        rw [hb]
        rfl
      · cases hx
    obtain ⟨position, hposition⟩ := Option.isSome_iff_exists.1 hselected
    let u : UnionValue := ⟨type, shape, some ⟨d, position, value⟩, hshape⟩
    have hcoherent : u.Coherent := by
      rintro held ⟨⟩
      exact hposition
    exact ⟨u, ofDynamic_of_toDynamic hcoherent rfl, rfl, rfl⟩
  | _ => simp [Payload.conforms, hs, UnionType.desc] at hx

theorem type_of_toDynamic (h : u.toDynamic = .ok x) : u.type = x.type := by
  unfold toDynamic at h
  split at h
  · cases h
    rfl
  · cases h

/-- What the active branch is: the value that is held, under the type of its branch. -/
theorem exists_of_active?_eq_some (h : u.active? = some (name, y)) :
    ∃ held b, u.active = some held ∧ u.shape.branches[held.position]? = some b ∧ b.name = name ∧
      y = ⟨b.type.substitute u.shape.name u.shape.desc, held.value⟩ := by
  obtain ⟨held, hheld, h⟩ := Option.bind_eq_some_iff.1 h
  obtain ⟨b, hb, h⟩ := Option.bind_eq_some_iff.1 h
  obtain ⟨hname, hy⟩ := Prod.mk.inj (Option.some.inj h)
  exact ⟨held, b, hheld, hb, hname, hy.symm⟩

/-- A union that holds a value has an active branch. -/
theorem exists_active? (hu : u.Coherent) (h : u.toDynamic = .ok x) :
    ∃ name y, u.active? = some (name, y) := by
  unfold toDynamic at h
  split at h
  · rename_i held hheld
    have hselected : (u.shape.selected? held.discriminant).isSome = true := by
      rw [UnionType.selected?_isSome_iff, hu held hheld]
      rfl
    rw [UnionType.selected?, hu held hheld, Option.bind_some] at hselected
    obtain ⟨b, hb⟩ := Option.isSome_iff_exists.1 hselected
    refine ⟨b.name, ⟨b.type.substitute u.shape.name u.shape.desc, held.value⟩, ?_⟩
    simp only [active?, hheld, Option.bind_eq_bind, Option.bind_some, hb]
    rfl
  · cases h

/-- **Branches.** What is read from a conforming union conforms to the type it is read under. -/
theorem conforming_active? (hu : u.Coherent) (hdynamic : u.toDynamic = .ok x)
    (hx : x.conforming = true) (hclosed : u.type.closed = true) (hnames : u.type.Unambiguous)
    (h : u.active? = some (name, y)) :
    y.conforming = true ∧ y.type.closed = true ∧ (u.type.Agrees u.type → y.type.Agrees y.type) := by
  obtain ⟨held, b, hheld, hb, -, rfl⟩ := exists_of_active?_eq_some h
  have hpart : TypeDesc.PartOf b.type u.shape.desc u.shape.name := .branch (List.mem_of_getElem? hb)
  have hconforms := (conforming_set_iff hu hheld hb).1 ⟨x, hdynamic, hx⟩
  exact hpart.conforming (TypeDesc.union?_eq_some_iff.1 u.isUnion) hclosed hnames hconforms

end UnionValue

/-! ## Parts of a value -/

/-- **Parts.** Take a type without markers for nothing, in which every struct or union that has the
    name of the type itself is closed, or in which equal names mean equal definitions. A value that is
    accepted for it can be had as a struct or union, the same value again. Each member of the struct,
    and the active branch of the union, can be read, and what is read conforms to the type it is read
    under. That type again has no markers for nothing, and keeps it up that equal names mean equal
    definitions, so that parts can be taken of the part. -/
theorem conforming_of_taken {t : TypeDesc} {p : Payload} {x : Dynamic} (hclosed : t.closed = true)
    (hnames : t.Unambiguous) (hx : Dynamic.ofPayload t p = .ok x) :
    (∀ shape, t.struct? = some shape → ∃ s, StructValue.ofDynamic x = .ok s ∧ s.toDynamic = x ∧
        (∀ m ∈ shape.members, ∃ y, s.get m.name = .ok y) ∧
        ∀ name y, s.get name = .ok y →
          y.conforming = true ∧ y.type.closed = true ∧ (t.Agrees t → y.type.Agrees y.type)) ∧
      ∀ shape, t.union? = some shape → ∃ u, UnionValue.ofDynamic x = .ok u ∧ u.toDynamic = .ok x ∧
        ∃ name y, u.active? = some (name, y) ∧
          y.conforming = true ∧ y.type.closed = true ∧ (t.Agrees t → y.type.Agrees y.type) := by
  obtain ⟨hp, rfl⟩ := Dynamic.ofPayload_eq_ok_iff.1 hx
  constructor
  · intro shape hshape
    obtain ⟨s, hs, rfl, hdynamic⟩ := StructValue.exists_ofDynamic (x := ⟨t, p⟩) hp hshape
    obtain rfl : s.type = t := congrArg Dynamic.type hdynamic
    have hconforming : s.toDynamic.conforming = true := hdynamic ▸ hp
    refine ⟨s, hs, hdynamic, fun m hm => StructValue.exists_get ⟨m, hm, rfl⟩, ?_⟩
    exact fun name y hy => StructValue.conforming_get hconforming hclosed hnames hy
  · intro shape hshape
    obtain ⟨u, hu, rfl, hdynamic⟩ := UnionValue.exists_ofDynamic (x := ⟨t, p⟩) hp hshape
    have hcoherent := UnionValue.coherent_ofDynamic hu
    obtain ⟨name, y, hy⟩ := UnionValue.exists_active? hcoherent hdynamic
    obtain rfl : u.type = t := UnionValue.type_of_toDynamic hdynamic
    exact ⟨u, hu, hdynamic, name, y, hy,
      UnionValue.conforming_active? hcoherent hdynamic hp hclosed hnames hy⟩

/-- A folder with a size, and with an index of the folders in it. -/
def folder : TypeDesc :=
  .struct "Folder"
    [⟨"index", .struct "Index" [⟨"entries", .sequence (.recursive "Folder") none⟩]⟩,
      ⟨"size", .scalar .long⟩]

/-- A folder in a folder. -/
def nestedFolders : Payload :=
  .struct [.struct [.sequence [.struct [.struct [.sequence []], .scalar (.long 1)]]],
    .scalar (.long 2)]

/-- The index of a folder is a value of its own, with the type of folders in its type. -/
theorem conforming_of_taken_folder :
    ∃ (s : StructValue) (y : Dynamic),
      (folder.closed = true ∧ folder.Unambiguous ∧
        Dynamic.ofPayload folder nestedFolders = .ok ⟨folder, nestedFolders⟩) ∧
      StructValue.ofDynamic ⟨folder, nestedFolders⟩ = .ok s ∧ s.get "index" = .ok y ∧
      y.type = .struct "Index" [⟨"entries", .sequence folder none⟩] ∧
      y.conforming = true ∧ y.type.closed = true ∧ y.type.Agrees y.type := by
  have hclosed : folder.closed = true := by decide
  have hnames : folder.Unambiguous := by decide
  have hvalue : Dynamic.ofPayload folder nestedFolders = .ok ⟨folder, nestedFolders⟩ := by rfl
  obtain ⟨s, hs, -, -, hget⟩ := (conforming_of_taken hclosed hnames hvalue).1 _ rfl
  cases hs
  obtain ⟨hconforming, hstands, hagree⟩ := hget "index" _ rfl
  exact ⟨_, _, ⟨hclosed, hnames, hvalue⟩, rfl, rfl, rfl, hconforming, hstands, hagree (by decide)⟩

/-- A struct with a namesake inside, from which a marker leads out to the struct between the two. -/
def crossed : TypeDesc :=
  .struct "A"
    [⟨"x", .struct "B"
      [⟨"y", .sequence
          (.struct "A" [⟨"z", .sequence (.recursive "B") none⟩, ⟨"n", .scalar .long⟩]) none⟩,
        ⟨"w", .sequence (.recursive "A") none⟩]⟩]

/-- A value in which the way from the outer struct to the last one leads through the inner one. -/
def crossedValue : Payload :=
  .struct [.struct [.sequence [.struct
    [.sequence [.struct [.sequence [], .sequence [.struct [.sequence [], .scalar (.long 5)]]]],
      .scalar (.long 1)]], .sequence []]]

/-- The whole is accepted, and its only member does not conform to the type it is read under. -/
theorem accepted_and_part_not_conforming :
    ∃ (s : StructValue) (y : Dynamic),
      (crossed.wellFormed = true ∧ crossed.closed = true ∧
        Dynamic.ofPayload crossed crossedValue = .ok ⟨crossed, crossedValue⟩) ∧
      StructValue.ofDynamic ⟨crossed, crossedValue⟩ = .ok s ∧ s.get "x" = .ok y ∧
      y.conforming = false :=
  ⟨_, _, ⟨by decide, by decide, rfl⟩, rfl, rfl, by decide⟩

end ObjectBroker
