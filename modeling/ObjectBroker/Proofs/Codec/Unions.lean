import ObjectBroker.Proofs.Codec.Discriminant
import ObjectBroker.Proofs.Codec.Faults
import ObjectBroker.Proofs.Codec.Soundness
import ObjectBroker.Proofs.TypeCode.Soundness
import ObjectBroker.Proofs.Types.BranchTable
import ObjectBroker.Proofs.Values.Unions
import ObjectBroker.Proofs.Wire.Faults

/-!
# `ObjectBroker.Proofs.Codec.Unions` — the unions that are read, and written again

A writer of a union holds the discriminant against the range of its type before it selects a branch.
A reader has no such check: what it reads is in range because the number on the wire is as wide as
the type. That is so for every type but an enum, whose ordinals are sent in 32 bits however few
there are. A number that belongs to no enumerator has no label either, so without a default branch
it selects nothing; with one, it is read as a stray discriminant.

A value without stray discriminants can be written again as far as its unions are concerned: no
writer, under whatever parameters, then meets a discriminant it does not know.

## Contents
- `inRange_of_discriminant`: what is read under a scalar type is in its range.
- `UnionType.isStray`, `UnionType.arrives`, `UnionType.departs`: one union, read and written.
- `arrives_alternative`, `arrives_node`, `arrives_decode`: every union that is read.
- `failsWith_node`, `failsWith_encode`: the faults of writing.
- `unions_of_readValue`: the main result.
-/

namespace ObjectBroker

/-! ## Discriminants that are read -/

/-- A number far below 2^63 is not negative as a signed one. -/
theorem toInt_bounds_of_toNat_le {v : UInt64} {bound : Nat} (h : v.toNat ≤ bound)
    (hbound : bound < 0x8000000000000000) :
    0 ≤ v.toInt64.toInt ∧ v.toInt64.toInt ≤ bound := by
  have hsame : v.toInt64.toInt = v.toNat := by
    show v.toBitVec.toInt = v.toBitVec.toNat
    refine BitVec.toInt_eq_toNat_of_lt ?_
    show 2 * v.toNat < 0x10000000000000000
    omega
  omega

theorem val_le_of_char {start stop : Cursor} {c : Char} (h : Read.char start = .ok c stop) :
    c.val.toNat ≤ 0xFF := by
  obtain ⟨octet, -, rfl⟩ := Read.map_eq_ok_iff.1 h
  have hoctet : (Latin1.decode octet).val.toNat = octet.toNat := Latin1.toNat_decode octet
  have hlt := octet.toNat_lt
  omega

theorem val_le_of_isValidChar (c : Char) : c.val.toNat ≤ 0x10FFFF := by
  have hvalid : c.val.toNat < 0xD800 ∨ 0xDFFF < c.val.toNat ∧ c.val.toNat < 0x110000 := c.valid
  omega

/-- A discriminant that is read under a scalar type is in the range of that type. -/
theorem inRange_of_discriminant {s : Settings} {u : UnionType} {kind : Scalar} {d : Int64}
    {start stop : Cursor} (hu : u.discriminant.resolve = .scalar kind)
    (h : Decode.discriminant s u.discriminant start = .ok d stop) : u.inRange d = true := by
  have hrange : u.labelRange? = kind.labelRange? := by rw [UnionType.labelRange?, hu]
  unfold Decode.discriminant at h
  rw [hu] at h
  rw [UnionType.inRange, hrange]
  cases kind with
  | boolean =>
    obtain ⟨v, -, rfl⟩ := Read.map_eq_ok_iff.1 h
    cases v <;> rfl
  | octet =>
    obtain ⟨v, -, rfl⟩ := Read.map_eq_ok_iff.1 h
    have hv : v.toUInt64.toNat ≤ 0xFF := by
      have := v.toNat_lt
      rw [UInt8.toNat_toUInt64]
      omega
    exact LabelRange.contains_eq_true_iff.2 (toInt_bounds_of_toNat_le hv (by decide))
  | char =>
    obtain ⟨c, hc, rfl⟩ := Read.map_eq_ok_iff.1 h
    have hv : c.val.toUInt64.toNat ≤ 0xFF := by
      rw [UInt32.toNat_toUInt64]
      exact val_le_of_char hc
    exact LabelRange.contains_eq_true_iff.2 (toInt_bounds_of_toNat_le hv (by decide))
  | wchar =>
    obtain ⟨c, -, rfl⟩ := Read.map_eq_ok_iff.1 h
    have hv : c.val.toUInt64.toNat ≤ 0x10FFFF := by
      rw [UInt32.toNat_toUInt64]
      exact val_le_of_isValidChar c
    exact LabelRange.contains_eq_true_iff.2 (toInt_bounds_of_toNat_le hv (by decide))
  | short =>
    obtain ⟨n, -, rfl⟩ := Read.map_eq_ok_iff.1 h
    have hleast := (UInt16.ofNat n).toInt16.le_toInt
    have hgreatest := (UInt16.ofNat n).toInt16.toInt_lt
    refine LabelRange.contains_eq_true_iff.2 ⟨?_, ?_⟩
    · rw [Int16.toInt_toInt64]
      exact hleast
    · rw [Int16.toInt_toInt64]
      exact Int.le_of_lt_add_one hgreatest
  | ushort =>
    obtain ⟨n, -, rfl⟩ := Read.map_eq_ok_iff.1 h
    have hv : (UInt16.ofNat n).toUInt64.toNat ≤ 0xFFFF := by
      have := (UInt16.ofNat n).toNat_lt
      rw [UInt16.toNat_toUInt64]
      omega
    exact LabelRange.contains_eq_true_iff.2 (toInt_bounds_of_toNat_le hv (by decide))
  | long =>
    obtain ⟨n, -, rfl⟩ := Read.map_eq_ok_iff.1 h
    have hleast := (UInt32.ofNat n).toInt32.le_toInt
    have hgreatest := (UInt32.ofNat n).toInt32.toInt_lt
    refine LabelRange.contains_eq_true_iff.2 ⟨?_, ?_⟩
    · rw [Int32.toInt_toInt64]
      exact hleast
    · rw [Int32.toInt_toInt64]
      exact Int.le_of_lt_add_one hgreatest
  | ulong =>
    obtain ⟨v, -, rfl⟩ := Read.map_eq_ok_iff.1 h
    have hv : v.toUInt64.toNat ≤ 0xFFFFFFFF := by
      have := v.toNat_lt
      rw [UInt32.toNat_toUInt64]
      omega
    exact LabelRange.contains_eq_true_iff.2 (toInt_bounds_of_toNat_le hv (by decide))
  | longlong =>
    exact LabelRange.contains_eq_true_iff.2 ⟨d.minValue_le_toInt, d.toInt_le⟩
  | ulonglong =>
    exact LabelRange.contains_eq_true_iff.2 ⟨d.minValue_le_toInt, d.toInt_le⟩
  | float => cases h
  | double => cases h

/-! ## Every union that is read -/

namespace UnionType

/-- Whether the discriminant stands for no enumerator of the enum it is taken from, and has no label
    either. -/
def isStray (u : UnionType) (d : Int64) : Bool :=
  match u.discriminant.resolve with
  | .enum _ _ => !u.inRange d && !u.explicitLabels.contains d
  | _ => false

/-- What is known of a discriminant that was read: it selects a branch, and it is in range unless it
    is stray. -/
def arrives (u : UnionType) (d : Int64) : Bool :=
  (u.selected? d).isSome && (u.inRange d || u.isStray d)

/-- What a discriminant needs to be written: it selects a branch, and it is in range. -/
def departs (u : UnionType) (d : Int64) : Bool :=
  (u.selected? d).isSome && u.inRange d

/-- The labels of a checked table are in range, so only a discriminant without one can be stray. -/
theorem arrives_of_discriminant {s : Settings} {u : UnionType} {d : Int64} {b : Branch TypeDesc}
    {start stop : Cursor} (hvalid : u.validate = .ok ()) (hb : u.selected? d = some b)
    (h : Decode.discriminant s u.discriminant start = .ok d stop) : u.arrives d = true := by
  rw [arrives, hb, Option.isSome_some, Bool.true_and, Bool.or_eq_true]
  cases hu : u.discriminant.resolve with
  | scalar kind => exact .inl (inRange_of_discriminant hu h)
  | enum name enumerators =>
    by_cases hlabel : d ∈ u.explicitLabels
    · exact .inl (inRange_of_mem_explicitLabels hvalid hlabel)
    · cases hrange : u.inRange d with
      | true => exact .inl rfl
      | false =>
        right
        simp only [isStray, hu, hrange, List.contains_eq_mem, hlabel]
        rfl
  | _ =>
    simp only [Decode.discriminant, hu] at h
    cases h

end UnionType

/-- A reader of parts gives values whose unions are as they arrive, under checked types. -/
def PartReader.UnionsArrive (read : PartReader) : Prop :=
  ∀ (enclosing : List TypeDesc) (type : TypeDesc) (start stop : Cursor) (value : Payload),
    (∀ t ∈ enclosing, t.isComposite = true ∧ t.unionsChecked = true) → type.unionsChecked = true →
    read enclosing type start = .ok value stop →
    value.everyUnion UnionType.arrives enclosing type = true

section Reading

variable {s : Settings} {read : PartReader} {enclosing : List TypeDesc} {start stop : Cursor}

theorem arrives_elements {element : TypeDesc} {bound : Option UInt32} {values : List Payload}
    (hread : read.UnionsArrive)
    (henclosing : ∀ t ∈ enclosing, t.isComposite = true ∧ t.unionsChecked = true)
    (hchecked : element.unionsChecked = true)
    (h : Decode.elements s read enclosing element bound start = .ok values stop) :
    ∀ v ∈ values, v.everyUnion UnionType.arrives enclosing element = true := by
  intro v hv
  rcases (cases_of_elements h).2 v hv with ⟨c₁, c₂, hpart⟩ | ⟨-, octet, rfl⟩
  · exact hread enclosing element c₁ c₂ v henclosing hchecked hpart
  · rfl

theorem arrives_alternative {name : String} {discriminant : TypeDesc}
    {branches : List (Branch TypeDesc)} {type : TypeDesc} {value : Payload}
    (hread : read.UnionsArrive)
    (henclosing : ∀ t ∈ enclosing, t.isComposite = true ∧ t.unionsChecked = true)
    (htype : type.resolve = .union name discriminant branches)
    (hchecked : (TypeDesc.union name discriminant branches).unionsChecked = true)
    (h : Decode.alternative s read enclosing ⟨name, discriminant, branches⟩ start
      = .ok value stop) :
    value.everyUnion UnionType.arrives enclosing type = true := by
  obtain ⟨d, b, c, inner, hd, hb, hinner, rfl⟩ := exists_of_alternative h
  have hinside : ∀ t ∈ TypeDesc.union name discriminant branches :: enclosing,
      t.isComposite = true ∧ t.unionsChecked = true :=
    List.forall_mem_cons.2 ⟨⟨rfl, hchecked⟩, henclosing⟩
  obtain ⟨hvalid, -, hbranches⟩ := TypeDesc.unionsChecked_union_iff.1 hchecked
  refine (Payload.everyUnion_union htype hb).2 ⟨?_, ?_⟩
  · exact UnionType.arrives_of_discriminant hvalid hb hd
  · exact hread _ _ _ _ _ hinside (hbranches b (UnionType.mem_of_selected? hb)) hinner

/-- **One node that is read.** Its unions are as they arrive if those in its parts are. The
    description inside an `any` comes with the value, and has been checked where it was read. -/
theorem arrives_node {c : Codec} {levels : Nat} {type : TypeDesc} {value : Payload}
    (hread : read.UnionsArrive)
    (henclosing : ∀ t ∈ enclosing, t.isComposite = true ∧ t.unionsChecked = true)
    (hchecked : type.unionsChecked = true)
    (h : Decode.node c levels read enclosing type start = .ok value stop) :
    value.everyUnion UnionType.arrives enclosing type = true := by
  have hresolved : type.resolve.unionsChecked = true := TypeDesc.everyNode_resolve hchecked
  unfold Decode.node at h
  cases htype : type.resolve with
  | any =>
    rw [htype] at h
    obtain ⟨described, c₁, hdescribed, h⟩ := Read.bind_eq_ok_iff.1 h
    obtain ⟨inner, hinner, rfl⟩ := Read.map_eq_ok_iff.1 h
    have hdescription := TypeCode.readable_readLevels _ _ _ _ _ _ _ hdescribed
    have hchecked := TypeDesc.unionsChecked_of_wellFormed hdescription.wellFormed
    exact hread [] described _ _ _ (by simp) hchecked hinner
  | sequence element bound =>
    rw [htype] at h hresolved
    obtain ⟨values, hvalues, rfl⟩ := Read.map_eq_ok_iff.1 h
    have helement := TypeDesc.unionsChecked_sequence_iff.1 hresolved
    exact (Payload.everyUnion_sequence htype).2
      (arrives_elements hread henclosing helement hvalues)
  | array element length =>
    rw [htype] at h hresolved
    obtain ⟨values, hvalues, rfl⟩ := Read.map_eq_ok_iff.1 h
    refine (Payload.everyUnion_array htype).2 fun v hv => ?_
    obtain ⟨c₁, c₂, hpart⟩ := Read.mem_of_times hvalues v hv
    exact hread enclosing element c₁ c₂ v henclosing (TypeDesc.unionsChecked_array_iff.1 hresolved)
      hpart
  | struct name members =>
    rw [htype] at h hresolved
    obtain ⟨values, hvalues, rfl⟩ := Read.map_eq_ok_iff.1 h
    have hinside : ∀ t ∈ TypeDesc.struct name members :: enclosing,
        t.isComposite = true ∧ t.unionsChecked = true :=
      List.forall_mem_cons.2 ⟨⟨rfl, hresolved⟩, henclosing⟩
    have hmembers := TypeDesc.unionsChecked_struct_iff.1 hresolved
    refine (Payload.everyUnion_struct htype).2 fun q hq => ?_
    obtain ⟨c₁, c₂, hpart⟩ := List.forall₂_zip (Read.forall₂_of_each hvalues) hq
    exact hread _ q.1.type c₁ c₂ q.2 hinside (hmembers q.1 (List.of_mem_zip hq).1) hpart
  | union name discriminant branches =>
    rw [htype] at h hresolved
    exact arrives_alternative hread henclosing htype hresolved h
  | recursive name =>
    cases htarget : TypeDesc.enclosing? name enclosing with
    | none =>
      simp only [htype, htarget] at h
      cases h
    | some target =>
      simp only [htype, htarget] at h
      obtain ⟨hcomposite, hchecked⟩ := henclosing target (List.mem_of_find?_eq_some htarget)
      have hvalue := hread enclosing target start stop value henclosing hchecked h
      rwa [Payload.everyUnion_congr (TypeDesc.shape?_of_marker htype htarget hcomposite)]
  | typedef name underlying => exact absurd htype (type.resolve_ne_typedef name underlying)
  | null =>
    rw [htype] at h
    obtain ⟨rfl, -⟩ := Read.pure_eq_ok_iff.1 h
    rfl
  | _ =>
    rw [htype] at h
    obtain ⟨_, -, rfl⟩ := Read.map_eq_ok_iff.1 h
    rfl

end Reading

/-- **Values that are read.** Within any number of levels, every union that is read under checked
    types is as it arrives. -/
theorem arrives_decode (c : Codec) (levels : Nat) : (c.decode levels).UnionsArrive := by
  induction levels with
  | zero =>
    intro enclosing type start stop value _ _ h
    cases h
  | succ levels ih =>
    intro enclosing type start stop value henclosing hchecked h
    exact arrives_node ih henclosing hchecked h

/-! ## Every union that is written -/

/-- Whether the fault is that a discriminant selects no branch or is out of range. -/
def Fault.isUnknownDiscriminant : Fault → Bool
  | .unknownDiscriminant _ => true
  | _ => false

/-- A fault other than an unknown discriminant. -/
def Fault.IsOther (f : Fault) : Prop := f.isUnknownDiscriminant = false

theorem Fault.isOther_of_isData {f : Fault} (h : f.IsData) : f.IsOther := by
  obtain ⟨cause, rfl⟩ := h
  rfl

/-- A writer of parts meets no unknown discriminant where the unions in the value can depart. -/
def PartWriter.UnionsDepart (write : PartWriter) : Prop :=
  ∀ (enclosing : List TypeDesc) (type : TypeDesc) (value : Payload),
    (∀ t ∈ enclosing, t.isComposite = true) →
    value.everyUnion UnionType.departs enclosing type = true →
    (write enclosing type value).FailsWith Fault.IsOther

section Writing

open Emit

variable {write : PartWriter} {enclosing : List TypeDesc}

/-- **One node that is written.** It meets no unknown discriminant if its unions can depart and its
    parts meet none. -/
theorem failsWith_node (c : Codec) {type : TypeDesc} {value : Payload} (hwrite : write.UnionsDepart)
    (henclosing : ∀ t ∈ enclosing, t.isComposite = true)
    (hunions : value.everyUnion UnionType.departs enclosing type = true) :
    (Encode.node c write enclosing type value).FailsWith Fault.IsOther := by
  have hother : ∀ f : Fault, f.IsData → f.IsOther := fun _ => Fault.isOther_of_isData
  have hdata : ∀ {e : Emit}, e.FailsWith Fault.IsData → e.FailsWith Fault.IsOther :=
    fun h => h.mono hother
  unfold Encode.node
  cases htype : type.resolve with
  | null =>
    cases value with
    | null => exact FailsWith.nothing
    | _ => exact FailsWith.fail rfl
  | scalar kind =>
    cases value with
    | scalar v =>
      dsimp only
      split
      · exact hdata (failsWith_scalar c.settings v)
      · exact FailsWith.fail rfl
    | _ => exact FailsWith.fail rfl
  | string =>
    cases value with
    | string text => exact hdata (failsWith_string c.settings text)
    | _ => exact FailsWith.fail rfl
  | wstring =>
    cases value with
    | wstring text => exact hdata (failsWith_wstring c.settings text)
    | _ => exact FailsWith.fail rfl
  | enum name enumerators =>
    cases value with
    | enum ordinal => exact hdata (failsWith_enumerator c.settings name enumerators ordinal)
    | _ => exact FailsWith.fail rfl
  | objectRef interface =>
    cases value with
    | objectRef r => exact hdata (failsWith_reference c.settings r)
    | _ => exact FailsWith.fail rfl
  | any =>
    cases value with
    | any described value =>
      exact failsWith_content hother c (hwrite [] described value (by simp) hunions)
    | _ => exact FailsWith.fail rfl
  | sequence element bound =>
    cases value with
    | sequence values =>
      have hvalues := (Payload.everyUnion_sequence htype).1 hunions
      exact failsWith_elements hother c.settings (fun _ _ => rfl) fun v hv =>
        hwrite _ _ v henclosing (hvalues v hv)
    | _ => exact FailsWith.fail rfl
  | array element length =>
    cases value with
    | array values =>
      have hvalues := (Payload.everyUnion_array htype).1 hunions
      exact failsWith_fixedElements hother fun v hv => hwrite _ _ v henclosing (hvalues v hv)
    | _ => exact FailsWith.fail rfl
  | struct name members =>
    cases value with
    | struct values =>
      have hfields := (Payload.everyUnion_struct htype).1 hunions
      have hinside : ∀ t ∈ TypeDesc.struct name members :: enclosing, t.isComposite = true :=
        List.forall_mem_cons.2 ⟨rfl, henclosing⟩
      exact failsWith_fields hother fun q hq => hwrite _ q.1.type q.2 hinside (hfields q hq)
    | _ => exact FailsWith.fail rfl
  | union name discriminant branches =>
    cases value with
    | union d value =>
      have hinside : ∀ t ∈ TypeDesc.union name discriminant branches :: enclosing,
          t.isComposite = true := List.forall_mem_cons.2 ⟨rfl, henclosing⟩
      have hd : UnionType.departs ⟨name, discriminant, branches⟩ d = true := by
        simp only [Payload.everyUnion, TypeDesc.shape?, htype, Bool.and_eq_true] at hunions
        exact hunions.1
      obtain ⟨hselected, hrange⟩ := Bool.and_eq_true_iff.1 hd
      refine failsWith_alternative hother c.settings ?_ fun b hb => ?_
      · -- A discriminant that can depart is in range and selects a branch.
        rintro (hout | hnone)
        · rw [hrange] at hout
          cases hout
        · rw [hnone] at hselected
          cases hselected
      · exact hwrite _ b.type value hinside ((Payload.everyUnion_union htype hb).1 hunions).2
    | _ => exact FailsWith.fail rfl
  | recursive name =>
    dsimp only
    cases htarget : TypeDesc.enclosing? name enclosing with
    | none => exact FailsWith.fail rfl
    | some target =>
      have hcomposite := henclosing target (List.mem_of_find?_eq_some htarget)
      refine hwrite enclosing target value henclosing ?_
      rwa [← Payload.everyUnion_congr (TypeDesc.shape?_of_marker htype htarget hcomposite)]
  | typedef name underlying => exact absurd htype (type.resolve_ne_typedef name underlying)

end Writing

/-- **Values that are written.** Where every union in a value can depart, no writer meets an unknown
    discriminant in it, whatever its parameters. -/
theorem failsWith_encode (c : Codec) (levels : Nat) : (c.encode levels).UnionsDepart := by
  induction levels with
  | zero =>
    intro enclosing type value _ _
    exact Emit.FailsWith.fail rfl
  | succ levels ih =>
    intro enclosing type value henclosing hunions
    exact failsWith_node c ih henclosing hunions

/-! ## Read and written again -/

/-- **Unions that are read.** Whatever the message is, a value read under a type whose unions are
    checked conforms to it, and so does each value carried in it to its own description; every union
    in it, at any depth, holds a discriminant that selects a branch, and that is in range unless it
    is stray: an ordinal beyond those of an enum, without a label, left to the default branch.
    Without stray discriminants, no codec that writes the value again meets an unknown one. -/
theorem unions_of_readValue {c : Codec} {type : TypeDesc} {r r' : Reader} {x : Dynamic}
    (hchecked : type.unionsChecked = true) (h : r.run (c.readValue type) = (.ok x, r')) :
    (x.conforming = true ∧ ∀ y ∈ x.payload.contents, y.conforming = true) ∧
      x.payload.everyUnion (fun u d => (u.selected? d).isSome && (u.inRange d || u.isStray d))
        [] type = true ∧
      (x.payload.everyUnion (fun u d => !u.isStray d) [] type = true →
        ∀ (c' : Codec) (position : Nat) (d : Int64),
          c'.value x position ≠ .error (.unknownDiscriminant d)) := by
  unfold Reader.run at h
  cases hread : c.readValue type r.cursor with
  | error f c₁ =>
    rw [hread] at h
    cases h
  | ok y c₁ =>
    rw [hread] at h
    cases h
    obtain ⟨value, hvalue, rfl⟩ := Read.map_eq_ok_iff.1 hread
    have harrives := arrives_decode c c.maxDepth [] type _ _ value (by simp) hchecked hvalue
    have hsound := sound_decode c c.maxDepth [] type _ _ value (by simp) hvalue
    have hcontents : ∀ y ∈ value.contents, y.conforming = true := fun y hy =>
      (Bool.and_eq_true_iff.1 (hsound.contents y hy)).1
    refine ⟨⟨hsound.conforms, hcontents⟩, harrives, ?_⟩
    intro hstray c' position d hfails
    have hdeparts : value.everyUnion UnionType.departs [] type = true := by
      refine Payload.everyUnion_of_both (fun u d harrives hstray => ?_) harrives hstray
      simp only [UnionType.arrives, UnionType.departs, Bool.and_eq_true, Bool.or_eq_true,
        Bool.not_eq_true'] at harrives hstray ⊢
      exact ⟨harrives.1, harrives.2.resolve_right (by simp [hstray])⟩
    have hother :=
      failsWith_encode c' c'.maxDepth [] type value (by simp) hdeparts position _ hfails
    cases hother

/-- A union over an enum of two, with a label for the one and a default branch for the other. -/
def twoWayUnion : TypeDesc :=
  .union "U" (.enum "E" ["A", "B"])
    [⟨[.value 0], "a", .scalar .octet⟩, ⟨[.default], "b", .scalar .boolean⟩]

/-- The default branch, read under the ordinal that has no label and written again. -/
theorem unions_of_readValue_twoWayUnion :
    ∃ (x : Dynamic) (r' : Reader),
      (twoWayUnion.unionsChecked = true ∧
        (Reader.ofOctets [1, 0, 0, 0, 1]).run (({} : Codec).readValue twoWayUnion) = (.ok x, r')) ∧
      (x.conforming = true ∧ ∀ y ∈ x.payload.contents, y.conforming = true) ∧
      x.payload.everyUnion (fun u d => (u.selected? d).isSome && (u.inRange d || u.isStray d))
        [] twoWayUnion = true ∧
      ∀ (c' : Codec) (position : Nat) (d : Int64),
        c'.value x position ≠ .error (.unknownDiscriminant d) := by
  have hchecked : twoWayUnion.unionsChecked = true := by decide
  have hread : (Reader.ofOctets [1, 0, 0, 0, 1]).run (({} : Codec).readValue twoWayUnion)
      = (.ok ⟨twoWayUnion, .union 1 (.scalar (.boolean true))⟩,
          ⟨[1, 0, 0, 0, 1], ⟨5, []⟩⟩) := by rfl
  obtain ⟨hconforming, harrive, hagain⟩ := unions_of_readValue hchecked hread
  exact ⟨_, _, ⟨hchecked, hread⟩, hconforming, harrive, hagain (by decide)⟩

/-- The ordinal 5 belongs to neither enumerator. It is read as one more that has no label, and
    cannot be written again. -/
theorem stray_read_and_not_written :
    twoWayUnion.unionsChecked = true ∧
      (Reader.ofOctets [5, 0, 0, 0, 1]).run (({} : Codec).readValue twoWayUnion)
        = (.ok ⟨twoWayUnion, .union 5 (.scalar (.boolean true))⟩, ⟨[5, 0, 0, 0, 1], ⟨5, []⟩⟩) ∧
      (Payload.union 5 (.scalar (.boolean true))).everyUnion (fun u d => u.inRange d) []
        twoWayUnion = false ∧
      ({} : Codec).value ⟨twoWayUnion, .union 5 (.scalar (.boolean true))⟩ 0
        = .error (.unknownDiscriminant 5) := by
  exact ⟨by decide, by rfl, by decide, by rfl⟩

end ObjectBroker
