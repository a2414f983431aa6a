import ObjectBroker.Codec.Decode
import ObjectBroker.Proofs.Values.Soundness
import ObjectBroker.Proofs.Wire.Outcome

/-!
# `ObjectBroker.Proofs.Codec.Soundness` — only sound values are read

The input is not trusted, and neither are the types that come with it. Whatever the octets are, a
read that succeeds gives a value that is sound under the type asked for.

Reading and the conformance check both keep a stack of enclosing types, and both push the structs
and unions they enter. So the stacks agree, provided that nothing else was on them to start with:
a marker then stands for a struct or union, which is its own shape.
-/

namespace ObjectBroker

/-! ## The stack of enclosing types -/

/-- Whether the description is a struct or a union, which a marker can stand for. -/
def TypeDesc.isComposite : TypeDesc → Bool
  | .struct _ _ | .union _ _ _ => true
  | _ => false

/-- A struct or union is its own shape. -/
theorem TypeDesc.shape?_of_isComposite {t : TypeDesc} (h : t.isComposite = true)
    (enclosing : List TypeDesc) : t.shape? enclosing = some t := by
  cases t with
  | struct name members => rfl
  | union name discriminant branches => rfl
  | _ => cases h

/-- A marker for a struct or union has the shape of its target. -/
theorem TypeDesc.shape?_of_marker {t target : TypeDesc} {name : String} {enclosing : List TypeDesc}
    (ht : t.resolve = .recursive name) (htarget : enclosing? name enclosing = some target)
    (hcomposite : target.isComposite = true) : t.shape? enclosing = target.shape? enclosing := by
  rw [shape?_of_isComposite hcomposite, shape?, ht]
  exact htarget

/-- A reader of parts gives sound values only. -/
def PartReader.GivesSound (read : PartReader) : Prop :=
  ∀ (enclosing : List TypeDesc) (type : TypeDesc) (start stop : Cursor) (value : Payload),
    (∀ t ∈ enclosing, t.isComposite = true) → read enclosing type start = .ok value stop →
    value.Sound enclosing type

/-! ## One node -/

/-- A scalar is read as one of its kind. -/
theorem Read.kind_of_scalar {s : Settings} {kind : Scalar} {start stop : Cursor} {v : ScalarValue}
    (h : Read.scalar s kind start = .ok v stop) : v.kind = kind := by
  cases kind <;>
  · obtain ⟨_, -, rfl⟩ := map_eq_ok_iff.1 h
    rfl

theorem ordinal_lt_of_enumerator {s : Settings} {name : String} {enumerators : List String}
    {start stop : Cursor} {ordinal : UInt32}
    (h : Decode.enumerator s name enumerators start = .ok ordinal stop) :
    ordinal.toNat < enumerators.length := by
  obtain ⟨read, c, -, h⟩ := Read.bind_eq_ok_iff.1 h
  split at h
  · rename_i hordinal
    obtain ⟨rfl, -⟩ := Read.pure_eq_ok_iff.1 h
    exact hordinal
  · cases h

section Parts

variable {s : Settings} {read : PartReader} {enclosing : List TypeDesc} {start stop : Cursor}

/-- What is known of the elements once they are read: they are no more than the bound, and each was
    read as a part or is an octet of a run. -/
theorem cases_of_elements {element : TypeDesc} {bound : Option UInt32} {values : List Payload}
    (h : Decode.elements s read enclosing element bound start = .ok values stop) :
    (∀ b, bound = some b → values.length ≤ b.toNat) ∧
      ∀ v ∈ values, (∃ c c', read enclosing element c = .ok v c') ∨
        element.resolve = .scalar .octet ∧ ∃ octet, v = .scalar (.octet octet) := by
  obtain ⟨count, c, -, h⟩ := Read.bind_eq_ok_iff.1 h
  cases hbound : bound.filter (· < count) with
  | some b =>
    simp only [hbound] at h
    cases h
  | none =>
    have hcount : ∀ b, bound = some b → count.toNat ≤ b.toNat := by
      rintro b rfl
      simpa [Option.filter, UInt32.le_iff_toNat_le] using hbound
    simp only [hbound] at h
    by_cases helement : element.resolve = .scalar .octet
    · -- Octets are taken as one run, which is as long as the count says.
      rw [if_pos helement] at h
      obtain ⟨octets, htake, rfl⟩ := Read.map_eq_ok_iff.1 h
      rw [List.length_map, Read.length_of_take htake]
      refine ⟨hcount, ?_⟩
      intro v hv
      obtain ⟨octet, -, rfl⟩ := List.mem_map.1 hv
      exact .inr ⟨helement, octet, rfl⟩
    · rw [if_neg helement] at h
      rw [Read.length_of_times h]
      refine ⟨hcount, ?_⟩
      intro v hv
      exact .inl (Read.mem_of_times h v hv)

/-- What is known of a union once it is read: its discriminant selects a branch, as whose value the
    rest was read. -/
theorem exists_of_alternative {union : UnionType} {value : Payload}
    (h : Decode.alternative s read enclosing union start = .ok value stop) :
    ∃ d b c inner, Decode.discriminant s union.discriminant start = .ok d c ∧
      union.selected? d = some b ∧
      read (union.desc :: enclosing) b.type c = .ok inner stop ∧ value = .union d inner := by
  obtain ⟨d, c, hd, h⟩ := Read.bind_eq_ok_iff.1 h
  cases hb : union.selected? d with
  | none =>
    simp only [hb] at h
    cases h
  | some b =>
    simp only [hb] at h
    obtain ⟨inner, hinner, rfl⟩ := Read.map_eq_ok_iff.1 h
    exact ⟨d, b, c, inner, hd, hb, hinner, rfl⟩

/-- The elements of a sequence are sound, and no more than its bound. -/
theorem sound_elements {element : TypeDesc} {bound : Option UInt32} {values : List Payload}
    (hread : read.GivesSound) (henclosing : ∀ t ∈ enclosing, t.isComposite = true)
    (h : Decode.elements s read enclosing element bound start = .ok values stop) :
    (∀ b, bound = some b → values.length ≤ b.toNat) ∧
      ∀ v ∈ values, v.Sound enclosing element := by
  obtain ⟨hbound, hvalues⟩ := cases_of_elements h
  refine ⟨hbound, ?_⟩
  intro v hv
  rcases hvalues v hv with ⟨c, c', hpart⟩ | ⟨helement, octet, rfl⟩
  · exact hread enclosing element c c' v henclosing hpart
  · refine Payload.Sound.leaf ?_ rfl rfl
    simp only [Payload.conforms, TypeDesc.shape?, helement]
    rfl

theorem sound_alternative (union : UnionType) {type : TypeDesc} {value : Payload}
    (hread : read.GivesSound) (henclosing : ∀ t ∈ enclosing, t.isComposite = true)
    (htype : type.resolve = union.desc)
    (h : Decode.alternative s read enclosing union start = .ok value stop) :
    value.Sound enclosing type := by
  obtain ⟨d, b, c, inner, -, hb, hinner, rfl⟩ := exists_of_alternative h
  have hinside : ∀ t ∈ union.desc :: enclosing, t.isComposite = true :=
    List.forall_mem_cons.2 ⟨rfl, henclosing⟩
  exact Payload.Sound.union htype hb (hread _ _ _ _ _ hinside hinner)

/-- The content of an `any` is sound under the description that was read with it. -/
theorem sound_content {c : Codec} {levels : Nat} {type : TypeDesc} {value : Payload}
    (hread : read.GivesSound) (htype : type.resolve = .any)
    (h : Decode.content c levels read start = .ok value stop) : value.Sound enclosing type := by
  obtain ⟨described, c₁, -, h⟩ := Read.bind_eq_ok_iff.1 h
  obtain ⟨inner, hinner, rfl⟩ := Read.map_eq_ok_iff.1 h
  exact Payload.Sound.any htype (hread [] described _ _ _ (by simp) hinner)

/-- **One node.** A node is sound if every part of it is. -/
theorem sound_node {c : Codec} {levels : Nat} {type : TypeDesc} {value : Payload}
    (hread : read.GivesSound) (henclosing : ∀ t ∈ enclosing, t.isComposite = true)
    (h : Decode.node c levels read enclosing type start = .ok value stop) :
    value.Sound enclosing type := by
  unfold Decode.node at h
  cases htype : type.resolve with
  | null =>
    rw [htype] at h
    obtain ⟨rfl, -⟩ := Read.pure_eq_ok_iff.1 h
    exact Payload.Sound.leaf (by simp only [Payload.conforms, TypeDesc.shape?, htype]) rfl rfl
  | typedef name underlying => exact absurd htype (type.resolve_ne_typedef name underlying)
  | scalar kind =>
    rw [htype] at h
    obtain ⟨v, hv, rfl⟩ := Read.map_eq_ok_iff.1 h
    refine Payload.Sound.leaf ?_ rfl rfl
    simp only [Payload.conforms, TypeDesc.shape?, htype, Read.kind_of_scalar hv, beq_self_eq_true]
  | string =>
    rw [htype] at h
    obtain ⟨text, -, rfl⟩ := Read.map_eq_ok_iff.1 h
    exact Payload.Sound.leaf (by simp only [Payload.conforms, TypeDesc.shape?, htype]) rfl rfl
  | wstring =>
    rw [htype] at h
    obtain ⟨text, -, rfl⟩ := Read.map_eq_ok_iff.1 h
    exact Payload.Sound.leaf (by simp only [Payload.conforms, TypeDesc.shape?, htype]) rfl rfl
  | objectRef interface =>
    rw [htype] at h
    obtain ⟨r, -, rfl⟩ := Read.map_eq_ok_iff.1 h
    exact Payload.Sound.leaf (by simp only [Payload.conforms, TypeDesc.shape?, htype]) rfl rfl
  | enum name enumerators =>
    rw [htype] at h
    obtain ⟨ordinal, hordinal, rfl⟩ := Read.map_eq_ok_iff.1 h
    refine Payload.Sound.leaf ?_ rfl rfl
    simp only [Payload.conforms, TypeDesc.shape?, htype, decide_eq_true_eq]
    exact ordinal_lt_of_enumerator hordinal
  | any =>
    rw [htype] at h
    exact sound_content hread htype h
  | sequence element bound =>
    rw [htype] at h
    obtain ⟨values, hvalues, rfl⟩ := Read.map_eq_ok_iff.1 h
    obtain ⟨hbound, hparts⟩ := sound_elements hread henclosing hvalues
    exact Payload.Sound.sequence htype hbound hparts
  | array element length =>
    rw [htype] at h
    obtain ⟨values, hvalues, rfl⟩ := Read.map_eq_ok_iff.1 h
    refine Payload.Sound.array htype (Read.length_of_times hvalues) ?_
    intro v hv
    obtain ⟨c₁, c₂, hpart⟩ := Read.mem_of_times hvalues v hv
    exact hread enclosing element c₁ c₂ v henclosing hpart
  | struct name members =>
    rw [htype] at h
    obtain ⟨values, hvalues, rfl⟩ := Read.map_eq_ok_iff.1 h
    have hinside : ∀ t ∈ TypeDesc.struct name members :: enclosing, t.isComposite = true :=
      List.forall_mem_cons.2 ⟨rfl, henclosing⟩
    refine Payload.Sound.struct htype ((Read.forall₂_of_each hvalues).imp ?_)
    rintro m v ⟨c₁, c₂, hpart⟩
    exact hread _ m.type c₁ c₂ v hinside hpart
  | union name discriminant branches =>
    rw [htype] at h
    exact sound_alternative ⟨name, discriminant, branches⟩ hread henclosing htype h
  | recursive name =>
    cases htarget : TypeDesc.enclosing? name enclosing with
    | none =>
      simp only [htype, htarget] at h
      cases h
    | some target =>
      -- The target is on the stack, so it is a struct or union, and what the marker stands for.
      simp only [htype, htarget] at h
      have hcomposite := henclosing target (List.mem_of_find?_eq_some htarget)
      have htargetSound := hread enclosing target start stop value henclosing h
      exact htargetSound.congr (TypeDesc.shape?_of_marker htype htarget hcomposite).symm

end Parts

/-! ## Whole values -/

/-- **Values.** Within any number of levels, only sound values are read. -/
theorem sound_decode (c : Codec) (levels : Nat) : (c.decode levels).GivesSound := by
  induction levels with
  | zero =>
    intro enclosing type start stop value _ h
    cases h
  | succ levels ih =>
    intro enclosing type start stop value henclosing h
    exact sound_node ih henclosing h

/-- **Decoder soundness.** Whatever the message is and wherever in it the reader stands, a value it
    reads has the type asked for and conforms to it, every bounded sequence in it holds no more
    than its bound, and the same is true of every value carried in it, at any depth, under the
    description that came with it. -/
theorem sound_of_readValue {c : Codec} {type : TypeDesc} {r r' : Reader} {x : Dynamic}
    (h : r.run (c.readValue type) = (.ok x, r')) :
    Dynamic.ofPayload type x.payload = .ok x ∧ x.payload.withinBounds [] type = true ∧
      ∀ y ∈ x.payload.contents,
        Dynamic.ofPayload y.type y.payload = .ok y ∧ y.payload.withinBounds [] y.type = true := by
  unfold Reader.run at h
  split at h
  · rename_i read c' hread
    injection h with hread'
    injection hread' with hread'
    subst hread'
    obtain ⟨value, hvalue, rfl⟩ := Read.map_eq_ok_iff.1 hread
    have hsound := sound_decode c c.maxDepth [] type _ _ value (by simp) hvalue
    refine ⟨Dynamic.ofPayload_eq_ok_iff.2 ⟨hsound.conforms, rfl⟩, hsound.withinBounds, ?_⟩
    intro y hy
    have hy := hsound.contents y hy
    rw [Dynamic.sound, Bool.and_eq_true] at hy
    exact ⟨Dynamic.ofPayload_eq_ok_iff.2 ⟨hy.1, rfl⟩, hy.2⟩
  · cases h

/-- At most two values of any type, read from a message that holds one number. -/
theorem sound_of_readValue_sequence :
    ∃ x : Dynamic, ∃ r : Reader,
      (Reader.ofOctets [1, 0, 0, 0, 3, 0, 0, 0, 5, 0, 0, 0]).run
        (({} : Codec).readValue (.sequence .any (some 2))) = (.ok x, r) ∧
      Dynamic.ofPayload (.sequence .any (some 2)) x.payload = .ok x ∧
      x.payload.withinBounds [] (.sequence .any (some 2)) = true ∧
      ∀ y ∈ x.payload.contents,
        Dynamic.ofPayload y.type y.payload = .ok y ∧ y.payload.withinBounds [] y.type = true := by
  have hread : (Reader.ofOctets [1, 0, 0, 0, 3, 0, 0, 0, 5, 0, 0, 0]).run
      (({} : Codec).readValue (.sequence .any (some 2)))
      = (.ok ⟨.sequence .any (some 2), .sequence [.any (.scalar .long) (.scalar (.long 5))]⟩,
          ⟨[1, 0, 0, 0, 3, 0, 0, 0, 5, 0, 0, 0], ⟨12, []⟩⟩) := by
    rfl
  exact ⟨_, _, hread, sound_of_readValue hread⟩

end ObjectBroker
