import ObjectBroker.Proofs.Typed.Bounded
import ObjectBroker.Proofs.Values.Soundness

/-!
# `ObjectBroker.Proofs.Typed.Mapping` — payloads and values of a type, container by container

The description of a type and its mapping are made separately, and they have to fit. At a payload they
do if two things hold. The payload conforms to the description exactly if it is the content of some
value. And it is taken out as a value exactly if it is the content of that value and keeps the bounds of
the description: a value can hold more than its bound, and is then not taken out again.

For a container this is so if it is so for what it contains. A record is like a sequence whose elements
have types of their own.
-/

namespace ObjectBroker

open Payload (conforms conformsAll conformsMembers withinBounds allWithinBounds membersWithinBounds)

/-- **Fit.** Inside the given enclosing types, the payload conforms to the description of the type
    if and only if it is the content of a value. And it is taken out as a value if and only if it is
    the content of that value and keeps the bounds. -/
structure Typed.MapsAt (α : Type) [Typed α] (enclosing : List TypeDesc) (p : Payload) : Prop where
  conforms_iff : p.conforms enclosing (Typed.desc α) = true ↔ ∃ a : α, Typed.toPayload a = p
  ofPayload_iff : ∀ a : α, Typed.ofPayload p = .ok a ↔
    Typed.toPayload a = p ∧ p.withinBounds enclosing (Typed.desc α) = true

namespace Typed

variable {α : Type} [Typed α] {enclosing : List TypeDesc} {p : Payload}

/-- A payload of another kind does not conform, is not the content of a value, and is refused. -/
theorem MapsAt.of_other (hconforms : p.conforms enclosing (Typed.desc α) = false)
    (hcontent : ∀ a : α, Typed.toPayload a ≠ p)
    (htaken : ∃ f, (Typed.ofPayload p : Except Fault α) = .error f) : MapsAt α enclosing p := by
  constructor
  · rw [hconforms]
    exact ⟨fun h => absurd h Bool.false_ne_true, fun ⟨a, ha⟩ => absurd ha (hcontent a)⟩
  · intro a
    obtain ⟨f, hf⟩ := htaken
    rw [hf]
    exact ⟨by rintro ⟨⟩, fun h => absurd h.1 (hcontent a)⟩

/-- A payload that conforms, keeps the bounds and is taken out as the one value it is the content
    of. -/
theorem MapsAt.of_content {a : α} (hconforms : p.conforms enclosing (Typed.desc α) = true)
    (hbounds : p.withinBounds enclosing (Typed.desc α) = true) (htaken : Typed.ofPayload p = .ok a)
    (hcontent : ∀ b : α, Typed.toPayload b = p ↔ a = b) : MapsAt α enclosing p where
  conforms_iff := ⟨fun _ => ⟨a, (hcontent a).2 rfl⟩, fun _ => hconforms⟩
  ofPayload_iff b := by
    rw [htaken, hcontent, Except.ok.injEq, and_iff_left hbounds]

/-! ## Scalars, texts, references and dynamic values -/

theorem ofPayload_ofScalar_eq_ok_iff {α : Type} {kind : Scalar} {hold : α → ScalarValue}
    {held? : ScalarValue → Option α} (v : ScalarValue) (a : α) :
    (Typed.ofScalar kind hold held?).ofPayload (.scalar v) = .ok a ↔ held? v = some a := by
  unfold Typed.ofScalar
  dsimp only
  cases held? v <;> simp

/-- Scalars fit if those that hold a value are those of the kind. -/
theorem mapsAt_ofScalar {α : Type} {kind : Scalar} {hold : α → ScalarValue}
    {held? : ScalarValue → Option α} (hheld : ∀ v a, held? v = some a ↔ v = hold a)
    (hkind : ∀ v, v.kind = kind ↔ (held? v).isSome = true) (enclosing : List TypeDesc) (p : Payload) :
    @MapsAt α (.ofScalar kind hold held?) enclosing p := by
  let _ : Typed α := .ofScalar kind hold held?
  cases p with
  | scalar v =>
    constructor
    · show (v.kind == kind) = true ↔ ∃ a : α, Payload.scalar (hold a) = .scalar v
      rw [beq_iff_eq, hkind, Option.isSome_iff_exists]
      exact exists_congr fun a => by rw [hheld, Payload.scalar.injEq, eq_comm]
    · intro a
      rw [ofPayload_ofScalar_eq_ok_iff, hheld]
      show v = hold a ↔ Payload.scalar (hold a) = .scalar v ∧ true = true
      rw [Payload.scalar.injEq, and_iff_left rfl, eq_comm]
  | _ => exact .of_other rfl (by rintro _ ⟨⟩) ⟨_, rfl⟩

theorem mapsAt_string (enclosing : List TypeDesc) (p : Payload) : MapsAt String enclosing p := by
  cases p with
  | string text =>
    refine .of_content (a := text) rfl rfl rfl fun b => ⟨?_, ?_⟩
    · exact fun h => (Payload.string.inj h).symm
    · exact fun h => h ▸ rfl
  | _ => exact .of_other rfl (by rintro _ ⟨⟩) ⟨_, rfl⟩

theorem mapsAt_wideString (enclosing : List TypeDesc) (p : Payload) :
    MapsAt WideString enclosing p := by
  cases p with
  | wstring text =>
    refine .of_content (a := ⟨text⟩) rfl rfl rfl fun b => ⟨?_, ?_⟩
    · exact fun h => congrArg WideString.mk (Payload.wstring.inj h).symm
    · exact fun h => h ▸ rfl
  | _ => exact .of_other rfl (by rintro _ ⟨⟩) ⟨_, rfl⟩

theorem mapsAt_objectRef (enclosing : List TypeDesc) (p : Payload) :
    MapsAt ObjectRef enclosing p := by
  cases p with
  | objectRef r =>
    refine .of_content (a := r) rfl rfl rfl fun b => ⟨?_, ?_⟩
    · exact fun h => (Payload.objectRef.inj h).symm
    · exact fun h => h ▸ rfl
  | _ => exact .of_other rfl (by rintro _ ⟨⟩) ⟨_, rfl⟩

/-- A dynamic value is the content of an `any`. Its own content is not looked at. -/
theorem mapsAt_dynamic (enclosing : List TypeDesc) (p : Payload) : MapsAt Dynamic enclosing p := by
  cases p with
  | any type value =>
    refine .of_content (a := ⟨type, value⟩) rfl rfl rfl fun x => ⟨?_, ?_⟩
    · intro h
      obtain ⟨htype, hvalue⟩ := Payload.any.inj h
      exact congrArg₂ Dynamic.mk htype.symm hvalue.symm
    · exact fun h => h ▸ rfl
  | _ => exact .of_other rfl (by rintro _ ⟨⟩) ⟨_, rfl⟩

/-! ## Containers of one type -/

section Elements

variable {ps : List Payload} (h : ∀ e ∈ ps, MapsAt α enclosing e)

include h

theorem conformsAll_iff :
    conformsAll enclosing (Typed.desc α) ps = true ↔
      ∃ as : List α, as.map Typed.toPayload = ps := by
  induction ps with
  | nil => exact ⟨fun _ => ⟨[], rfl⟩, fun _ => rfl⟩
  | cons p ps ih =>
    rw [Payload.conformsAll, Bool.and_eq_true, (h p List.mem_cons_self).conforms_iff,
      ih fun q hq => h q (List.mem_cons_of_mem p hq)]
    constructor
    · rintro ⟨⟨a, rfl⟩, as, rfl⟩
      exact ⟨a :: as, rfl⟩
    · rintro ⟨as, has⟩
      obtain ⟨a, others, rfl, rfl, rfl⟩ := List.map_eq_cons_iff.1 has
      exact ⟨⟨a, rfl⟩, others, rfl⟩

theorem ofPayloads_iff (as : List α) :
    Typed.ofPayloads ps = .ok as ↔ as.map Typed.toPayload = ps ∧
      allWithinBounds enclosing (Typed.desc α) ps = true := by
  rw [Typed.ofPayloads_eq_ok_iff]
  induction ps generalizing as with
  | nil =>
    rw [List.forall₂_nil_left_iff, List.map_eq_nil_iff]
    exact (and_iff_left rfl).symm
  | cons p ps ih =>
    have hothers := ih fun q hq => h q (List.mem_cons_of_mem p hq)
    rw [List.forall₂_cons_left_iff, Payload.allWithinBounds, Bool.and_eq_true]
    constructor
    · rintro ⟨a, others, ha, hps, rfl⟩
      obtain ⟨rfl, hbound⟩ := ((h p List.mem_cons_self).ofPayload_iff a).1 ha
      obtain ⟨rfl, hbounds⟩ := (hothers others).1 hps
      exact ⟨rfl, hbound, hbounds⟩
    · rintro ⟨has, hbound, hbounds⟩
      obtain ⟨a, others, rfl, ha, hmap⟩ := List.map_eq_cons_iff.1 has
      exact ⟨a, others, ((h p List.mem_cons_self).ofPayload_iff a).2 ⟨ha, hbound⟩,
        (hothers others).2 ⟨hmap, hbounds⟩, rfl⟩

end Elements

/-- Lists fit at a payload if their elements do at its elements. -/
theorem mapsAt_list (h : ∀ elements, p = .sequence elements → ∀ e ∈ elements, MapsAt α enclosing e) :
    MapsAt (List α) enclosing p := by
  cases p with
  | sequence elements =>
    have helements := h elements rfl
    constructor
    · show conformsAll enclosing (Typed.desc α) elements = true ↔
        ∃ as : List α, Payload.sequence (as.map Typed.toPayload) = .sequence elements
      simp only [Payload.sequence.injEq]
      exact conformsAll_iff helements
    · intro as
      show Typed.ofPayloads elements = .ok as ↔
        Payload.sequence (as.map Typed.toPayload) = .sequence elements ∧
          allWithinBounds enclosing (Typed.desc α) elements = true
      rw [Payload.sequence.injEq]
      exact ofPayloads_iff helements as
  | _ => exact .of_other rfl (by rintro _ ⟨⟩) ⟨_, rfl⟩

/-- Sequences of a type with a bound fit like lists: the bound is no part of what they can hold, but
    of what is taken out. -/
theorem mapsAt_boundedSeq {N : UInt32} (hN : N ≠ 0)
    (h : ∀ elements, p = .sequence elements → ∀ e ∈ elements, MapsAt α enclosing e) :
    MapsAt (BoundedSeq α N) enclosing p := by
  have hdesc := BoundedSeq.desc_eq (α := α) hN
  cases p with
  | sequence elements =>
    have helements := h elements rfl
    constructor
    · rw [hdesc]
      show conformsAll enclosing (Typed.desc α) elements = true ↔
        ∃ s : BoundedSeq α N, Payload.sequence (s.elements.map Typed.toPayload) = .sequence elements
      rw [conformsAll_iff helements]
      constructor
      · rintro ⟨as, rfl⟩
        exact ⟨⟨as⟩, rfl⟩
      · rintro ⟨s, hs⟩
        exact ⟨s.elements, Payload.sequence.inj hs⟩
    · intro s
      rw [BoundedSeq.ofPayload_eq_ok_iff, ofPayloads_iff helements, hdesc]
      show _ ↔ Payload.sequence (s.elements.map Typed.toPayload) = .sequence elements ∧
        (decide (elements.length ≤ N.toNat) &&
          allWithinBounds enclosing (Typed.desc α) elements) = true
      rw [Payload.sequence.injEq, Bool.and_eq_true, decide_eq_true_iff]
      constructor
      · rintro ⟨⟨rfl, hbounds⟩, hlength⟩
        exact ⟨rfl, by rwa [List.length_map], hbounds⟩
      · rintro ⟨rfl, hlength, hbounds⟩
        exact ⟨⟨rfl, hbounds⟩, by rwa [List.length_map] at hlength⟩
  | _ =>
    refine .of_other ?_ (by rintro _ ⟨⟩) ⟨_, rfl⟩
    rw [hdesc]
    rfl

theorem ofPayload_vector_iff {n : Nat} {elements : List Payload} (v : Vector α n) :
    Typed.ofPayload (.array elements) = .ok v ↔ Typed.ofPayloads elements = .ok v.toList := by
  show (do
    let values ← (Typed.ofPayloads elements : Except Fault (List α))
    if h : values.length = n then return (⟨values.toArray, by simpa using h⟩ : Vector α n)
    else .error (.invalidData (.fixedLength elements.length n))) = .ok v ↔ _
  rw [Except.bind_eq_ok_iff]
  constructor
  · rintro ⟨values, hvalues, h⟩
    split at h
    · cases h
      exact hvalues
    · cases h
  · intro hvalues
    refine ⟨v.toList, hvalues, ?_⟩
    rw [dif_pos v.length_toList]
    rfl

/-- Vectors fit like lists whose length is that of the array type. -/
theorem mapsAt_vector {n : Nat} (hn : n < UInt32.size)
    (h : ∀ elements, p = .array elements → ∀ e ∈ elements, MapsAt α enclosing e) :
    MapsAt (Vector α n) enclosing p := by
  cases p with
  | array elements =>
    have helements := h elements rfl
    constructor
    · show (elements.length == (UInt32.ofNat n).toNat &&
          conformsAll enclosing (Typed.desc α) elements) = true ↔
        ∃ v : Vector α n, Payload.array (v.toList.map Typed.toPayload) = .array elements
      rw [UInt32.toNat_ofNat_of_lt' hn, Bool.and_eq_true, beq_iff_eq, conformsAll_iff helements]
      constructor
      · rintro ⟨hlength, as, rfl⟩
        rw [List.length_map] at hlength
        exact ⟨⟨as.toArray, by simpa using hlength⟩, rfl⟩
      · rintro ⟨v, hv⟩
        obtain rfl := Payload.array.inj hv
        exact ⟨by rw [List.length_map, v.length_toList], v.toList, rfl⟩
    · intro v
      rw [ofPayload_vector_iff, ofPayloads_iff helements, ← Payload.array.injEq]
      rfl
  | _ => exact .of_other rfl (by rintro _ ⟨⟩) ⟨_, rfl⟩

end Typed

/-! ## Records -/

/-- **Fit of a layout.** The payloads conform to the members if and only if they are the fields of
    something. If there are as many of them as there are members, they are taken out if and only if
    they are its fields and keep the bounds. -/
structure Layout.MapsAt {σ : Type} (layout : Layout σ) (enclosing : List TypeDesc)
    (fields : List Payload) : Prop where
  conforms_iff : conformsMembers enclosing layout.members fields = true ↔
    ∃ s, layout.toFields s = fields
  ofFields_iff : fields.length = layout.members.length → ∀ s, layout.ofFields fields = .ok s ↔
    layout.toFields s = fields ∧ membersWithinBounds enclosing layout.members fields = true

namespace Layout

variable {σ : Type} {enclosing : List TypeDesc} {fields : List Payload}

theorem mapsAt_empty (enclosing : List TypeDesc) (fields : List Payload) :
    empty.MapsAt enclosing fields := by
  cases fields with
  | nil => exact ⟨⟨fun _ => ⟨(), rfl⟩, fun _ => rfl⟩, fun _ _ => ⟨fun _ => ⟨rfl, rfl⟩, fun _ => rfl⟩⟩
  | cons p ps => refine ⟨⟨?_, ?_⟩, ?_⟩ <;> rintro ⟨_, ⟨⟩⟩

/-- A field before others fits if it does at the first payload, and the others do at the rest. -/
theorem mapsAt_field (name : String) {α : Type} [Typed α] {rest : Layout σ}
    (h : ∀ p ps, fields = p :: ps → Typed.MapsAt α enclosing p ∧ rest.MapsAt enclosing ps) :
    (field name α rest).MapsAt enclosing fields := by
  cases fields with
  | nil => refine ⟨⟨?_, ?_⟩, ?_⟩ <;> rintro ⟨_, ⟨⟩⟩
  | cons p ps =>
    obtain ⟨hfirst, hothers⟩ := h p ps rfl
    constructor
    · show (conforms enclosing (Typed.desc α) p && conformsMembers enclosing rest.members ps) = true ↔
        ∃ s : α × σ, Typed.toPayload s.1 :: rest.toFields s.2 = p :: ps
      rw [Bool.and_eq_true, hfirst.conforms_iff, hothers.conforms_iff]
      constructor
      · rintro ⟨⟨a, rfl⟩, s, rfl⟩
        exact ⟨(a, s), rfl⟩
      · rintro ⟨⟨a, s⟩, hs⟩
        obtain ⟨rfl, rfl⟩ := List.cons.inj hs
        exact ⟨⟨a, rfl⟩, s, rfl⟩
    · rintro hlength ⟨a, s⟩
      have hothers := hothers.ofFields_iff (Nat.succ.inj hlength)
      show (do
        let a ← Typed.ofPayload p
        return (a, ← rest.ofFields ps)) = .ok (a, s) ↔
        Typed.toPayload a :: rest.toFields s = p :: ps ∧
          (withinBounds enclosing (Typed.desc α) p &&
            membersWithinBounds enclosing rest.members ps) = true
      rw [List.cons.injEq, Bool.and_eq_true, Except.bind_eq_ok_iff]
      constructor
      · rintro ⟨a', ha, h⟩
        obtain ⟨s', hs, h⟩ := Except.bind_eq_ok_iff.1 h
        cases h
        obtain ⟨hp, hbound⟩ := (hfirst.ofPayload_iff a).1 ha
        obtain ⟨hps, hbounds⟩ := (hothers s).1 hs
        exact ⟨⟨hp, hps⟩, hbound, hbounds⟩
      · rintro ⟨⟨hp, hps⟩, hbound, hbounds⟩
        refine ⟨a, (hfirst.ofPayload_iff a).2 ⟨hp, hbound⟩, ?_⟩
        rw [(hothers s).2 ⟨hps, hbounds⟩]
        rfl

/-- Whatever a layout splits has one field for each member. -/
theorem MapsAt.length_eq {layout : Layout σ} (h : layout.MapsAt enclosing fields) {s : σ}
    (hs : layout.toFields s = fields) : fields.length = layout.members.length :=
  (Payload.conformsMembers_length (h.conforms_iff.2 ⟨s, hs⟩)).symm

end Layout

namespace Typed

variable {enclosing : List TypeDesc} {p : Payload}

/-- A record fits at a payload if its layout does at the fields, inside the record. -/
theorem mapsAt_ofLayout {ρ σ : Type} {name : String} {layout : Layout σ} {split : ρ → σ}
    {join : σ → ρ} (hjoin : ∀ r, join (split r) = r) (hsplit : ∀ s, split (join s) = s)
    (h : ∀ fields, p = .struct fields →
      layout.MapsAt (.struct name layout.members :: enclosing) fields) :
    @MapsAt ρ (.ofLayout name layout split join) enclosing p := by
  let _ : Typed ρ := .ofLayout name layout split join
  cases p with
  | struct fields =>
    have hfields := h fields rfl
    constructor
    · show conformsMembers (.struct name layout.members :: enclosing) layout.members fields = true ↔
        ∃ r, Payload.struct (layout.toFields (split r)) = .struct fields
      rw [hfields.conforms_iff]
      constructor
      · rintro ⟨s, rfl⟩
        exact ⟨join s, by rw [hsplit]⟩
      · rintro ⟨r, hr⟩
        exact ⟨split r, Payload.struct.inj hr⟩
    · intro r
      show (do
        let fields ← (Payload.struct fields).fieldsOf name layout.members.length
        return join (← layout.ofFields fields)) = .ok r ↔
        Payload.struct (layout.toFields (split r)) = .struct fields ∧
          membersWithinBounds (.struct name layout.members :: enclosing) layout.members fields = true
      rw [Payload.struct.injEq, Except.bind_eq_ok_iff]
      constructor
      · rintro ⟨fields', hcount, h⟩
        rw [Payload.fieldsOf] at hcount
        split at hcount
        · rename_i hlength
          obtain rfl : fields = fields' := Except.ok.inj hcount
          obtain ⟨s, hs, h⟩ := Except.bind_eq_ok_iff.1 h
          cases h
          rw [hsplit]
          exact (hfields.ofFields_iff hlength s).1 hs
        · cases hcount
      · rintro ⟨hr, hbounds⟩
        have hlength := hfields.length_eq hr
        refine ⟨fields, if_pos hlength, ?_⟩
        rw [(hfields.ofFields_iff hlength (split r)).2 ⟨hr, hbounds⟩]
        exact congrArg Except.ok (hjoin r)
  | _ => exact .of_other rfl (by rintro _ ⟨⟩) ⟨_, rfl⟩

/-! ## Enumerations -/

section Listed

variable {ρ : Type} [BEq ρ] [LawfulBEq ρ] {values : List (String × ρ)}
  (hall : ∀ r, r ∈ values.map (·.2))

include hall

theorem findIdx_lt_length (r : ρ) : (values.findIdx fun v => v.2 == r) < values.length := by
  obtain ⟨v, hv, hr⟩ := List.mem_map.1 (hall r)
  exact List.findIdx_lt_length_of_exists ⟨v, hv, beq_iff_eq.2 hr⟩

/-- Of values that are listed once, each is found at its position and nowhere else. -/
theorem getElem?_eq_some_iff_findIdx (hnodup : (values.map (·.2)).Nodup) (i : Nat) (r : ρ) :
    values[i]?.map (·.2) = some r ↔ (values.findIdx fun v => v.2 == r) = i := by
  have hlt := findIdx_lt_length hall r
  have hfound : values[values.findIdx fun v => v.2 == r]?.map (·.2) = some r := by
    rw [List.getElem?_eq_getElem hlt, Option.map_some]
    exact congrArg some (beq_iff_eq.1 (List.findIdx_getElem (w := hlt)))
  constructor
  · intro hi
    rw [← List.getElem?_map] at hi hfound
    exact (List.getElem?_inj (by rwa [List.length_map]) hnodup).1 (hfound.trans hi.symm)
  · rintro rfl
    exact hfound

end Listed

theorem ofPayload_ofEnumeration_eq_ok_iff {ρ : Type} [BEq ρ] {name : String}
    {values : List (String × ρ)} (ordinal : UInt32) (r : ρ) :
    (Typed.ofEnumeration name values).ofPayload (.enum ordinal) = .ok r ↔
      values[ordinal.toNat]?.map (·.2) = some r := by
  unfold Typed.ofEnumeration
  dsimp only
  cases values[ordinal.toNat]? <;> simp

/-- An enumeration fits if it has every value once, and no more of them than there are ordinals. -/
theorem mapsAt_ofEnumeration {ρ : Type} [BEq ρ] [LawfulBEq ρ] {name : String}
    {values : List (String × ρ)} (hnodup : (values.map (·.2)).Nodup)
    (hall : ∀ r, r ∈ values.map (·.2)) (hfew : values.length ≤ UInt32.size)
    (enclosing : List TypeDesc) (p : Payload) :
    @MapsAt ρ (.ofEnumeration name values) enclosing p := by
  let _ : Typed ρ := .ofEnumeration name values
  cases p with
  | enum ordinal =>
    have hordinal : ∀ r, UInt32.ofNat (values.findIdx fun v => v.2 == r) = ordinal ↔
        values[ordinal.toNat]?.map (·.2) = some r := by
      intro r
      have hlt := Nat.lt_of_lt_of_le (findIdx_lt_length hall r) hfew
      rw [getElem?_eq_some_iff_findIdx hall hnodup]
      constructor
      · rintro rfl
        rw [UInt32.toNat_ofNat_of_lt' hlt]
      · intro h
        rw [h, UInt32.ofNat_toNat]
    constructor
    · show decide (ordinal.toNat < (values.map (·.1)).length) = true ↔
        ∃ r, Payload.enum (UInt32.ofNat (values.findIdx fun v => v.2 == r)) = .enum ordinal
      simp only [Payload.enum.injEq, hordinal, ← Option.isSome_iff_exists, Option.isSome_map,
        List.length_map, decide_eq_true_iff]
      simp
    · intro r
      rw [ofPayload_ofEnumeration_eq_ok_iff, ← hordinal]
      show _ ↔ Payload.enum (UInt32.ofNat (values.findIdx fun v => v.2 == r)) = .enum ordinal ∧
        true = true
      rw [Payload.enum.injEq, and_iff_left rfl]
  | _ => exact .of_other rfl (by rintro _ ⟨⟩) ⟨_, rfl⟩

end Typed

end ObjectBroker
