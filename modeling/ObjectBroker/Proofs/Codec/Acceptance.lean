import ObjectBroker.Proofs.Codec.Atomic
import ObjectBroker.Proofs.Codec.Faults
import ObjectBroker.Proofs.Codec.Soundness
import ObjectBroker.Proofs.Values.Simulation

/-!
# `ObjectBroker.Proofs.Codec.Acceptance` — what a writer accepts

Whether a payload has the shape of a type is decided in two places. The conformance check decides it
when a value is put together; the writer decides it once more, node by node, as it meets the value.
Here the two are compared.

A writer accepts nothing that does not conform, neither in the value nor in anything carried in it,
and it keeps the bounds of sequences, which conformance leaves open. The other way about, it never
blames the type of a value that conforms. What it can still complain of is what conformance does not
look at: bounds, the range of discriminants, the number of levels, and data without a form on the
wire.

Both directions go down the value along the type, and a marker stands for the same struct or union
on both stacks, as it does for a reader.

## Contents
- `forall₂_of_writable_fields`, `exists_of_writable_alternative` and others: what a composite that
  was written has passed.
- `sound_of_writable_node`, `sound_of_writable_encode`: only sound values are written.
- `Fault.sparesType`; `Payload.ConformsThroughout`, with one lemma for each composite payload.
- `spares_node`, `spares_encode`: the type of a conforming value is not blamed.
- `acceptance_of_writeValue`: the main result.
-/

namespace ObjectBroker

open Emit

/-! ## Values that are written -/

/-- A writer of parts accepts sound values only. -/
def PartWriter.AcceptsSound (write : PartWriter) : Prop :=
  ∀ (enclosing : List TypeDesc) (type : TypeDesc) (value : Payload),
    (∀ t ∈ enclosing, t.isComposite = true) → (write enclosing type value).Writable →
    value.Sound enclosing type

section Writing

variable {s : Settings} {write : PartWriter} {enclosing : List TypeDesc}

theorem forall₂_of_writable_fields {struct : StructType} {values : List Payload}
    (h : (Encode.fields write enclosing struct values).Writable) :
    List.Forall₂ (fun m v => (write (struct.desc :: enclosing) m.type v).Writable)
      struct.members values := by
  unfold Encode.fields at h
  split at h
  · exact absurd h (not_writable_fail _)
  · rename_i hlength
    refine List.forall₂_iff_zip.2 ⟨not_not.1 hlength, ?_⟩
    intro m v hmv
    exact h.of_concat (m, v) hmv

theorem exists_of_writable_alternative {union : UnionType} {d : Int64} {value : Payload}
    (h : (Encode.alternative s write enclosing union d value).Writable) :
    ∃ b, union.selected? d = some b ∧ (write (union.desc :: enclosing) b.type value).Writable := by
  unfold Encode.alternative at h
  split at h
  · exact absurd h (not_writable_fail _)
  · split at h
    · exact absurd h (not_writable_fail _)
    · rename_i b hb
      exact ⟨b, hb, h.parts.2⟩

/-- The elements of a sequence are no more than the bound, and each can be written. -/
theorem forall_of_writable_elements {element : TypeDesc} {bound : Option UInt32}
    {values : List Payload} (h : (Encode.elements s write enclosing element bound values).Writable) :
    (∀ b, bound = some b → values.length ≤ b.toNat) ∧
      ∀ v ∈ values, (write enclosing element v).Writable := by
  unfold Encode.elements at h
  split at h
  · exact absurd h (not_writable_fail _)
  · rename_i hbound
    refine ⟨?_, h.parts.2.of_concat⟩
    rintro b rfl
    simpa [Option.filter] using hbound

theorem forall_of_writable_fixedElements {element : TypeDesc} {length : UInt32}
    {values : List Payload}
    (h : (Encode.fixedElements write enclosing element length values).Writable) :
    values.length = length.toNat ∧ ∀ v ∈ values, (write enclosing element v).Writable := by
  unfold Encode.fixedElements at h
  split at h
  · exact absurd h (not_writable_fail _)
  · rename_i hlength
    exact ⟨not_not.1 hlength, h.of_concat⟩

theorem ordinal_lt_of_writable {name : String} {enumerators : List String} {ordinal : UInt32}
    (h : (Encode.enumerator s name enumerators ordinal).Writable) :
    ordinal.toNat < enumerators.length := by
  unfold Encode.enumerator at h
  split at h
  · assumption
  · exact absurd h (not_writable_fail _)

/-- **One node that is written.** It is sound if every part that can be written is. -/
theorem sound_of_writable_node {c : Codec} {type : TypeDesc} {value : Payload}
    (hwrite : write.AcceptsSound) (henclosing : ∀ t ∈ enclosing, t.isComposite = true)
    (h : (Encode.node c write enclosing type value).Writable) : value.Sound enclosing type := by
  have hleaf : ∀ {p : Payload}, p.conforms enclosing type = true →
      p.withinBounds enclosing type = true → p.contents = [] → p.Sound enclosing type :=
    Payload.Sound.leaf
  unfold Encode.node at h
  cases htype : type.resolve with
  | null =>
    rw [htype] at h
    cases value with
    | null => exact hleaf (by simp only [Payload.conforms, TypeDesc.shape?, htype]) rfl rfl
    | _ => exact absurd h (not_writable_fail _)
  | scalar kind =>
    rw [htype] at h
    cases value with
    | scalar v =>
      dsimp only at h
      split at h
      · rename_i hkind
        refine hleaf ?_ rfl rfl
        simp only [Payload.conforms, TypeDesc.shape?, htype, hkind, beq_self_eq_true]
      · exact absurd h (not_writable_fail _)
    | _ => exact absurd h (not_writable_fail _)
  | string =>
    rw [htype] at h
    cases value with
    | string text => exact hleaf (by simp only [Payload.conforms, TypeDesc.shape?, htype]) rfl rfl
    | _ => exact absurd h (not_writable_fail _)
  | wstring =>
    rw [htype] at h
    cases value with
    | wstring text => exact hleaf (by simp only [Payload.conforms, TypeDesc.shape?, htype]) rfl rfl
    | _ => exact absurd h (not_writable_fail _)
  | enum name enumerators =>
    rw [htype] at h
    cases value with
    | enum ordinal =>
      refine hleaf ?_ rfl rfl
      simp only [Payload.conforms, TypeDesc.shape?, htype, decide_eq_true_eq]
      exact ordinal_lt_of_writable h
    | _ => exact absurd h (not_writable_fail _)
  | objectRef interface =>
    rw [htype] at h
    cases value with
    | objectRef r => exact hleaf (by simp only [Payload.conforms, TypeDesc.shape?, htype]) rfl rfl
    | _ => exact absurd h (not_writable_fail _)
  | any =>
    rw [htype] at h
    cases value with
    | any described value =>
      exact Payload.Sound.any htype (hwrite [] described value (by simp) h.parts.2)
    | _ => exact absurd h (not_writable_fail _)
  | sequence element bound =>
    rw [htype] at h
    cases value with
    | sequence values =>
      obtain ⟨hbound, hvalues⟩ := forall_of_writable_elements h
      exact Payload.Sound.sequence htype hbound fun v hv =>
        hwrite enclosing element v henclosing (hvalues v hv)
    | _ => exact absurd h (not_writable_fail _)
  | array element length =>
    rw [htype] at h
    cases value with
    | array values =>
      obtain ⟨hlength, hvalues⟩ := forall_of_writable_fixedElements h
      exact Payload.Sound.array htype hlength fun v hv =>
        hwrite enclosing element v henclosing (hvalues v hv)
    | _ => exact absurd h (not_writable_fail _)
  | struct name members =>
    rw [htype] at h
    cases value with
    | struct values =>
      have hinside : ∀ t ∈ TypeDesc.struct name members :: enclosing, t.isComposite = true :=
        List.forall_mem_cons.2 ⟨rfl, henclosing⟩
      refine Payload.Sound.struct htype ((forall₂_of_writable_fields h).imp ?_)
      exact fun m v hv => hwrite _ m.type v hinside hv
    | _ => exact absurd h (not_writable_fail _)
  | union name discriminant branches =>
    rw [htype] at h
    cases value with
    | union d value =>
      obtain ⟨b, hb, hvalue⟩ := exists_of_writable_alternative h
      have hinside : ∀ t ∈ TypeDesc.union name discriminant branches :: enclosing,
          t.isComposite = true := List.forall_mem_cons.2 ⟨rfl, henclosing⟩
      exact Payload.Sound.union htype hb (hwrite _ b.type value hinside hvalue)
    | _ => exact absurd h (not_writable_fail _)
  | recursive name =>
    rw [htype] at h
    dsimp only at h
    cases htarget : TypeDesc.enclosing? name enclosing with
    | none =>
      rw [htarget] at h
      exact absurd h (not_writable_fail _)
    | some target =>
      -- The target is on the stack, so it is a struct or union, and what the marker stands for.
      rw [htarget] at h
      have hcomposite := henclosing target (List.mem_of_find?_eq_some htarget)
      have hsound := hwrite enclosing target value henclosing h
      exact hsound.congr (TypeDesc.shape?_of_marker htype htarget hcomposite).symm
  | typedef name underlying => exact absurd htype (type.resolve_ne_typedef name underlying)

end Writing

/-- **Values that are written.** Within any number of levels, only sound values are written. -/
theorem sound_of_writable_encode (c : Codec) (levels : Nat) : (c.encode levels).AcceptsSound := by
  induction levels with
  | zero =>
    intro enclosing type value _ h
    exact absurd h (not_writable_fail _)
  | succ levels ih =>
    intro enclosing type value henclosing h
    exact sound_of_writable_node ih henclosing h

/-! ## Values that conform -/

/-- Whether the fault leaves the type of a value alone: it is about the bound of a sequence, a
    discriminant, the number of levels, or a datum. -/
def Fault.sparesType (limit : Nat) : Fault → Bool
  | .boundViolation _ _ | .unknownDiscriminant _ | .invalidData _ => true
  | .depthExceeded levels => levels == limit
  | _ => false

theorem Fault.sparesType_of_isData (limit : Nat) (f : Fault) (h : f.IsData) :
    f.sparesType limit = true := by
  obtain ⟨cause, rfl⟩ := h
  rfl

theorem Fault.cases_of_sparesType {limit : Nat} {f : Fault} (h : f.sparesType limit = true) :
    (∃ bound length, f = .boundViolation bound length) ∨ (∃ d, f = .unknownDiscriminant d) ∨
      f = .depthExceeded limit ∨ ∃ cause, f = .invalidData cause := by
  cases f with
  | boundViolation bound length => exact .inl ⟨bound, length, rfl⟩
  | unknownDiscriminant d => exact .inr (.inl ⟨d, rfl⟩)
  | depthExceeded levels => exact .inr (.inr (.inl (congrArg _ (beq_iff_eq.1 h))))
  | invalidData cause => exact .inr (.inr (.inr ⟨cause, rfl⟩))
  | _ => cases h

/-- The payload conforms to the type, and every value carried in it conforms to its own. -/
structure Payload.ConformsThroughout (enclosing : List TypeDesc) (t : TypeDesc) (p : Payload) :
    Prop where
  here : p.conforms enclosing t = true
  contents : ∀ y ∈ p.contents, y.conforming = true

namespace Payload.ConformsThroughout

variable {enclosing : List TypeDesc} {t : TypeDesc} {p : Payload}

/-- Of the type, only its shape counts. -/
theorem congr {t' : TypeDesc} (h : p.ConformsThroughout enclosing t)
    (hshape : t.shape? enclosing = t'.shape? enclosing) : p.ConformsThroughout enclosing t' where
  here := conforms_congr hshape p ▸ h.here
  contents := h.contents

theorem sequence {element : TypeDesc} {bound : Option UInt32} {elements : List Payload}
    (ht : t.resolve = .sequence element bound)
    (h : (Payload.sequence elements).ConformsThroughout enclosing t) :
    ∀ e ∈ elements, e.ConformsThroughout enclosing element := by
  have hhere := h.here
  simp only [conforms, TypeDesc.shape?, ht, conformsAll_eq_all, List.all_eq_true] at hhere
  exact fun e he => ⟨hhere e he, fun y hy => h.contents y (mem_allContents.2 ⟨e, he, hy⟩)⟩

theorem array {element : TypeDesc} {length : UInt32} {elements : List Payload}
    (ht : t.resolve = .array element length)
    (h : (Payload.array elements).ConformsThroughout enclosing t) :
    ∀ e ∈ elements, e.ConformsThroughout enclosing element := by
  have hhere := h.here
  simp only [conforms, TypeDesc.shape?, ht, conformsAll_eq_all, Bool.and_eq_true,
    List.all_eq_true] at hhere
  exact fun e he => ⟨hhere.2 e he, fun y hy => h.contents y (mem_allContents.2 ⟨e, he, hy⟩)⟩

theorem struct {name : String} {members : List (Member TypeDesc)} {fields : List Payload}
    (ht : t.resolve = .struct name members)
    (h : (Payload.struct fields).ConformsThroughout enclosing t) :
    ∀ q ∈ members.zip fields,
      q.2.ConformsThroughout (.struct name members :: enclosing) q.1.type := by
  have hhere := h.here
  simp only [conforms, TypeDesc.shape?, ht, conformsMembers_iff] at hhere
  intro q hq
  obtain ⟨i, hi⟩ := List.mem_iff_getElem?.1 hq
  obtain ⟨hm, hf⟩ := List.getElem?_zip_eq_some.1 hi
  exact ⟨hhere.2 i q.1 q.2 hm hf, fun y hy =>
    h.contents y (mem_allContents.2 ⟨q.2, List.mem_of_getElem? hf, hy⟩)⟩

theorem union {name : String} {type : TypeDesc} {branches : List (Branch TypeDesc)} {d : Int64}
    {b : Branch TypeDesc} (ht : t.resolve = .union name type branches)
    (hb : UnionType.selected? ⟨name, type, branches⟩ d = some b)
    (h : (Payload.union d p).ConformsThroughout enclosing t) :
    p.ConformsThroughout (.union name type branches :: enclosing) b.type := by
  have hhere := h.here
  simp only [conforms, TypeDesc.shape?, ht, hb] at hhere
  exact ⟨hhere, h.contents⟩

/-- What an `any` carries conforms outside of every enclosing type. -/
theorem any {type : TypeDesc} (h : (Payload.any type p).ConformsThroughout enclosing t) :
    p.ConformsThroughout [] type where
  here := h.contents ⟨type, p⟩ List.mem_cons_self
  contents := fun y hy => h.contents y (List.mem_cons_of_mem _ hy)

end Payload.ConformsThroughout

/-- A writer of parts does not blame the type of a value that conforms. -/
def PartWriter.Spares (limit : Nat) (write : PartWriter) : Prop :=
  ∀ (enclosing : List TypeDesc) (type : TypeDesc) (value : Payload),
    (∀ t ∈ enclosing, t.isComposite = true) → value.ConformsThroughout enclosing type →
    (write enclosing type value).FailsWith (·.sparesType limit = true)

/-- **One node that conforms.** Its type is not blamed if those of its parts are not. Each kind of
    payload conforms to one kind of type only, so no node is met that is refused for its kind. -/
theorem spares_node {c : Codec} {limit : Nat} {write : PartWriter} {enclosing : List TypeDesc}
    {type : TypeDesc} {value : Payload} (hwrite : write.Spares limit)
    (henclosing : ∀ t ∈ enclosing, t.isComposite = true)
    (h : value.ConformsThroughout enclosing type) :
    (Encode.node c write enclosing type value).FailsWith (·.sparesType limit = true) := by
  have hspares : ∀ f : Fault, f.IsData → f.sparesType limit = true := Fault.sparesType_of_isData limit
  have hdata : ∀ {e : Emit}, e.FailsWith Fault.IsData → e.FailsWith (·.sparesType limit = true) :=
    fun h => h.mono hspares
  have hhere := h.here
  unfold Encode.node
  cases htype : type.resolve with
  | null =>
    cases value with
    | null => exact FailsWith.nothing
    | _ => simp [Payload.conforms, TypeDesc.shape?, htype] at hhere
  | scalar kind =>
    cases value with
    | scalar v =>
      have hkind : v.kind = kind := by
        simpa only [Payload.conforms, TypeDesc.shape?, htype, beq_iff_eq] using hhere
      dsimp only
      rw [if_pos hkind]
      exact hdata (failsWith_scalar c.settings v)
    | _ => simp [Payload.conforms, TypeDesc.shape?, htype] at hhere
  | string =>
    cases value with
    | string text => exact hdata (failsWith_string c.settings text)
    | _ => simp [Payload.conforms, TypeDesc.shape?, htype] at hhere
  | wstring =>
    cases value with
    | wstring text => exact hdata (failsWith_wstring c.settings text)
    | _ => simp [Payload.conforms, TypeDesc.shape?, htype] at hhere
  | enum name enumerators =>
    cases value with
    | enum ordinal => exact hdata (failsWith_enumerator c.settings name enumerators ordinal)
    | _ => simp [Payload.conforms, TypeDesc.shape?, htype] at hhere
  | objectRef interface =>
    cases value with
    | objectRef r => exact hdata (failsWith_reference c.settings r)
    | _ => simp [Payload.conforms, TypeDesc.shape?, htype] at hhere
  | any =>
    cases value with
    | any described value =>
      exact failsWith_content hspares c (hwrite [] described value (by simp) h.any)
    | _ => simp [Payload.conforms, TypeDesc.shape?, htype] at hhere
  | sequence element bound =>
    cases value with
    | sequence values =>
      exact failsWith_elements hspares c.settings (fun _ _ => rfl) fun v hv =>
        hwrite _ _ v henclosing (h.sequence htype v hv)
    | _ => simp [Payload.conforms, TypeDesc.shape?, htype] at hhere
  | array element length =>
    cases value with
    | array values =>
      exact failsWith_fixedElements hspares fun v hv =>
        hwrite _ _ v henclosing (h.array htype v hv)
    | _ => simp [Payload.conforms, TypeDesc.shape?, htype] at hhere
  | struct name members =>
    cases value with
    | struct values =>
      have hinside : ∀ t ∈ TypeDesc.struct name members :: enclosing, t.isComposite = true :=
        List.forall_mem_cons.2 ⟨rfl, henclosing⟩
      exact failsWith_fields hspares fun q hq =>
        hwrite _ q.1.type q.2 hinside (h.struct htype q hq)
    | _ => simp [Payload.conforms, TypeDesc.shape?, htype] at hhere
  | union name discriminant branches =>
    cases value with
    | union d value =>
      have hinside : ∀ t ∈ TypeDesc.union name discriminant branches :: enclosing,
          t.isComposite = true := List.forall_mem_cons.2 ⟨rfl, henclosing⟩
      exact failsWith_alternative hspares c.settings (fun _ => rfl) fun b hb =>
        hwrite _ b.type value hinside (h.union htype hb)
    | _ => simp [Payload.conforms, TypeDesc.shape?, htype] at hhere
  | recursive name =>
    dsimp only
    cases htarget : TypeDesc.enclosing? name enclosing with
    | none =>
      -- A marker for nothing has no shape, and no payload has the shape of it.
      cases value <;> simp [Payload.conforms, TypeDesc.shape?, htype, htarget] at hhere
    | some target =>
      have hcomposite := henclosing target (List.mem_of_find?_eq_some htarget)
      exact hwrite enclosing target value henclosing
        (h.congr (TypeDesc.shape?_of_marker htype htarget hcomposite))
  | typedef name underlying => exact absurd htype (type.resolve_ne_typedef name underlying)

/-- **Values that conform.** Within any number of levels, the type of a conforming value is not
    blamed. -/
theorem spares_encode (c : Codec) (levels : Nat) : (c.encode levels).Spares c.maxDepth := by
  induction levels with
  | zero =>
    intro enclosing type value _ _
    exact FailsWith.fail (beq_self_eq_true c.maxDepth)
  | succ levels ih =>
    intro enclosing type value henclosing h
    exact spares_node ih henclosing h

/-! ## Acceptance and conformance -/

/-- **Acceptance.** Whatever a message holds and under whatever parameters: a value that is written
    conforms to its type, keeps the bounds of every sequence in it, and the same is true of every
    value carried in it, at any depth, under its own description. And where a value conforms, and so
    does every value carried in it, there is only a bound, a discriminant, the number of levels or a
    datum that it can be refused for. -/
theorem acceptance_of_writeValue (c : Codec) (x : Dynamic) (before : Writer) :
    (∀ after, c.writeValue x before = (.ok (), after) →
      (Dynamic.ofPayload x.type x.payload = .ok x ∧ x.payload.withinBounds [] x.type = true) ∧
        ∀ y ∈ x.payload.contents,
          Dynamic.ofPayload y.type y.payload = .ok y ∧
            y.payload.withinBounds [] y.type = true) ∧
      (x.conforming = true → (∀ y ∈ x.payload.contents, y.conforming = true) →
        ∀ f after, c.writeValue x before = (.error f, after) →
          (∃ bound length, f = .boundViolation bound length) ∨ (∃ d, f = .unknownDiscriminant d) ∨
            f = .depthExceeded c.maxDepth ∨ ∃ cause, f = .invalidData cause) := by
  have hwhole := (follows_write c c.maxDepth [] x.type x.payload).attempt before.content
  constructor
  · intro after hwritten
    rcases hwhole with ⟨written, hpiece, -⟩ | ⟨f, -, hfails⟩
    · have hsound := sound_of_writable_encode c c.maxDepth [] x.type x.payload (by simp)
        ⟨_, written, hpiece⟩
      refine ⟨⟨Dynamic.ofPayload_eq_ok_iff.2 ⟨hsound.conforms, rfl⟩, hsound.withinBounds⟩, ?_⟩
      intro y hy
      obtain ⟨hconforms, hbounds⟩ := Bool.and_eq_true_iff.1 (hsound.contents y hy)
      exact ⟨Dynamic.ofPayload_eq_ok_iff.2 ⟨hconforms, rfl⟩, hbounds⟩
    · cases hfails.symm.trans hwritten
  · intro hx hcontents f after hrefused
    rcases hwhole with ⟨written, -, hsucceeds⟩ | ⟨f', hpiece, hfails⟩
    · cases hsucceeds.symm.trans hrefused
    · cases hfails.symm.trans hrefused
      have hspares := spares_encode c c.maxDepth [] x.type x.payload (by simp) ⟨hx, hcontents⟩
      exact Fault.cases_of_sparesType (hspares _ f hpiece)

/-- A number in a sequence of at most two values of any type. -/
def carriedNumber : Dynamic :=
  ⟨.sequence .any (some 2), .sequence [.any (.scalar .long) (.scalar (.long 5))]⟩

/-- Two numbers where one is the bound. -/
def crowdedPair : Dynamic :=
  ⟨.sequence (.scalar .octet) (some 1), .sequence [.scalar (.octet 1), .scalar (.octet 2)]⟩

/-- The one is written, and the other conforms and is refused for its bound. -/
theorem acceptance_of_writeValue_sequences :
    (({} : Codec).writeValue carriedNumber {}
        = (.ok (), ⟨[1, 0, 0, 0, 3, 0, 0, 0, 5, 0, 0, 0]⟩) ∧
      (Dynamic.ofPayload carriedNumber.type carriedNumber.payload = .ok carriedNumber ∧
        carriedNumber.payload.withinBounds [] carriedNumber.type = true) ∧
      ∀ y ∈ carriedNumber.payload.contents,
        Dynamic.ofPayload y.type y.payload = .ok y ∧ y.payload.withinBounds [] y.type = true) ∧
      (crowdedPair.conforming = true ∧ ∀ y ∈ crowdedPair.payload.contents, y.conforming = true) ∧
        ∃ f, ({} : Codec).writeValue crowdedPair {} = (.error f, {}) ∧
          ((∃ bound length, f = .boundViolation bound length) ∨ (∃ d, f = .unknownDiscriminant d) ∨
            f = .depthExceeded ({} : Codec).maxDepth ∨ ∃ cause, f = .invalidData cause) := by
  have hwritten : ({} : Codec).writeValue carriedNumber {}
      = (.ok (), ⟨[1, 0, 0, 0, 3, 0, 0, 0, 5, 0, 0, 0]⟩) := by rfl
  have hrefused : ({} : Codec).writeValue crowdedPair {} = (.error (.boundViolation 1 2), {}) := by
    rfl
  have hconforming : crowdedPair.conforming = true := by decide
  have hcontents : ∀ y ∈ crowdedPair.payload.contents, y.conforming = true := by
    intro y hy
    cases hy
  have hsound := (acceptance_of_writeValue {} carriedNumber {}).1 _ hwritten
  have hcause := (acceptance_of_writeValue {} crowdedPair {}).2 hconforming hcontents _ _ hrefused
  exact ⟨⟨hwritten, hsound⟩, ⟨hconforming, hcontents⟩, _, hrefused, hcause⟩

end ObjectBroker
