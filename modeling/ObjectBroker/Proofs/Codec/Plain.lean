import ObjectBroker.Proofs.Codec.Acceptance
import ObjectBroker.Proofs.Codec.Depth

/-!
# `ObjectBroker.Proofs.Codec.Plain` — values that carry no others

What a reader asks beyond the walk itself concerns the descriptions that travel inside a value: they
have to be well formed, closed and within the levels left, and a codec that collapses `typedef` names
changes them on the way. A value without an `any` carries no description, so it is recovered under
every codec as it stands.
-/

namespace ObjectBroker

namespace Payload

/-- Whether the payload carries no value under a description of its own. -/
def Plain (p : Payload) : Prop := p.contents = []

theorem Plain.of_mem {ps : List Payload} {p : Payload} (h : allContents ps = []) (hp : p ∈ ps) :
    p.Plain := by
  refine List.eq_nil_iff_forall_not_mem.2 fun y hy => ?_
  have hmem : y ∈ allContents ps := mem_allContents.2 ⟨p, hp, hy⟩
  rw [h] at hmem
  cases hmem

/-- What is replaced in a payload is the descriptions in it, and a plain one has none. -/
theorem mapDescriptions_of_plain (f : TypeDesc → TypeDesc) {p : Payload} (h : p.Plain) :
    p.mapDescriptions f = p := by
  have hall : ∀ ps : List Payload, (∀ p ∈ ps, p.Plain → p.mapDescriptions f = p) →
      allContents ps = [] → mapAllDescriptions f ps = ps := by
    intro ps ih hps
    rw [mapAllDescriptions_eq_map, List.map_congr_left fun p hp => ih p hp (.of_mem hps hp),
      List.map_id']
  induction p with
  | sequence ps ih => rw [mapDescriptions, hall ps ih h]
  | array ps ih => rw [mapDescriptions, hall ps ih h]
  | struct ps ih => rw [mapDescriptions, hall ps ih h]
  | union d value ih => rw [mapDescriptions, ih h]
  | any type value => cases h
  | _ => rfl

/-- In a plain payload no description has to fit anywhere. By induction on the levels, with each
    part at one level less. -/
theorem contentsFit_of_plain (levels : Nat) (enclosing : List TypeDesc) (type : TypeDesc)
    {p : Payload} (h : p.Plain) : p.contentsFit levels enclosing type = true := by
  induction levels generalizing enclosing type p with
  | zero => rfl
  | succ levels ih =>
    unfold contentsFit
    split
    · cases h
    · exact List.all_eq_true.2 fun v hv => ih _ _ (.of_mem h hv)
    · exact List.all_eq_true.2 fun v hv => ih _ _ (.of_mem h hv)
    · exact List.all_eq_true.2 fun q hq => ih _ _ (.of_mem h (List.of_mem_zip hq).2)
    · exact (Option.all_eq_true ..).2 fun b _ => ih _ _ h
    · exact (Option.all_eq_true ..).2 fun target _ => ih _ _ h
    · rfl

end Payload

variable {c : Codec}

/-- A plain payload travels as it is. -/
theorem Codec.sent_of_plain {p : Payload} (h : p.Plain) : c.sent p = p := by
  unfold Codec.sent
  cases c.aliases with
  | preserve => rfl
  | collapse => exact Payload.mapDescriptions_of_plain _ h

/-- **Plain values.** Whatever a codec does about `typedef` names, a plain value is recovered within
    any number of levels. -/
theorem recovers_encode_plain (levels : Nat) {type : TypeDesc} {p : Payload}
    (hfit : type.ordinalsFit = true) (hplain : p.Plain) :
    Recovers (c.encode levels [] type p) (c.decode levels [] type) (p.receivedOver c.binding) := by
  have hcontents : (c.sent p).contentsFit levels [] type = true := by
    rw [Codec.sent_of_plain hplain]
    exact Payload.contentsFit_of_plain levels [] type hplain
  have hsent := recovers_encode_sent levels hfit hcontents
  rwa [Codec.sent_of_plain hplain] at hsent

/-! ## Types without `any` -/

/-- Whether `any` does not occur in the type. -/
def TypeDesc.anyless (t : TypeDesc) : Bool :=
  t.everyNode fun
    | .any => false
    | _ => true

theorem TypeDesc.anyless_sequence_iff {element : TypeDesc} {bound : Option UInt32} :
    (TypeDesc.sequence element bound).anyless = true ↔ element.anyless = true := by
  simp only [anyless, everyNode, Bool.true_and]

theorem TypeDesc.anyless_array_iff {element : TypeDesc} {length : UInt32} :
    (TypeDesc.array element length).anyless = true ↔ element.anyless = true := by
  simp only [anyless, everyNode, Bool.true_and]

/-- What a type without `any` amounts to has none either, inside types without one. -/
theorem TypeDesc.anyless_of_shape? {t shape : TypeDesc} {enclosing : List TypeDesc}
    (ht : t.anyless = true) (henclosing : ∀ e ∈ enclosing, e.anyless = true)
    (h : t.shape? enclosing = some shape) : shape.anyless = true := by
  have hresolved : t.resolve.anyless = true := everyNode_resolve ht
  unfold TypeDesc.shape? at h
  split at h
  · exact henclosing shape (List.mem_of_find?_eq_some h)
  · obtain rfl := Option.some.inj h
    exact hresolved

namespace Payload

/-- A payload of the shape of a type without `any` is plain, by induction on the payload. -/
theorem plain_of_conforms {enclosing : List TypeDesc} {t : TypeDesc} {p : Payload}
    (ht : t.anyless = true) (henclosing : ∀ e ∈ enclosing, e.anyless = true)
    (h : p.conforms enclosing t = true) : p.Plain := by
  have hall : ∀ ps : List Payload, (∀ p ∈ ps, p.Plain) → allContents ps = [] := by
    intro ps hps
    refine List.eq_nil_iff_forall_not_mem.2 fun y hy => ?_
    obtain ⟨p, hp, hy⟩ := mem_allContents.1 hy
    rw [hps p hp] at hy
    cases hy
  induction p generalizing enclosing t with
  | any type value =>
    unfold conforms at h
    split at h
    · rename_i hs
      have hany := TypeDesc.anyless_of_shape? ht henclosing hs
      cases hany
    · cases h
  | sequence elements ih =>
    unfold conforms at h
    split at h
    · rename_i element bound hs
      have helement := TypeDesc.anyless_sequence_iff.1
        (TypeDesc.anyless_of_shape? ht henclosing hs)
      rw [conformsAll_eq_all, List.all_eq_true] at h
      exact hall _ fun e he => ih e he helement henclosing (h e he)
    · cases h
  | array elements ih =>
    unfold conforms at h
    split at h
    · rename_i element length hs
      have helement := TypeDesc.anyless_array_iff.1 (TypeDesc.anyless_of_shape? ht henclosing hs)
      rw [conformsAll_eq_all, Bool.and_eq_true, List.all_eq_true] at h
      exact hall _ fun e he => ih e he helement henclosing (h.2 e he)
    · cases h
  | struct fields ih =>
    unfold conforms at h
    split at h
    · rename_i name members hs
      have hstruct := TypeDesc.anyless_of_shape? ht henclosing hs
      have hinside : ∀ e ∈ TypeDesc.struct name members :: enclosing, e.anyless = true :=
        List.forall_mem_cons.2 ⟨hstruct, henclosing⟩
      have hmembers := (TypeDesc.everyNode_struct_iff.1 hstruct).2
      obtain ⟨hlength, hfields⟩ := conformsMembers_iff.1 h
      refine hall _ fun f hf => ?_
      obtain ⟨i, hi⟩ := List.mem_iff_getElem?.1 hf
      have hlt : i < members.length := by
        rw [hlength]
        exact (List.getElem?_eq_some_iff.1 hi).1
      have hm : members[i]? = some members[i] := List.getElem?_eq_getElem hlt
      exact ih f hf (hmembers _ (List.mem_of_getElem? hm)) hinside (hfields i _ f hm hi)
    · cases h
  | union d value ih =>
    unfold conforms at h
    split at h
    · rename_i name discriminant branches hs
      split at h
      · rename_i b hb
        have hunion := TypeDesc.anyless_of_shape? ht henclosing hs
        have hinside : ∀ e ∈ TypeDesc.union name discriminant branches :: enclosing,
            e.anyless = true := List.forall_mem_cons.2 ⟨hunion, henclosing⟩
        have hbranch := (TypeDesc.everyNode_union_iff.1 hunion).2.2 b
          (UnionType.mem_of_selected? hb)
        exact ih hbranch hinside h
      · cases h
    · cases h
  | _ => rfl

end Payload

/-- Under a type without `any` only plain values are written, since only what conforms is. -/
theorem plain_of_writable_encode {levels : Nat} {type : TypeDesc} {p : Payload}
    (htype : type.anyless = true) (h : (c.encode levels [] type p).Writable) : p.Plain := by
  have hsound := sound_of_writable_encode c levels [] type p (by simp) h
  exact Payload.plain_of_conforms htype (by simp) hsound.conforms

end ObjectBroker
