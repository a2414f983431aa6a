import Mathlib.Data.List.Forall2
import ObjectBroker.Values.Conformance

/-!
# `ObjectBroker.Proofs.Values.Soundness` — what is right about a value as a whole

Conformance leaves two things open: how many elements a bounded sequence holds, and what is inside
an `any`. A payload is sound under a type if it conforms, keeps the bounds, and every value carried
in it conforms and keeps the bounds under the description it carries. Soundness of a composite
payload follows from that of its parts.
-/

namespace ObjectBroker

namespace Payload

/-! ## Bounds and contents -/

mutual
/-- Whether every sequence of a bounded type holds no more elements than the bound, inside the given
    enclosing types. The content of an `any` has a description of its own and is not looked at. -/
def withinBounds (enclosing : List TypeDesc) (t : TypeDesc) : Payload → Bool
  | .sequence elements =>
    match t.shape? enclosing with
    | some (.sequence element bound) =>
      bound.all (fun b => elements.length ≤ b.toNat) && allWithinBounds enclosing element elements
    | _ => true
  | .array elements =>
    match t.shape? enclosing with
    | some (.array element _) => allWithinBounds enclosing element elements
    | _ => true
  | .struct fields =>
    match t.shape? enclosing with
    | some (.struct name members) =>
      membersWithinBounds (.struct name members :: enclosing) members fields
    | _ => true
  | .union discriminant value =>
    match t.shape? enclosing with
    | some (.union name type branches) =>
      match UnionType.selected? ⟨name, type, branches⟩ discriminant with
      | some b => withinBounds (.union name type branches :: enclosing) b.type value
      | none => true
    | _ => true
  | .null | .scalar _ | .string _ | .wstring _ | .enum _ | .objectRef _ | .any _ _ => true
/-- Whether every field keeps the bounds of its member. -/
def membersWithinBounds (enclosing : List TypeDesc) : List (Member TypeDesc) → List Payload → Bool
  | m :: ms, f :: fs => withinBounds enclosing m.type f && membersWithinBounds enclosing ms fs
  | _, _ => true
/-- Whether every payload keeps the bounds of the type. -/
def allWithinBounds (enclosing : List TypeDesc) (t : TypeDesc) : List Payload → Bool
  | [] => true
  | p :: ps => withinBounds enclosing t p && allWithinBounds enclosing t ps
end

theorem allWithinBounds_eq_all (enclosing : List TypeDesc) (t : TypeDesc) (ps : List Payload) :
    allWithinBounds enclosing t ps = ps.all (withinBounds enclosing t) := by
  induction ps with
  | nil => rfl
  | cons p ps ih => simp [allWithinBounds, ih]

mutual
/-- The values carried in the payload: the content of each `any`, and the values carried in that. -/
def contents : Payload → List Dynamic
  | .any type value => ⟨type, value⟩ :: contents value
  | .sequence ps | .array ps | .struct ps => allContents ps
  | .union _ value => contents value
  | .null | .scalar _ | .string _ | .wstring _ | .enum _ | .objectRef _ => []
/-- The values carried in the payloads. -/
def allContents : List Payload → List Dynamic
  | [] => []
  | p :: ps => contents p ++ allContents ps
end

theorem mem_allContents {ps : List Payload} {y : Dynamic} :
    y ∈ allContents ps ↔ ∃ p ∈ ps, y ∈ p.contents := by
  induction ps with
  | nil => simp [allContents]
  | cons p ps ih => simp [allContents, ih]

theorem conforms_congr {enclosing : List TypeDesc} {t t' : TypeDesc}
    (h : t.shape? enclosing = t'.shape? enclosing) (p : Payload) :
    p.conforms enclosing t = p.conforms enclosing t' := by
  cases p <;> simp only [conforms, h]

theorem withinBounds_congr {enclosing : List TypeDesc} {t t' : TypeDesc}
    (h : t.shape? enclosing = t'.shape? enclosing) (p : Payload) :
    p.withinBounds enclosing t = p.withinBounds enclosing t' := by
  cases p <;> simp only [withinBounds, h]

end Payload

/-- Whether a value conforms to its description and keeps the bounds of it. -/
def Dynamic.sound (x : Dynamic) : Bool := x.conforming && x.payload.withinBounds [] x.type

/-! ## Soundness -/

/-- **Soundness.** The payload has the shape of the type and keeps its bounds, and so does every
    value carried in it under the description it carries. -/
structure Payload.Sound (enclosing : List TypeDesc) (t : TypeDesc) (p : Payload) : Prop where
  conforms : p.conforms enclosing t = true
  withinBounds : p.withinBounds enclosing t = true
  contents : ∀ y ∈ p.contents, y.sound = true

namespace Payload.Sound

variable {enclosing : List TypeDesc} {t : TypeDesc} {p : Payload}

/-- A payload without parts is sound if it conforms. -/
theorem leaf (hconforms : p.conforms enclosing t = true)
    (hbounds : p.withinBounds enclosing t = true) (hcontents : p.contents = []) :
    p.Sound enclosing t where
  conforms := hconforms
  withinBounds := hbounds
  contents := by simp [hcontents]

/-- Of the type, only its shape counts. -/
theorem congr {t' : TypeDesc} (h : p.Sound enclosing t)
    (hshape : t.shape? enclosing = t'.shape? enclosing) : p.Sound enclosing t' where
  conforms := conforms_congr hshape p ▸ h.conforms
  withinBounds := withinBounds_congr hshape p ▸ h.withinBounds
  contents := h.contents

theorem sequence {element : TypeDesc} {bound : Option UInt32} {elements : List Payload}
    (ht : t.resolve = .sequence element bound)
    (hbound : ∀ b, bound = some b → elements.length ≤ b.toNat)
    (h : ∀ e ∈ elements, e.Sound enclosing element) :
    (Payload.sequence elements).Sound enclosing t where
  conforms := by
    simp only [Payload.conforms, TypeDesc.shape?, ht, conformsAll_eq_all, List.all_eq_true]
    exact fun e he => (h e he).conforms
  withinBounds := by
    simp only [Payload.withinBounds, TypeDesc.shape?, ht, allWithinBounds_eq_all, Bool.and_eq_true,
      List.all_eq_true, Option.all_eq_true, decide_eq_true_eq]
    exact ⟨hbound, fun e he => (h e he).withinBounds⟩
  contents := by
    intro y hy
    obtain ⟨e, he, hy⟩ := mem_allContents.1 hy
    exact (h e he).contents y hy

theorem array {element : TypeDesc} {length : UInt32} {elements : List Payload}
    (ht : t.resolve = .array element length) (hlength : elements.length = length.toNat)
    (h : ∀ e ∈ elements, e.Sound enclosing element) :
    (Payload.array elements).Sound enclosing t where
  conforms := by
    simp only [Payload.conforms, TypeDesc.shape?, ht, conformsAll_eq_all, Bool.and_eq_true,
      beq_iff_eq, List.all_eq_true]
    exact ⟨hlength, fun e he => (h e he).conforms⟩
  withinBounds := by
    simp only [Payload.withinBounds, TypeDesc.shape?, ht, allWithinBounds_eq_all, List.all_eq_true]
    exact fun e he => (h e he).withinBounds
  contents := by
    intro y hy
    obtain ⟨e, he, hy⟩ := mem_allContents.1 hy
    exact (h e he).contents y hy

/-- Fields that are sound under the members, one by one. -/
theorem fields {members : List (Member TypeDesc)} {values : List Payload}
    (h : List.Forall₂ (fun m f => f.Sound enclosing m.type) members values) :
    conformsMembers enclosing members values = true ∧
      membersWithinBounds enclosing members values = true ∧
      ∀ f ∈ values, ∀ y ∈ f.contents, y.sound = true := by
  induction h with
  | nil => simp [conformsMembers, membersWithinBounds]
  | cons hfirst _ ih =>
    obtain ⟨hconforms, hbounds, hcontents⟩ := ih
    simp only [conformsMembers, membersWithinBounds, hfirst.conforms, hfirst.withinBounds,
      hconforms, hbounds, Bool.and_self, true_and]
    exact List.forall_mem_cons.2 ⟨hfirst.contents, hcontents⟩

theorem struct {name : String} {members : List (Member TypeDesc)} {values : List Payload}
    (ht : t.resolve = .struct name members)
    (h : List.Forall₂ (fun m f => Payload.Sound (.struct name members :: enclosing) m.type f)
      members values) :
    (Payload.struct values).Sound enclosing t where
  conforms := by
    simp only [Payload.conforms, TypeDesc.shape?, ht]
    exact (fields h).1
  withinBounds := by
    simp only [Payload.withinBounds, TypeDesc.shape?, ht]
    exact (fields h).2.1
  contents := by
    intro y hy
    obtain ⟨f, hf, hy⟩ := mem_allContents.1 hy
    exact (fields h).2.2 f hf y hy

theorem union {name : String} {type : TypeDesc} {branches : List (Branch TypeDesc)} {d : Int64}
    {b : Branch TypeDesc} (ht : t.resolve = .union name type branches)
    (hb : UnionType.selected? ⟨name, type, branches⟩ d = some b)
    (h : p.Sound (.union name type branches :: enclosing) b.type) :
    (Payload.union d p).Sound enclosing t where
  conforms := by
    simp only [Payload.conforms, TypeDesc.shape?, ht, hb]
    exact h.conforms
  withinBounds := by
    simp only [Payload.withinBounds, TypeDesc.shape?, ht, hb]
    exact h.withinBounds
  contents := h.contents

/-- The content of an `any` is sound outside of every enclosing type. -/
theorem any {type : TypeDesc} (ht : t.resolve = .any) (h : p.Sound [] type) :
    (Payload.any type p).Sound enclosing t where
  conforms := by simp only [Payload.conforms, TypeDesc.shape?, ht]
  withinBounds := rfl
  contents := by
    intro y hy
    rcases List.mem_cons.1 hy with rfl | hy
    · simp only [Dynamic.sound, Dynamic.conforming, h.conforms, h.withinBounds, Bool.and_self]
    · exact h.contents y hy

end Payload.Sound

end ObjectBroker
