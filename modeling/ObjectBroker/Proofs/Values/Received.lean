import Mathlib.Data.List.Basic
import ObjectBroker.Values.Basic

/-!
# `ObjectBroker.Proofs.Values.Received` — a value as its receiver sees it

The connection a reference is bound to does not travel. So what a peer receives is the value sent,
with each reference bound to the connection it arrived on instead; the nil reference, which
designates nothing, is bound to none.
-/

namespace ObjectBroker

namespace Payload

mutual
/-- The payload with each reference replaced, at any depth. -/
def mapReferences (f : ObjectRef → ObjectRef) : Payload → Payload
  | .objectRef reference => .objectRef (f reference)
  | .sequence elements => .sequence (mapAllReferences f elements)
  | .array elements => .array (mapAllReferences f elements)
  | .struct fields => .struct (mapAllReferences f fields)
  | .union discriminant value => .union discriminant (mapReferences f value)
  | .any type value => .any type (mapReferences f value)
  | .null => .null
  | .scalar v => .scalar v
  | .string text => .string text
  | .wstring text => .wstring text
  | .enum ordinal => .enum ordinal
/-- Payloads with each reference replaced. -/
def mapAllReferences (f : ObjectRef → ObjectRef) : List Payload → List Payload
  | [] => []
  | p :: ps => mapReferences f p :: mapAllReferences f ps
end

theorem mapAllReferences_eq_map (f : ObjectRef → ObjectRef) (ps : List Payload) :
    mapAllReferences f ps = ps.map (mapReferences f) := by
  induction ps with
  | nil => rfl
  | cons p ps ih => rw [mapAllReferences, ih, List.map_cons]

mutual
/-- The references in the payload, at any depth. -/
def references : Payload → List ObjectRef
  | .objectRef reference => [reference]
  | .sequence ps | .array ps | .struct ps => allReferences ps
  | .union _ value => references value
  | .any _ value => references value
  | .null | .scalar _ | .string _ | .wstring _ | .enum _ => []
/-- The references in payloads. -/
def allReferences : List Payload → List ObjectRef
  | [] => []
  | p :: ps => references p ++ allReferences ps
end

theorem allReferences_eq_flatMap (ps : List Payload) :
    allReferences ps = ps.flatMap references := by
  induction ps with
  | nil => rfl
  | cons p ps ih => rw [allReferences, ih, List.flatMap_cons]

/-- No reference is missed when references are replaced. -/
theorem references_mapReferences (f : ObjectRef → ObjectRef) (p : Payload) :
    (p.mapReferences f).references = p.references.map f := by
  have hall : ∀ ps : List Payload, (∀ p ∈ ps, (p.mapReferences f).references = p.references.map f) →
      allReferences (mapAllReferences f ps) = (allReferences ps).map f := by
    intro ps h
    simp only [allReferences_eq_flatMap, mapAllReferences_eq_map, List.flatMap_map,
      List.map_flatMap]
    exact List.flatMap_congr h
  induction p with
  | sequence ps ih => exact hall ps ih
  | array ps ih => exact hall ps ih
  | struct ps ih => exact hall ps ih
  | union d value ih => exact ih
  | any type value ih => exact ih
  | _ => rfl

/-- A payload has a reference to some object if one of its references is not nil. -/
theorem hasReference_iff {p : Payload} :
    p.hasReference = true ↔ ∃ r ∈ p.references, r.isNil = false := by
  have hall : ∀ ps : List Payload,
      (∀ p ∈ ps, p.hasReference = true ↔ ∃ r ∈ p.references, r.isNil = false) →
      (anyHasReference ps = true ↔ ∃ r ∈ allReferences ps, r.isNil = false) := by
    intro ps ih
    rw [anyHasReference_eq_any, allReferences_eq_flatMap, List.any_eq_true]
    constructor
    · rintro ⟨p, hp, hreference⟩
      obtain ⟨r, hr, hnil⟩ := (ih p hp).1 hreference
      exact ⟨r, List.mem_flatMap.2 ⟨p, hp, hr⟩, hnil⟩
    · rintro ⟨r, hr, hnil⟩
      obtain ⟨p, hp, hr⟩ := List.mem_flatMap.1 hr
      exact ⟨p, hp, (ih p hp).2 ⟨r, hr, hnil⟩⟩
  induction p with
  | objectRef r => simp [hasReference, references]
  | sequence ps ih => exact hall ps ih
  | array ps ih => exact hall ps ih
  | struct ps ih => exact hall ps ih
  | union d value ih => exact ih
  | any type value ih => exact ih
  | _ => simp [hasReference, references]

/-- References that are mapped alike can be mapped either way. -/
theorem mapReferences_congr {f g : ObjectRef → ObjectRef} {p : Payload}
    (h : ∀ r ∈ p.references, f r = g r) : p.mapReferences f = p.mapReferences g := by
  have hall : ∀ ps : List Payload,
      (∀ p ∈ ps, (∀ r ∈ p.references, f r = g r) → p.mapReferences f = p.mapReferences g) →
      (∀ r ∈ allReferences ps, f r = g r) → mapAllReferences f ps = mapAllReferences g ps := by
    intro ps ih h
    simp only [mapAllReferences_eq_map, allReferences_eq_flatMap] at *
    refine List.map_congr_left fun p hp => ih p hp fun r hr => ?_
    exact h r (List.mem_flatMap.2 ⟨p, hp, hr⟩)
  induction p with
  | objectRef r => rw [mapReferences, mapReferences, h r (List.mem_singleton_self r)]
  | sequence ps ih => rw [mapReferences, mapReferences, hall ps ih h]
  | array ps ih => rw [mapReferences, mapReferences, hall ps ih h]
  | struct ps ih => rw [mapReferences, mapReferences, hall ps ih h]
  | union d value ih => rw [mapReferences, mapReferences, ih h]
  | any type value ih => rw [mapReferences, mapReferences, ih h]
  | _ => rfl

end Payload

/-- A reference as it arrives: bound as given, unless it is nil. -/
def ObjectRef.receivedOver (binding : Option ConnectionId) (r : ObjectRef) : ObjectRef :=
  if r.isNil then .nil else { r with connection := binding }

/-- A payload as it arrives. -/
def Payload.receivedOver (binding : Option ConnectionId) (p : Payload) : Payload :=
  p.mapReferences (·.receivedOver binding)

/-- A dynamic value as it arrives under its own description. -/
def Dynamic.receivedOver (binding : Option ConnectionId) (x : Dynamic) : Dynamic :=
  { x with payload := x.payload.receivedOver binding }

/-- What a reference designates arrives with it, whether or not that is nothing. -/
theorem ObjectRef.eq_of_receivedOver (binding : Option ConnectionId) (r : ObjectRef) :
    (r.receivedOver binding).interface = r.interface ∧ (r.receivedOver binding).key = r.key := by
  cases hnil : r.isNil with
  | true =>
    obtain ⟨interface, key, connection⟩ := r
    simp only [isNil, Bool.and_eq_true, String.isEmpty_iff, List.isEmpty_iff] at hnil
    obtain ⟨rfl, rfl⟩ := hnil
    exact ⟨rfl, rfl⟩
  | false =>
    rw [receivedOver, hnil]
    exact ⟨rfl, rfl⟩

/-- A reference that is not nil arrives as its copy bound to the connection. -/
theorem ObjectRef.receivedOver_some_of_not_isNil {r : ObjectRef} (id : ConnectionId)
    (h : r.isNil = false) : r.receivedOver (some id) = r.reboundTo id := by
  rw [receivedOver, h]
  rfl

/-- A nil reference that is bound to no connection is the nil reference. -/
theorem ObjectRef.eq_nil_of_isNil {r : ObjectRef} (h : r.isNil = true)
    (hfree : r.connection = none) : r = .nil := by
  obtain ⟨interface, key, connection⟩ := r
  simp only [isNil, Bool.and_eq_true, String.isEmpty_iff, List.isEmpty_iff] at h
  obtain ⟨rfl, rfl⟩ := h
  obtain rfl := hfree
  rfl

/-- A reference arrives bound as given, unless it is nil. -/
theorem ObjectRef.connection_receivedOver (binding : Option ConnectionId) (r : ObjectRef) :
    (r.receivedOver binding).connection
      = if (r.receivedOver binding).isNil then none else binding := by
  cases hnil : r.isNil with
  | true =>
    simp only [receivedOver, hnil, if_true, isNil_nil]
    rfl
  | false =>
    have hbound : ObjectRef.isNil { r with connection := binding } = false := hnil
    simp only [receivedOver, hnil, Bool.false_eq_true, if_false, hbound]

section
variable (binding : Option ConnectionId)

@[simp] theorem Payload.receivedOver_sequence (ps : List Payload) :
    (Payload.sequence ps).receivedOver binding = .sequence (ps.map (·.receivedOver binding)) := by
  simp only [receivedOver, mapReferences, mapAllReferences_eq_map]

@[simp] theorem Payload.receivedOver_array (ps : List Payload) :
    (Payload.array ps).receivedOver binding = .array (ps.map (·.receivedOver binding)) := by
  simp only [receivedOver, mapReferences, mapAllReferences_eq_map]

@[simp] theorem Payload.receivedOver_struct (ps : List Payload) :
    (Payload.struct ps).receivedOver binding = .struct (ps.map (·.receivedOver binding)) := by
  simp only [receivedOver, mapReferences, mapAllReferences_eq_map]

@[simp] theorem Payload.receivedOver_union (d : Int64) (value : Payload) :
    (Payload.union d value).receivedOver binding = .union d (value.receivedOver binding) := rfl

@[simp] theorem Payload.receivedOver_any (type : TypeDesc) (value : Payload) :
    (Payload.any type value).receivedOver binding = .any type (value.receivedOver binding) := rfl

@[simp] theorem Payload.receivedOver_objectRef (r : ObjectRef) :
    (Payload.objectRef r).receivedOver binding = .objectRef (r.receivedOver binding) := rfl

end

end ObjectBroker
