import ObjectBroker.Proofs.Codec.Collapse
import ObjectBroker.Proofs.TypeCode.RoundTrip
import ObjectBroker.Proofs.TypeCode.Soundness
import ObjectBroker.Proofs.Types.CollapsedChecks
import ObjectBroker.Proofs.Wire.Locality

/-!
# `ObjectBroker.Proofs.TypeCode.Collapse` — type codes of collapsed descriptions

A codec that collapses `typedef` names sends collapsed descriptions, which no constructor has checked,
to a reader that checks every node. The reader gives such a description back exactly if it has passed
the checks after all and lies within the levels allowed. Of a description that was checked before it was
collapsed, and whose markers stand for something, this is known: only a struct that has itself as a
member behind a `typedef` name is refused.
-/

namespace ObjectBroker

/-- **Collapsed descriptions.** Let every node of a description have passed its checks, and every
    marker stand for a type around it. Then every node of the collapsed description passes its checks
    if and only if no struct has itself as a member behind `typedef` names. Where the collapsed type
    code is written, it is read back if and only if this is so and the levels allowed are enough; and
    if only the levels are missing, the reader reports their limit. -/
theorem collapsed_accepted_iff {d : TypeDesc} (hwf : d.wellFormed = true)
    (hclosed : d.closed = true) :
    (d.collapse.wellFormed = true ↔ d.noSelfMember = true) ∧
    ∀ (s : Settings) (limit : Nat) (before written after : List UInt8),
      (Writer.mk before).put (d.collapse.code s) = (.ok (), ⟨before ++ written⟩) →
      (Reader.readAt (before ++ written ++ after) before.length (TypeCode.read s limit)
          = .ok (d.collapse, before.length + written.length) ↔
        d.noSelfMember = true ∧ d.collapse.nesting ≤ limit) ∧
      (d.noSelfMember = true → limit < d.collapse.nesting →
        Reader.readAt (before ++ written ++ after) before.length (TypeCode.read s limit)
          = .error (.depthExceeded limit)) := by
  have haccepted := TypeDesc.wellFormed_collapse_iff hwf
  have hclosed' : d.collapse.closed = true := (d.closedIn_collapse []).trans hclosed
  refine ⟨haccepted, ?_⟩
  intro s limit before written after hput
  have hwritten : d.collapse.code s before.length = .ok written := Writer.put_eq_ok_iff.1 hput
  refine ⟨⟨?_, ?_⟩, ?_⟩
  · intro hread
    obtain ⟨-, back, hread⟩ := Reader.readAt_eq_ok_iff.1 hread
    have hreadable := TypeCode.readable_readLevels s limit (limit + 1) _ _ _ _ hread
    exact ⟨haccepted.1 hreadable.wellFormed, Nat.le_of_lt_succ hreadable.nesting⟩
  · rintro ⟨hmembers, hlevels⟩
    have hrecovers := TypeCode.recovers_code s limit (haccepted.2 hmembers) hclosed' hlevels
    exact hrecovers.readAt hwritten after
  · intro hmembers hdeep
    have hrefuses := TypeCode.refuses_code s limit (haccepted.2 hmembers) hclosed' hdeep
    exact hrefuses.readAt hwritten after

/-- A list with a `typedef` name before its marker and one for its content. -/
def aliasedList : TypeDesc :=
  .struct "L" [⟨"v", .named "V" .any⟩, ⟨"n", .sequence (.named "Next" (.recursive "L")) none⟩]

/-- The collapsed type code of the list. -/
def aliasedListCode : List UInt8 :=
  [15, 0, 0, 0, 2, 0, 0, 0, 76, 0, 0, 0, 2, 0, 0, 0, 2, 0, 0, 0, 118, 0, 0, 0, 11, 0, 0, 0,
    2, 0, 0, 0, 110, 0, 0, 0, 19, 0, 0, 0, 255, 255, 255, 255, 2, 0, 0, 0, 76, 0, 0, 0, 0, 0, 0, 0]

/-- The list is accepted without the names, and read within two levels but not within one. -/
theorem collapsed_accepted_iff_aliasedList :
    aliasedList.wellFormed = true ∧ aliasedList.closed = true ∧
    aliasedList.collapse.wellFormed = true ∧
    Reader.readAt (aliasedListCode ++ [9]) 0 (TypeCode.read {} 2)
      = .ok (aliasedList.collapse, aliasedListCode.length) ∧
    Reader.readAt (aliasedListCode ++ [9]) 0 (TypeCode.read {} 1) = .error (.depthExceeded 1) := by
  have hwf : aliasedList.wellFormed = true := by decide
  have hclosed : aliasedList.closed = true := by decide
  have hput : (Writer.mk []).put (aliasedList.collapse.code {})
      = (.ok (), ⟨[] ++ aliasedListCode⟩) := rfl
  obtain ⟨haccepted, hread⟩ := collapsed_accepted_iff hwf hclosed
  refine ⟨hwf, hclosed, haccepted.2 (by decide), ?_, ?_⟩
  · have hback := (hread {} 2 [] aliasedListCode [9] hput).1.2 ⟨by decide, by decide⟩
    rwa [List.length_nil, Nat.zero_add] at hback
  · exact (hread {} 1 [] aliasedListCode [9] hput).2 (by decide) (by decide)

/-- A sequence of structs that contain themselves behind a `typedef` name. -/
def sectionsType : TypeDesc :=
  .sequence (.struct "S" [⟨"a", .named "A" (.recursive "S")⟩]) none

/-- Its collapsed type code. -/
def sectionsCode : List UInt8 :=
  [19, 0, 0, 0, 15, 0, 0, 0, 2, 0, 0, 0, 83, 0, 0, 0, 1, 0, 0, 0, 2, 0, 0, 0, 97, 0, 0, 0,
    255, 255, 255, 255, 2, 0, 0, 0, 83, 0, 0, 0, 0, 0, 0, 0]

/-- The sequence type has passed its checks, and its marker stands for the struct around it. It does
    not pass them without the `typedef` name. So its collapsed type code is refused, and a codec that
    collapses `typedef` names cannot read the empty sequence it has sent. -/
theorem collapsed_and_refused :
    let c : Codec := { aliases := .collapse }
    let fault : Fault := .invalidDescriptor (.containsItself "S" "a")
    (sectionsType.wellFormed = true ∧ sectionsType.closed = true ∧
      sectionsType.collapse.wellFormed = false) ∧
    (Writer.mk []).put (sectionsType.collapse.code c.settings) = (.ok (), ⟨sectionsCode⟩) ∧
    Reader.readAt sectionsCode 0 (TypeCode.read c.settings c.maxDepth) = .error fault ∧
    c.encodeAny ⟨sectionsType, .sequence []⟩ = .ok (sectionsCode ++ [0, 0, 0, 0]) ∧
    c.decodeAny (sectionsCode ++ [0, 0, 0, 0]) = .error fault := by
  exact ⟨⟨by decide, by decide, by decide⟩, rfl, rfl, rfl, rfl⟩

end ObjectBroker
