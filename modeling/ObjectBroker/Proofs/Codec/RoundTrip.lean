import ObjectBroker.Proofs.Codec.Recovery

/-!
# `ObjectBroker.Proofs.Codec.RoundTrip` — a value written and read back

The round trip at the boundary of the codec. A message is a writer with some content; a value is put
behind that content and more may follow. A reader placed where the value starts gives it back and
stops where it ends.

Two conditions are not about the walk but about what a peer can be told. The descriptions that
travel inside the value have to pass the reader's checks (`Payload.contentsFit`). The description
the value is written under does not travel, but the discriminants of its unions do, in 32 bits if
they are ordinals (`TypeDesc.ordinalsFit`). The last section shows where a value is written and not
recovered: an ordinal that does not fit, and a description that would fit but for the level that its
`any` takes.
-/

namespace ObjectBroker

variable {c : Codec} {x : Dynamic}

/-- A value is recovered as its receiver sees it. -/
theorem recovers_value (hkept : c.aliases = .preserve) (hfit : x.type.ordinalsFit = true)
    (hcontents : x.payload.contentsFit c.maxDepth [] x.type = true) :
    Recovers (c.value x) (c.readValue x.type) (x.receivedOver c.binding) := by
  have hpayload := partsAgree_encode_decode hkept c.maxDepth [] x.type x.payload hfit (by simp)
    hcontents
  exact hpayload.map fun p => (⟨x.type, p⟩ : Dynamic)

/-- **Value round trip.** Where a codec that keeps `typedef` names writes a value behind some
    content, a reader placed there recovers it, whatever follows: the type given and the payload
    as its receiver sees it. The reader stops at the end of the value. -/
theorem readValue_of_put_value {before written after : List UInt8}
    (hkept : c.aliases = .preserve) (hfit : x.type.ordinalsFit = true)
    (hcontents : x.payload.contentsFit c.maxDepth [] x.type = true)
    (hput : (Writer.mk before).put (c.value x) = (.ok (), ⟨before ++ written⟩)) :
    ∃ start : Reader,
      (Reader.ofOctets (before ++ written ++ after)).seek before.length = (.ok (), start) ∧
      start.run (c.readValue x.type) = (.ok (x.receivedOver c.binding),
        ⟨before ++ written ++ after, ⟨before.length + written.length, after⟩⟩) := by
  have hwritten : c.value x before.length = .ok written := Writer.put_eq_ok_iff.1 hput
  have hread := recovers_value hkept hfit hcontents before.length written after hwritten
  rw [List.append_assoc]
  refine ⟨_, Reader.seek_append before (written ++ after), ?_⟩
  simp only [Reader.run, hread]

/-- A tree whose nodes carry a value of any type: a reference at the root, a number below. -/
def sampleTree : Dynamic :=
  ⟨.struct "Node" [⟨"label", .any⟩, ⟨"below", .sequence (.recursive "Node") none⟩],
    .struct [.any (.objectRef "S") (.objectRef ⟨"S", [5], some ⟨7⟩⟩),
      .sequence [.struct [.any (.scalar .long) (.scalar (.long 258)), .sequence []]]]⟩

/-- The octets of the tree behind three others, with the least octet of each number first. -/
def sampleTreeOctets : List UInt8 :=
  [0, 14, 0, 0, 0, 2, 0, 0, 0, 83, 0, 0, 0, 2, 0, 0, 0, 83, 0, 0, 0, 1, 0, 0, 0, 5, 0, 0, 0,
    1, 0, 0, 0, 3, 0, 0, 0, 2, 1, 0, 0, 0, 0, 0, 0]

/-- The tree is written with its reference bound to one connection and read back with the
    reference bound to another. -/
theorem readValue_of_put_sampleTree :
    let c : Codec := { binding := some ⟨9⟩ }
    (c.aliases = .preserve ∧ sampleTree.type.ordinalsFit = true ∧
      sampleTree.payload.contentsFit c.maxDepth [] sampleTree.type = true ∧
      (Writer.mk [1, 2, 3]).put (c.value sampleTree) =
        (.ok (), ⟨[1, 2, 3] ++ sampleTreeOctets⟩)) ∧
    ∃ start : Reader,
      (Reader.ofOctets ([1, 2, 3] ++ sampleTreeOctets ++ [4])).seek 3 = (.ok (), start) ∧
      start.run (c.readValue sampleTree.type) = (.ok (sampleTree.receivedOver (some ⟨9⟩)),
        ⟨[1, 2, 3] ++ sampleTreeOctets ++ [4], ⟨3 + sampleTreeOctets.length, [4]⟩⟩) := by
  have hput : (Writer.mk [1, 2, 3]).put (({ binding := some ⟨9⟩ } : Codec).value sampleTree) =
      (.ok (), ⟨[1, 2, 3] ++ sampleTreeOctets⟩) := rfl
  intro c
  exact ⟨⟨rfl, rfl, rfl, hput⟩, readValue_of_put_value rfl rfl rfl hput⟩

/-! ## What the conditions exclude -/

/-- A union of two alternatives, one for the first ordinal of an enum and one for the ordinal 2^32.
    Of the enumerators behind the first only their number matters. -/
def farUnion (others : List String) : UnionType :=
  ⟨"Far", .enum "Place" ("first" :: others),
    [⟨[.value 0], "near", .scalar .octet⟩, ⟨[.value 4294967296], "far", .scalar .octet⟩]⟩

/-- The alternative of the ordinal 2^32. -/
def farValue (others : List String) : Dynamic :=
  ⟨(farUnion others).desc, .union 4294967296 (.scalar (.octet 7))⟩

section Far

variable {others : List String}

theorem labelRange?_farUnion (hmany : others.length = 4294967296) :
    (farUnion others).labelRange? = some ⟨0, 4294967296⟩ := by
  show some (LabelRange.mk 0 (Int64.ofNat others.length)) = _
  rw [hmany]
  rfl

theorem wellFormed_farUnion (hmany : others.length = 4294967296) :
    (farUnion others).desc.wellFormed = true := by
  have hvalidate : (farUnion others).validate = .ok () := by
    unfold UnionType.validate
    rw [labelRange?_farUnion hmany]
    rfl
  refine TypeDesc.wellFormed_union_iff.2 ⟨hvalidate, rfl, fun b hb => ?_⟩
  rcases List.mem_pair.1 hb with rfl | rfl <;> rfl

/-- The ordinal is in the range of the enum, and nothing of it is left in 32 bits. -/
theorem put_farValue (hmany : others.length = 4294967296) :
    (Writer.mk []).put (({} : Codec).value (farValue others)) = (.ok (), ⟨[0, 0, 0, 0, 7]⟩) := by
  have hrange : (farUnion others).inRange 4294967296 = true := by
    unfold UnionType.inRange
    rw [labelRange?_farUnion hmany]
    rfl
  have hwritten : ({} : Codec).value (farValue others) 0 = .ok [0, 0, 0, 0, 7] := by
    show Encode.alternative _ _ _ (farUnion others) 4294967296 _ 0 = _
    unfold Encode.alternative
    rw [hrange]
    rfl
  exact Writer.put_eq_ok_iff.2 hwritten

end Far

/-- An empty sequence of sequences. -/
def emptyRows : Dynamic :=
  ⟨.sequence (.sequence (.scalar .long) none) none, .sequence []⟩

/-- The octets of the empty sequence in an `any`. -/
def emptyRowsOctets : List UInt8 :=
  [19, 0, 0, 0, 19, 0, 0, 0, 3, 0, 0, 0, 0, 0, 0, 0, 0, 0, 0, 0, 0, 0, 0, 0]

/-- The ordinal 2^32 of a checked type is written and read back as the ordinal 0. And where two
    levels are left, a description two levels deep is written into an `any` and not read out of
    it. -/
theorem written_and_not_recovered :
    (let x := farValue ((List.range 4294967296).map Nat.repr);
      let y := { x with payload := .union 0 (.scalar (.octet 7)) };
      x.type.wellFormed = true ∧ x.type.closed = true ∧
      x.payload.contentsFit ({} : Codec).maxDepth [] x.type = true ∧
      (Writer.mk []).put (({} : Codec).value x) = (.ok (), ⟨[0, 0, 0, 0, 7]⟩) ∧
      ∃ start after,
        (Reader.ofOctets [0, 0, 0, 0, 7]).seek 0 = (.ok (), start) ∧
        start.run (({} : Codec).readValue x.type) = (.ok y, after) ∧ y ≠ x.receivedOver none) ∧
    (let c : Codec := { maxDepth := 2 };
      emptyRows.type.wellFormed = true ∧ emptyRows.type.closed = true ∧
      emptyRows.type.nesting = c.maxDepth ∧
      (Writer.mk []).put (c.value ⟨.any, .any emptyRows.type emptyRows.payload⟩)
        = (.ok (), ⟨emptyRowsOctets⟩) ∧
      ∃ start after,
        (Reader.ofOctets emptyRowsOctets).seek 0 = (.ok (), start) ∧
        start.run (c.readValue .any) = (.error (.depthExceeded 2), after)) := by
  have hmany : ((List.range 4294967296).map Nat.repr).length = 4294967296 := by
    rw [List.length_map, List.length_range]
  refine ⟨?_, rfl, rfl, rfl, rfl, _, _, rfl, rfl⟩
  generalize (List.range 4294967296).map Nat.repr = others at hmany
  exact ⟨wellFormed_farUnion hmany, rfl, rfl, put_farValue hmany, _, _, rfl, rfl,
    fun h => nomatch h⟩

end ObjectBroker
