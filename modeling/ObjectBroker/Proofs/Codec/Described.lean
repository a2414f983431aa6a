import ObjectBroker.Codec.Decode
import ObjectBroker.Proofs.TypeCode.Soundness
import ObjectBroker.Proofs.Values.Assignable
import ObjectBroker.Proofs.Wire.Faults

/-!
# `ObjectBroker.Proofs.Codec.Described` — values under a description that was read

A description is checked once, when it is read. From then on it is trusted: a reader of values looks
up markers in it and takes its discriminants to be numbers, and where it cannot, it complains about
the description. A peer that sends a bad description is told so at once, and not when a value of it
comes along.

Markers are checked and used in different ways. The reader of a type code knows the names around a
marker; the reader of a value has a stack of the types around it, which grows with every marker that
is followed and is never cut back. What the two have in common is kept along the whole walk: every
marker in the type at hand, and every marker in a type on the stack, is for a type on the stack.

A value can still bring a bad description along, in an `any`. To tell its complaints from others, the
reader of the type codes in `any`s becomes an argument. If its complaints are called otherwise, the
reader of the value does the same as if all complaints were called otherwise: there are no others.
-/

namespace ObjectBroker

/-! ## The reader, given how to read a type code -/

/-- One node of a value, with the type codes of `any`s read in a given way. -/
def Decode.nodeWith (code : Nat → Read TypeDesc) (c : Codec) (levels : Nat) (part : PartReader)
    (enclosing : List TypeDesc) (type : TypeDesc) : Read Payload :=
  match type.resolve with
  | .any => do
    let described ← code (levels + 1)
    return .any described (← part [] described)
  | _ => node c levels part enclosing type

namespace Codec

/-- The type code of an `any` that so many levels are left for. -/
def readCode (c : Codec) (levels : Nat) : Read TypeDesc :=
  TypeCode.readLevels c.settings c.maxDepth levels []

/-- A value of at most `levels` levels, with the type codes of `any`s read in a given way. -/
def decodeWith (code : Nat → Read TypeDesc) (c : Codec) : (levels : Nat) → PartReader
  | 0, _, _ => throw (.depthExceeded c.maxDepth)
  | levels + 1, enclosing, type =>
    Decode.nodeWith code c levels (c.decodeWith code levels) enclosing type

/-- A value of a known type, with the type codes of `any`s read in a given way. -/
def readValueWith (code : Nat → Read TypeDesc) (c : Codec) (type : TypeDesc) : Read Dynamic := do
  return ⟨type, ← c.decodeWith code c.maxDepth [] type⟩

/-- With type codes read as always, this is the reader of values. -/
theorem decodeWith_readCode (c : Codec) (levels : Nat) :
    c.decodeWith c.readCode levels = c.decode levels := by
  induction levels with
  | zero => rfl
  | succ levels ih =>
    funext enclosing type
    rw [decodeWith, decode, ih]
    unfold Decode.nodeWith Decode.node
    cases type.resolve <;> rfl

end Codec

/-! ## What is kept along a walk -/

namespace TypeDesc

variable {enclosing : List TypeDesc} {t target : TypeDesc} {name : String}

/-- A point of a walk at which every marker stands for something, and every type has passed its
    checks, around it and at it. -/
structure Grounded (enclosing : List TypeDesc) (t : TypeDesc) : Prop where
  anchored : Anchored enclosing t
  here : t.wellFormed = true
  around : ∀ u ∈ enclosing, u.wellFormed = true

namespace Grounded

theorem self (hwf : t.wellFormed = true) (hclosed : t.closed = true) : Grounded [] t :=
  ⟨Anchored.self hclosed, hwf, by simp⟩

theorem resolve (h : Grounded enclosing t) : Grounded enclosing t.resolve where
  anchored := ⟨by rw [closedIn_resolve]; exact h.anchored.here, h.anchored.around⟩
  here := everyNode_resolve h.here
  around := h.around

/-- A marker stands for a type on the stack, and there the walk goes on. -/
theorem exists_target (h : Grounded enclosing t) (ht : t.resolve = .recursive name) :
    ∃ target, enclosing? name enclosing = some target ∧ Grounded enclosing target := by
  obtain ⟨target, hshape⟩ := h.anchored.exists_shape?
  have htarget : enclosing? name enclosing = some target := by rwa [shape?, ht] at hshape
  have hmem := (mem_of_enclosing? htarget).1
  exact ⟨target, htarget, h.anchored.shape? hshape, h.around target hmem, h.around⟩

theorem sequence {element : TypeDesc} {bound : Option UInt32}
    (h : Grounded enclosing (.sequence element bound)) : Grounded enclosing element where
  anchored := ⟨h.anchored.here, h.anchored.around⟩
  here := (wellFormed_sequence_iff.1 h.here).2
  around := h.around

theorem array {element : TypeDesc} {length : UInt32}
    (h : Grounded enclosing (.array element length)) : Grounded enclosing element where
  anchored := ⟨h.anchored.here, h.anchored.around⟩
  here := wellFormed_array_iff.1 h.here
  around := h.around

theorem member {members : List (Member TypeDesc)} {m : Member TypeDesc}
    (h : Grounded enclosing (.struct name members)) (hm : m ∈ members) :
    Grounded (.struct name members :: enclosing) m.type where
  anchored := h.anchored.member hm
  here := (wellFormed_struct_iff.1 h.here).2 m hm
  around := List.forall_mem_cons.2 ⟨h.here, h.around⟩

theorem branch {discriminant : TypeDesc} {branches : List (Branch TypeDesc)} {b : Branch TypeDesc}
    (h : Grounded enclosing (.union name discriminant branches)) (hb : b ∈ branches) :
    Grounded (.union name discriminant branches :: enclosing) b.type where
  anchored := h.anchored.branch hb
  here := (wellFormed_union_iff.1 h.here).2.2 b hb
  around := List.forall_mem_cons.2 ⟨h.here, h.around⟩

end Grounded

end TypeDesc

/-! ## One node -/

/-- A discriminant of a checked union is a number on the wire, whatever its type. -/
theorem Read.FailsWith.discriminant (s : Settings) {u : UnionType} (h : u.validate = .ok ()) :
    (Decode.discriminant s u.discriminant).FailsWith Fault.IsContent := by
  obtain ⟨range, hrange⟩ := UnionType.exists_labelRange h
  unfold UnionType.labelRange? at hrange
  unfold Decode.discriminant
  cases hu : u.discriminant.resolve with
  | scalar kind =>
    rw [hu] at hrange
    cases kind with
    | boolean => exact boolean.bind fun v => by cases v <;> exact pure _
    | octet => exact ((take 1).map _).map _
    | char => exact char.map _
    | wchar => exact (wchar s).map _
    | ulong => exact (ulong s).map _
    | longlong => exact longlong s
    | ulonglong => exact longlong s
    | float => cases hrange
    | double => cases hrange
    | _ => exact (word s _).map _
  | enum name enumerators => exact (ulong s).map _
  | _ =>
    rw [hu] at hrange
    cases hrange

/-- A reader of type codes gives descriptions that can be trusted. -/
def GivesDescribed (code : Nat → Read TypeDesc) : Prop :=
  ∀ (levels : Nat) (start stop : Cursor) (t : TypeDesc),
    code levels start = .ok t stop → t.Grounded []

/-- Between the two readers of parts there is no difference but the name of complaints. -/
def PartReader.ReportsAs (g : DescriptorFault → Cursor → Fault) (read read' : PartReader) : Prop :=
  ∀ (enclosing : List TypeDesc) (type : TypeDesc), type.Grounded enclosing →
    (read enclosing type).reporting g = read' enclosing type

section Parts

open Read

variable {g : DescriptorFault → Cursor → Fault} {read read' : PartReader}
  {enclosing : List TypeDesc} {type : TypeDesc}

theorem reporting_elements (s : Settings) {element : TypeDesc} (bound : Option UInt32)
    (hpart : (read enclosing element).reporting g = read' enclosing element) :
    (Decode.elements s read enclosing element bound).reporting g
      = Decode.elements s read' enclosing element bound := by
  refine reporting_content_bind g (FailsWith.ulong s) fun count => ?_
  split
  · exact reporting_throw g rfl
  · split
    · exact reporting_of_content g ((FailsWith.take _).map _)
    · rw [reporting_times, hpart]

/-- A checked union complains only in the value of its branch. -/
theorem reporting_alternative (s : Settings) {union : UnionType} (h : union.validate = .ok ())
    (hpart : ∀ b ∈ union.branches, (read (union.desc :: enclosing) b.type).reporting g
      = read' (union.desc :: enclosing) b.type) :
    (Decode.alternative s read enclosing union).reporting g
      = Decode.alternative s read' enclosing union := by
  refine reporting_content_bind g (FailsWith.discriminant s h) fun d => ?_
  cases hb : union.selected? d with
  | none => exact reporting_throw g rfl
  | some b =>
    dsimp only
    rw [reporting_map, hpart b (UnionType.mem_of_selected? hb)]

/-- The content of an `any` complains in its type code, or in the value under what was read there. -/
theorem reporting_content {code : Nat → Read TypeDesc} (hcode : GivesDescribed code) (levels : Nat)
    (hread : read.ReportsAs g read') :
    (code levels >>= fun t => read [] t >>= fun v => pure (Payload.any t v)).reporting g
      = (code levels).reporting g >>= fun t => read' [] t >>= fun v => pure (.any t v) := by
  refine reporting_bind g fun t start stop ht => ?_
  rw [reporting_map, hread [] t (hcode levels start stop t ht)]

/-- **One node.** The only complaints of its own that a node can have are those of a type code. -/
theorem reporting_node {code : Nat → Read TypeDesc} (hcode : GivesDescribed code) (c : Codec)
    (levels : Nat) (hread : read.ReportsAs g read') (h : type.Grounded enclosing) :
    (Decode.nodeWith code c levels read enclosing type).reporting g
      = Decode.nodeWith (fun levels => (code levels).reporting g) c levels read' enclosing type := by
  have hnode := h.resolve
  unfold Decode.nodeWith
  cases htype : type.resolve with
  | any => exact reporting_content hcode (levels + 1) hread
  | sequence element bound =>
    rw [htype] at hnode
    simp only [Decode.node, htype]
    rw [reporting_map, reporting_elements c.settings bound (hread _ _ hnode.sequence)]
  | array element length =>
    rw [htype] at hnode
    simp only [Decode.node, htype]
    rw [reporting_map, reporting_times, hread _ _ hnode.array]
  | struct name members =>
    rw [htype] at hnode
    simp only [Decode.node, htype]
    rw [reporting_map, reporting_each g fun m hm => hread _ m.type (hnode.member hm)]
  | union name discriminant branches =>
    rw [htype] at hnode
    simp only [Decode.node, htype]
    have hvalid : UnionType.validate ⟨name, discriminant, branches⟩ = .ok () :=
      (TypeDesc.wellFormed_union_iff.1 hnode.here).1
    exact reporting_alternative c.settings hvalid fun b hb => hread _ b.type (hnode.branch hb)
  | recursive name =>
    obtain ⟨target, htarget, hnext⟩ := h.exists_target htype
    simp only [Decode.node, htype, htarget]
    exact hread enclosing target hnext
  | scalar kind =>
    simp only [Decode.node, htype]
    exact reporting_of_content g ((FailsWith.scalar _ kind).map _)
  | string =>
    simp only [Decode.node, htype]
    exact reporting_of_content g ((FailsWith.string _).map _)
  | wstring =>
    simp only [Decode.node, htype]
    exact reporting_of_content g ((FailsWith.wstring _).map _)
  | enum name enumerators =>
    simp only [Decode.node, htype]
    refine reporting_of_content g (FailsWith.map (FailsWith.bind (FailsWith.ulong _) ?_) _)
    intro ordinal
    split
    · exact FailsWith.pure _
    · exact FailsWith.throw (.inr ⟨_, rfl⟩)
  | objectRef interface =>
    simp only [Decode.node, htype]
    refine reporting_of_content g (FailsWith.map ?_ _)
    exact (FailsWith.string _).bind fun _ => (FailsWith.octetSequence _).map _
  | null =>
    simp only [Decode.node, htype]
    rfl
  | typedef name underlying => exact absurd htype (type.resolve_ne_typedef name underlying)

end Parts

/-! ## Whole values -/

/-- **Values.** Within any number of levels, every complaint about a description is one about a type
    code. -/
theorem reporting_decodeWith {code : Nat → Read TypeDesc} (hcode : GivesDescribed code) (c : Codec)
    (g : DescriptorFault → Cursor → Fault) (levels : Nat) :
    (c.decodeWith code levels).ReportsAs g
      (c.decodeWith (fun levels => (code levels).reporting g) levels) := by
  induction levels with
  | zero =>
    intro enclosing type _
    exact Read.reporting_throw g rfl
  | succ levels ih =>
    intro enclosing type h
    exact reporting_node hcode c levels ih h

/-- The descriptions that come with values can be trusted like any other that was read. -/
theorem givesDescribed_readCode (c : Codec) : GivesDescribed c.readCode := by
  intro levels start stop t h
  have hreadable := TypeCode.readable_readLevels _ _ _ _ _ _ _ h
  exact TypeDesc.Grounded.self hreadable.wellFormed hreadable.closed

theorem Codec.reporting_readValue (c : Codec) (g : DescriptorFault → Cursor → Fault) {t : TypeDesc}
    (h : t.Grounded []) :
    (c.readValue t).reporting g
      = c.readValueWith (fun levels => (c.readCode levels).reporting g) t := by
  unfold Codec.readValue Codec.readValueWith
  rw [Read.reporting_map, ← c.decodeWith_readCode,
    reporting_decodeWith (givesDescribed_readCode c) c g _ _ _ h]

/-- A complaint about a description was met in a type code. Were it met elsewhere, it could be called
    otherwise without a change to any type code. -/
theorem Codec.exists_code_of_readValue (c : Codec) {t : TypeDesc} (h : t.Grounded [])
    {start stop : Cursor} {cause : DescriptorFault}
    (hfails : c.readValue t start = .error (.invalidDescriptor cause) stop) :
    ∃ levels place, c.readCode levels place = .error (.invalidDescriptor cause) stop := by
  by_contra hnone
  -- Another name for this one complaint at this one place.
  let g : DescriptorFault → Cursor → Fault := fun cause' stop' =>
    if cause' = cause ∧ stop' = stop then .connectionLost else .invalidDescriptor cause'
  have hcodes : (fun levels => (c.readCode levels).reporting g) = c.readCode := by
    funext levels
    refine Read.reporting_eq_self g fun place stop' cause' hcode => ?_
    refine if_neg ?_
    rintro ⟨rfl, rfl⟩
    exact hnone ⟨levels, place, hcode⟩
  have hsame : (c.readValue t).reporting g = c.readValue t := by
    rw [c.reporting_readValue g h, hcodes]
    unfold Codec.readValueWith Codec.readValue
    rw [c.decodeWith_readCode]
  have hcalled := Read.reporting_of_error g hfails
  rw [hsame, hfails] at hcalled
  have hother : g cause stop = .connectionLost := if_pos ⟨rfl, rfl⟩
  simp only [Fault.called, hother] at hcalled
  cases hcalled

/-- **Descriptions that are read.** Whatever the octets are and however they are to be taken, in a
    description that is read every node has passed its checks, every marker lies inside a struct or
    union of its name, and the nesting keeps to the limit. So no reader of values, whatever its own
    parameters and wherever it stands in whatever message, complains about that description: its
    complaints are those of the type codes of `any`s, since to call the one otherwise is to call the
    other otherwise, and where it stops over a description, a type code stops there for the same
    cause. -/
theorem described_of_read {s : Settings} {maxDepth : Nat} {r r' : Reader} {t : TypeDesc}
    (h : r.run (TypeCode.read s maxDepth) = (.ok t, r')) :
    (t.wellFormed = true ∧ t.closed = true ∧ t.nesting ≤ maxDepth) ∧
      (∀ (c : Codec) (g : DescriptorFault → Cursor → Fault),
        (c.readValue t).reporting g
          = c.readValueWith (fun levels => (c.readCode levels).reporting g) t) ∧
      ∀ (c : Codec) (start stop : Reader) (cause : DescriptorFault),
        start.run (c.readValue t) = (.error (.invalidDescriptor cause), stop) →
          ∃ levels place, c.readCode levels place = .error (.invalidDescriptor cause) stop.cursor := by
  unfold Reader.run at h
  cases hread : TypeCode.read s maxDepth r.cursor with
  | error f c =>
    rw [hread] at h
    cases h
  | ok described c =>
    rw [hread] at h
    cases h
    have hreadable := TypeCode.readable_readLevels _ _ _ _ _ _ _ hread
    have hgrounded := TypeDesc.Grounded.self hreadable.wellFormed hreadable.closed
    refine ⟨⟨hreadable.wellFormed, hreadable.closed, Nat.le_of_lt_succ hreadable.nesting⟩,
      fun c g => c.reporting_readValue g hgrounded, ?_⟩
    intro c start stop cause hfails
    unfold Reader.run at hfails
    cases hvalue : c.readValue t start.cursor with
    | ok x c' =>
      rw [hvalue] at hfails
      cases hfails
    | error f c' =>
      rw [hvalue] at hfails
      cases hfails
      exact c.exists_code_of_readValue hgrounded hvalue

/-- A list cell that holds anything. -/
def cell : TypeDesc :=
  .struct "N" [⟨"next", .sequence (.recursive "N") none⟩, ⟨"held", .any⟩]

/-- The type code of a list cell. -/
def cellCode : List UInt8 :=
  [15, 0, 0, 0, 2, 0, 0, 0, 78, 0, 0, 0, 2, 0, 0, 0, 5, 0, 0, 0, 110, 101, 120, 116, 0, 0, 0, 0,
    19, 0, 0, 0, 0xFF, 0xFF, 0xFF, 0xFF, 2, 0, 0, 0, 78, 0, 0, 0, 0, 0, 0, 0, 5, 0, 0, 0, 104, 101,
    108, 100, 0, 0, 0, 0, 11, 0, 0, 0]

/-- A list cell is read, and then a value of it whose `any` comes with a marker for nothing. -/
theorem described_of_read_cell :
    ∃ r' stop, ((Reader.ofOctets cellCode).run (TypeCode.read {} 2) = (.ok cell, r') ∧
        (Reader.ofOctets [0, 0, 0, 0, 0xFF, 0xFF, 0xFF, 0xFF, 2, 0, 0, 0, 81, 0]).run
          (({} : Codec).readValue cell) = (.error (.invalidDescriptor (.danglingMarker "Q")), stop)) ∧
      (cell.wellFormed = true ∧ cell.closed = true ∧ cell.nesting ≤ 2) ∧
      (∀ (c : Codec) (g : DescriptorFault → Cursor → Fault),
        (c.readValue cell).reporting g
          = c.readValueWith (fun levels => (c.readCode levels).reporting g) cell) ∧
      ∃ levels place, ({} : Codec).readCode levels place
        = .error (.invalidDescriptor (.danglingMarker "Q")) stop.cursor := by
  have hread : (Reader.ofOctets cellCode).run (TypeCode.read {} 2)
      = (.ok cell, ⟨cellCode, ⟨64, []⟩⟩) := by rfl
  have hvalue : (Reader.ofOctets [0, 0, 0, 0, 0xFF, 0xFF, 0xFF, 0xFF, 2, 0, 0, 0, 81, 0]).run
      (({} : Codec).readValue cell)
      = (.error (.invalidDescriptor (.danglingMarker "Q")),
          ⟨[0, 0, 0, 0, 0xFF, 0xFF, 0xFF, 0xFF, 2, 0, 0, 0, 81, 0], ⟨14, []⟩⟩) := by rfl
  obtain ⟨hcell, hnames, hcodes⟩ := described_of_read hread
  exact ⟨_, _, ⟨hread, hvalue⟩, hcell, hnames, hcodes {} _ _ _ hvalue⟩

end ObjectBroker
