import ObjectBroker.Codec.Decode
import ObjectBroker.Proofs.Wire.Locality

/-!
# `ObjectBroker.Proofs.Codec.Locality` — what the octets of a value decide

A value is read from a message that holds other things before and after it, and from peers that fill
padding as they like. So what is read has to be decided by the octets of the value alone. Here the
reader of type codes and the reader of values are built from local reads, level by level, and the
two readings of locality follow for every type: another message with the same data octets gives the
same value and the same end, and a message that ends too early is refused for that reason and for no
other.

The counts that are checked early do not disturb this. A wide string and the parts of a type code
are held against the octets left, but then take as many; a sequence of octets is taken as one run.
-/

namespace ObjectBroker

open Read

variable (s : Settings)

/-! ## Type codes -/

namespace TypeCode

theorem local_checked {α : Type} (r : Except Fault α) : (checked r).Local 0 := by
  cases r with
  | ok a => exact .pure a
  | error f => exact .throw f 0

theorem local_readLabel : (readLabel s).Local 1 :=
  local_boolean.first fun _ => ((local_longlong s).map _).mono (by decide)

variable {s} {part : Read TypeDesc}

theorem local_readMember (h : part.Local 0) : (readMember s part).Local 4 :=
  (local_string s).first fun _ => h.map _

/-- The labels of a branch are counted, and none of them is empty. -/
theorem local_readBranch (h : part.Local 0) : (readBranch s part).Local 4 :=
  (local_readLabel s).items (Nat.le_refl 1) fun _ =>
    ((local_string s).first fun _ => h.map _).mono (Nat.zero_le 4)

/-- One node of a type code is local if its parts are. -/
theorem local_readNode {part : List String → Read TypeDesc} (h : ∀ names, (part names).Local 0)
    (enclosing : List String) : (readNode s part enclosing).Local 4 := by
  have hname := (local_string s).mono (Nat.zero_le 4)
  refine (local_ulong s).first fun id => ?_
  split
  · exact .throw _ 0
  · exact .pure _
  · exact .pure _
  · exact .pure _
  · exact ((local_ulong s).mono (Nat.zero_le 4)).map _
  · exact ((local_ulong s).mono (Nat.zero_le 4)).map _
  · exact hname.map _
  · refine hname.first fun name => ?_
    have hmember := local_readMember (s := s) (h (name :: enclosing))
    exact (hmember.items (by decide) fun _ => local_checked _).mono (Nat.zero_le 4)
  · refine hname.first fun name => (h _).first fun discriminant => ?_
    have hbranch := local_readBranch (s := s) (h (name :: enclosing))
    exact (hbranch.items (by decide) fun _ => local_checked _).mono (Nat.zero_le 4)
  · refine hname.first fun name => ?_
    exact ((local_string s).items (by decide) fun _ => local_checked _).mono (Nat.zero_le 4)
  · exact (h _).first fun _ => ((local_ulong s).mono (Nat.zero_le 4)).map _
  · exact (h _).first fun _ => ((local_ulong s).mono (Nat.zero_le 4)).map _
  · exact hname.first fun _ => (h _).map _
  · refine hname.first fun name => ?_
    split
    · exact .pure _
    · exact .throw _ 0

/-- **Type codes.** A type code within any number of levels is a local read. -/
theorem local_readLevels (limit levels : Nat) (enclosing : List String) :
    (readLevels s limit levels enclosing).Local 4 := by
  induction levels generalizing enclosing with
  | zero => exact .throw _ 4
  | succ levels ih => exact local_readNode (fun names => (ih names).mono (Nat.zero_le 4)) enclosing

end TypeCode

/-! ## Values -/

theorem local_discriminant (type : TypeDesc) : (Decode.discriminant s type).Local 1 := by
  unfold Decode.discriminant
  split
  · exact local_boolean.map _
  · exact local_octet.map _
  · exact local_char.map _
  · exact ((local_wchar s).map _).mono (by cases s.wide <;> decide)
  · exact ((local_word s 2).map _).mono (by decide)
  · exact ((local_word s 2).map _).mono (by decide)
  · exact ((local_word s 4).map _).mono (by decide)
  · exact ((local_ulong s).map _).mono (by decide)
  · exact ((local_ulong s).map _).mono (by decide)
  · exact (local_longlong s).mono (by decide)
  · exact (local_longlong s).mono (by decide)
  · exact .throw _ 1

section Parts

/-! Each composite value is local if its parts are. -/

variable {s} {c : Codec} {part : PartReader} (h : ∀ enclosing type, (part enclosing type).Local 0)
  (enclosing : List TypeDesc)
include h

theorem local_alternative (union : UnionType) :
    (Decode.alternative s part enclosing union).Local 1 := by
  refine (local_discriminant s _).first fun d => ?_
  split
  · exact .throw _ 0
  · exact (h _ _).map _

/-- The elements are local whether they are read one by one or, as octets, in one run. -/
theorem local_elements (element : TypeDesc) (bound : Option UInt32) :
    (Decode.elements s part enclosing element bound).Local 4 := by
  refine (local_ulong s).first fun count => ?_
  split
  · exact .throw _ 0
  · split
    · exact ((Local.take _).map _).mono (Nat.zero_le _)
    · exact ((h enclosing element).times _).mono (Nat.zero_le _)

theorem local_content (levels : Nat) : (Decode.content c levels part).Local 4 :=
  (TypeCode.local_readLevels _ _ []).first fun _ => (h _ _).map _

end Parts

theorem local_enumerator (name : String) (enumerators : List String) :
    (Decode.enumerator s name enumerators).Local 4 := by
  refine (local_ulong s).first fun ordinal => ?_
  split
  · exact .pure _
  · exact .throw _ 0

theorem local_reference (c : Codec) : (Decode.reference c).Local 4 :=
  (local_string _).first fun _ => ((local_octetSequence _).map _).mono (Nat.zero_le 4)

variable (c : Codec)

/-- One node of a value is local if its parts are. -/
theorem local_node {part : PartReader} (h : ∀ enclosing type, (part enclosing type).Local 0)
    (levels : Nat) (enclosing : List TypeDesc) (type : TypeDesc) :
    (Decode.node c levels part enclosing type).Local 0 := by
  unfold Decode.node
  cases type.resolve with
  | null => exact .pure _
  | typedef name underlying => exact .pure _
  | scalar kind => exact ((local_scalar _ kind).map _).mono (Nat.zero_le _)
  | string => exact ((local_string _).map _).mono (Nat.zero_le _)
  | wstring => exact ((local_wstring _).map _).mono (Nat.zero_le _)
  | enum name enumerators => exact ((local_enumerator _ _ _).map _).mono (Nat.zero_le _)
  | objectRef interface => exact ((local_reference c).map _).mono (Nat.zero_le _)
  | any => exact (local_content h levels).mono (Nat.zero_le _)
  | sequence element bound => exact ((local_elements h _ _ _).map _).mono (Nat.zero_le _)
  | array element length => exact (((h enclosing element).times _).map _).mono (Nat.zero_le _)
  | struct name members => exact (Local.each fun m _ => h _ m.type).map _
  | union name discriminant branches =>
    exact (local_alternative h _ _).mono (Nat.zero_le _)
  | recursive name =>
    dsimp only
    split
    · exact h _ _
    · exact .throw _ 0

/-- **Values.** A value within any number of levels is a local read. -/
theorem local_decode (levels : Nat) (enclosing : List TypeDesc) (type : TypeDesc) :
    (c.decode levels enclosing type).Local 0 := by
  induction levels generalizing enclosing type with
  | zero => exact .throw _ 0
  | succ levels ih => exact local_node c ih levels enclosing type

theorem local_readValue (type : TypeDesc) : (c.readValue type).Local 0 :=
  (local_decode c _ [] type).map _

/-- **Reading depends on the data octets alone.** The reader of values makes its requests by a
    script, and this holds for any script by which it does. Where it gives a value between two
    offsets of a message, it gives the same value between the same offsets of every message that is
    long enough and has the same octets there, except for the padding skipped on the way. And if the
    message is cut anywhere before the end of the value, the fault is that octets are missing. -/
theorem readValue_local (type : TypeDesc) :
    (∃ script : Script Dynamic, script.run = c.readValue type) ∧
      ∀ script : Script Dynamic, script.run = c.readValue type →
        ∀ (message : List UInt8) (start stop : Nat) (x : Dynamic),
          Reader.readAt message start (c.readValue type) = .ok (x, stop) →
            (∀ message' : List UInt8, stop ≤ message'.length →
              (∀ i, start ≤ i → i < stop →
                i ∉ script.skipped ⟨start, message.drop start⟩ → message'[i]? = message[i]?) →
              Reader.readAt message' start (c.readValue type) = .ok (x, stop)) ∧
            ∀ k, start ≤ k → k < stop → ∃ needed left,
              Reader.readAt (message.take k) start (c.readValue type)
                = .error (.unexpectedEnd needed left) := by
  have hlocal := local_readValue c type
  refine ⟨hlocal.scripted, ?_⟩
  intro script hscript message start stop x hread
  constructor
  · intro message' hroom hagree
    exact hlocal.readAt_of_agree hscript hread hroom hagree
  · intro k hstart hshort
    exact hlocal.readAt_take hread hstart hshort

/-- A number that starts after three octets of padding, as its requests. -/
def Script.paddedLong : Script Dynamic :=
  .align 4 <| .take 4 fun octets =>
    .done ⟨.scalar .long, .scalar (.long (UInt32.ofNat (ofLittleEndian octets)).toInt32)⟩

theorem Script.run_paddedLong :
    paddedLong.run = ({ maxDepth := 1 } : Codec).readValue (.scalar .long) := by
  show (Read.align 4 >>= fun _ => Read.take 4 >>= fun octets => pure _) = _
  simp only [Codec.readValue, Codec.decode, Decode.node, TypeDesc.resolve, Read.scalar, Read.word,
    bind_assoc, pure_bind]
  rfl

/-- The same number between the same offsets, with other padding and something behind it. -/
theorem readValue_local_padded :
    Reader.readAt [255, 0, 0, 0, 7, 0, 0, 0] 1
        (({ maxDepth := 1 } : Codec).readValue (.scalar .long))
      = .ok (⟨.scalar .long, .scalar (.long 7)⟩, 8) ∧
    Reader.readAt [1, 2, 3, 4, 7, 0, 0, 0, 9] 1
        (({ maxDepth := 1 } : Codec).readValue (.scalar .long))
      = .ok (⟨.scalar .long, .scalar (.long 7)⟩, 8) ∧
    ∃ needed left, Reader.readAt [255, 0, 0, 0, 7, 0] 1
        (({ maxDepth := 1 } : Codec).readValue (.scalar .long))
      = .error (.unexpectedEnd needed left) := by
  have hread : Reader.readAt [255, 0, 0, 0, 7, 0, 0, 0] 1
      (({ maxDepth := 1 } : Codec).readValue (.scalar .long))
        = .ok (⟨.scalar .long, .scalar (.long 7)⟩, 8) := rfl
  obtain ⟨hother, hcut⟩ := (readValue_local { maxDepth := 1 } (.scalar .long)).2
    Script.paddedLong Script.run_paddedLong _ _ _ _ hread
  have hagree : ∀ i < 8, 1 ≤ i → i ∉ [1, 2, 3] →
      ([1, 2, 3, 4, 7, 0, 0, 0, 9] : List UInt8)[i]?
        = ([255, 0, 0, 0, 7, 0, 0, 0] : List UInt8)[i]? := by decide
  exact ⟨hread, hother _ (by decide) fun i hstart hstop hoff => hagree i hstop hstart hoff,
    hcut 6 (by decide) (by decide)⟩

end ObjectBroker
