import ObjectBroker.Builder.SequenceValue
import ObjectBroker.Builder.StructValue
import ObjectBroker.Builder.UnionValue
import ObjectBroker.Proofs.Wire.Steps

/-!
# `ObjectBroker.Proofs.Codec.Atomic` — values are written whole or not at all

A value can fail in its last part, behind padding, counts, type codes and all the parts before. The
attempt to write it then cuts the message back to where it started, and that restores the message
because the whole walk only appends. The walk is compared step by step with the piece of output that
the value stands for, so that what a success appends is known as well.

Type codes are followed by induction on the description, values by induction on the levels with one
node at a time.
-/

namespace ObjectBroker

open Steps (Follows)

/-! ## Type codes -/

section TypeCodes

variable (s : Settings)

theorem follows_writeLabels (ls : List Label) :
    (TypeCode.writeLabels s ls).Follows (TypeCode.labels s ls) :=
  (Follows.write _).append (Follows.each fun _ _ => Follows.write _)

theorem follows_writeMembers {ms : List (Member TypeDesc)}
    (h : ∀ m ∈ ms, (m.type.writeCode s).Follows (m.type.code s)) :
    (TypeDesc.writeMembers s ms).Follows (TypeDesc.codeMembers s ms) := by
  induction ms with
  | nil => exact Follows.nothing
  | cons m ms ih =>
    have hothers := ih fun m' hm' => h m' (List.mem_cons_of_mem m hm')
    have htype := h m List.mem_cons_self
    simp only [TypeDesc.writeMembers, TypeDesc.codeMembers, Emit.append_assoc]
    exact (Follows.write _).append (htype.append hothers)

theorem follows_writeBranches {bs : List (Branch TypeDesc)}
    (h : ∀ b ∈ bs, (b.type.writeCode s).Follows (b.type.code s)) :
    (TypeDesc.writeBranches s bs).Follows (TypeDesc.codeBranches s bs) := by
  induction bs with
  | nil => exact Follows.nothing
  | cons b bs ih =>
    have hothers := ih fun b' hb' => h b' (List.mem_cons_of_mem b hb')
    have htype := h b List.mem_cons_self
    simp only [TypeDesc.writeBranches, TypeDesc.codeBranches, Emit.append_assoc]
    exact (follows_writeLabels s _).append ((Follows.write _).append (htype.append hothers))

/-- **Type codes.** The steps of a type code append the type code. -/
theorem follows_writeCode (t : TypeDesc) : (t.writeCode s).Follows (t.code s) := by
  induction t with
  | null => exact Follows.write _
  | scalar kind => exact Follows.write _
  | any => exact Follows.write _
  | string => exact (Follows.write _).append (Follows.write _)
  | wstring => exact (Follows.write _).append (Follows.write _)
  | objectRef interface => exact (Follows.write _).append (Follows.write _)
  | recursive name => exact (Follows.write _).append (Follows.write _)
  | enum name enumerators =>
    have henumerators := Follows.each fun e (_ : e ∈ enumerators) => Follows.write (.string s e)
    simp only [TypeDesc.writeCode, TypeDesc.code, Emit.append_assoc]
    exact (Follows.write _).append
      ((Follows.write _).append ((Follows.write _).append henumerators))
  | struct name members ih =>
    have hmembers := follows_writeMembers s ih
    simp only [TypeDesc.writeCode, TypeDesc.code, Emit.append_assoc]
    exact (Follows.write _).append ((Follows.write _).append ((Follows.write _).append hmembers))
  | union name discriminant branches ihd ihb =>
    have hbranches := follows_writeBranches s ihb
    simp only [TypeDesc.writeCode, TypeDesc.code, Emit.append_assoc]
    exact (Follows.write _).append
      ((Follows.write _).append (ihd.append ((Follows.write _).append hbranches)))
  | sequence element bound ih =>
    simp only [TypeDesc.writeCode, TypeDesc.code, Emit.append_assoc]
    exact (Follows.write _).append (ih.append (Follows.write _))
  | array element length ih =>
    simp only [TypeDesc.writeCode, TypeDesc.code, Emit.append_assoc]
    exact (Follows.write _).append (ih.append (Follows.write _))
  | typedef name underlying ih =>
    simp only [TypeDesc.writeCode, TypeDesc.code, Emit.append_assoc]
    exact (Follows.write _).append ((Follows.write _).append ih)

end TypeCodes

/-! ## One node, given its parts -/

theorem follows_scalar (s : Settings) (kind : Scalar) (v : ScalarValue) :
    (Write.scalar s kind (.scalar v)).Follows
      (if v.kind = kind then .scalar s v else .fail (.typeMismatch kind.name v.kind.name)) := by
  rw [Write.scalar]
  by_cases hkind : v.kind = kind
  · rw [if_pos hkind, if_pos hkind]
    exact Follows.write _
  · rw [if_neg hkind, if_neg hkind]
    exact Follows.fail _

section Parts

variable {steps : PartSteps} {piece : PartWriter} {enclosing : List TypeDesc}
  (hpart : ∀ enclosing type value, (steps enclosing type value).Follows
    (piece enclosing type value))

include hpart

theorem follows_fields (struct : StructType) (values : List Payload) :
    (Write.fields steps enclosing struct values).Follows
      (Encode.fields piece enclosing struct values) := by
  unfold Write.fields Encode.fields
  split
  · exact Follows.fail _
  · exact Follows.each fun p _ => hpart _ p.1.type p.2

theorem follows_alternative (s : Settings) (union : UnionType) (d : Int64) (value : Payload) :
    (Write.alternative s steps enclosing union d value).Follows
      (Encode.alternative s piece enclosing union d value) := by
  unfold Write.alternative Encode.alternative
  split
  · exact Follows.fail _
  · cases union.selected? d with
    | none => exact Follows.fail _
    | some b => exact (Follows.write _).append (hpart _ b.type value)

theorem follows_elements (s : Settings) (element : TypeDesc) (bound : Option UInt32)
    (values : List Payload) :
    (Write.elements s steps enclosing element bound values).Follows
      (Encode.elements s piece enclosing element bound values) := by
  unfold Write.elements Encode.elements
  cases bound.filter (·.toNat < values.length) with
  | some bound => exact Follows.fail _
  | none =>
    exact (Follows.write _).append (Follows.each fun v _ => hpart enclosing element v)

theorem follows_fixedElements (element : TypeDesc) (length : UInt32) (values : List Payload) :
    (Write.fixedElements steps enclosing element length values).Follows
      (Encode.fixedElements piece enclosing element length values) := by
  unfold Write.fixedElements Encode.fixedElements
  split
  · exact Follows.fail _
  · exact Follows.each fun v _ => hpart enclosing element v

theorem follows_content (c : Codec) (type : TypeDesc) (value : Payload) :
    (Write.content c steps type value).Follows (Encode.content c piece type value) := by
  unfold Write.content Encode.content
  cases c.aliases with
  | preserve => exact (follows_writeCode c.settings type).append (hpart [] type value)
  | collapse => exact (follows_writeCode c.settings type.collapse).append (hpart [] type value)

/-- **One node.** The steps of a node append the node, if the steps of its parts append these. -/
theorem follows_node (c : Codec) (type : TypeDesc) (value : Payload) :
    (Write.node c steps enclosing type value).Follows
      (Encode.node c piece enclosing type value) := by
  unfold Write.node Encode.node
  cases type.resolve with
  | null =>
    cases value with
    | null => exact Follows.nothing
    | _ => exact Follows.fail _
  | scalar kind =>
    cases value with
    | scalar v => exact follows_scalar c.settings kind v
    | _ => exact Follows.fail _
  | string =>
    cases value with
    | string text => exact Follows.write _
    | _ => exact Follows.fail _
  | wstring =>
    cases value with
    | wstring text => exact Follows.write _
    | _ => exact Follows.fail _
  | enum name enumerators =>
    cases value with
    | enum ordinal => exact Follows.write _
    | _ => exact Follows.fail _
  | objectRef interface =>
    cases value with
    | objectRef r => exact (Follows.write _).append (Follows.write _)
    | _ => exact Follows.fail _
  | any =>
    cases value with
    | any type value => exact follows_content hpart c type value
    | _ => exact Follows.fail _
  | sequence element bound =>
    cases value with
    | sequence values => exact follows_elements hpart c.settings element bound values
    | _ => exact Follows.fail _
  | array element length =>
    cases value with
    | array values => exact follows_fixedElements hpart element length values
    | _ => exact Follows.fail _
  | struct name members =>
    cases value with
    | struct values => exact follows_fields hpart ⟨name, members⟩ values
    | _ => exact Follows.fail _
  | union name discriminant branches =>
    cases value with
    | union d value =>
      exact follows_alternative hpart c.settings ⟨name, discriminant, branches⟩ d value
    | _ => exact Follows.fail _
  | recursive name =>
    dsimp only
    cases TypeDesc.enclosing? name enclosing with
    | some target => exact hpart enclosing target value
    | none => exact Follows.fail _
  | typedef name underlying => exact Follows.fail _

end Parts

/-! ## Whole values -/

/-- **Values.** Within any number of levels, the steps of a value append the value. -/
theorem follows_write (c : Codec) (levels : Nat) (enclosing : List TypeDesc) (type : TypeDesc)
    (value : Payload) :
    (c.write levels enclosing type value).Follows (c.encode levels enclosing type value) := by
  induction levels generalizing enclosing type value with
  | zero => exact Follows.fail _
  | succ levels ih => exact follows_node ih c type value

section Attempts

variable (c : Codec)

theorem wholeOrNothing_writeValue (x : Dynamic) : WholeOrNothing (c.writeValue x) (c.value x) :=
  (follows_write c c.maxDepth [] x.type x.payload).attempt

theorem wholeOrNothing_writeStruct (v : StructValue) :
    WholeOrNothing (c.writeStruct v) (c.structValue v) :=
  (follows_fields (follows_write c c.maxDepth) v.shape v.fields).attempt

/-- A union without a discriminant is refused before there is anything to attempt. -/
theorem wholeOrNothing_writeUnion (u : UnionValue) :
    WholeOrNothing (c.writeUnion u) (c.unionValue u) := by
  intro before
  unfold Codec.writeUnion Codec.unionValue
  cases u.active with
  | none => exact .inr ⟨_, rfl, rfl⟩
  | some held =>
    exact (follows_alternative (follows_write c c.maxDepth) c.settings u.shape held.discriminant
      held.value).attempt before

theorem wholeOrNothing_writeSequence (v : SequenceValue) :
    WholeOrNothing (c.writeSequence v) (c.sequenceValue v) :=
  (follows_elements (follows_write c c.maxDepth) c.settings v.element v.bound v.elements).attempt

end Attempts

/-- **Atomic writing.** Whatever a message holds, a value, a struct, a union or a sequence is
    appended to it as a whole; or there is a fault, of any part at any depth, and the message is as
    it was. -/
theorem writes_wholeOrNothing (c : Codec) :
    (∀ x : Dynamic, WholeOrNothing (c.writeValue x) (c.value x)) ∧
    (∀ v : StructValue, WholeOrNothing (c.writeStruct v) (c.structValue v)) ∧
    (∀ u : UnionValue, WholeOrNothing (c.writeUnion u) (c.unionValue u)) ∧
    ∀ v : SequenceValue, WholeOrNothing (c.writeSequence v) (c.sequenceValue v) :=
  ⟨wholeOrNothing_writeValue c, wholeOrNothing_writeStruct c, wholeOrNothing_writeUnion c,
    wholeOrNothing_writeSequence c⟩

end ObjectBroker
