import ObjectBroker.Proofs.Codec.Atomic
import ObjectBroker.Proofs.Codec.Locality
import ObjectBroker.Proofs.TypeCode.Recovery

/-!
# `ObjectBroker.Proofs.Codec.Periodicity` — where a value stands

A value is written behind a preamble, a header and the arguments before it, and all it notices of
them is the remainder of its offset by eight. So a value can be moved by whole periods: what is
written behind one message is what is written behind any other of congruent length, and a received
value can be read with the front of the message cut off.

For writing, the pieces of type codes and values are shown to be periodic, node by node, and the
walks that write them follow these pieces. For reading, periodicity is part of locality.
-/

namespace ObjectBroker

open Emit

/-! ## Type codes -/

section TypeCodes

variable (s : Settings)

theorem periodic_labels (ls : List Label) : (TypeCode.labels s ls).Periodic := by
  refine (periodic_count s _).append (Periodic.concat fun l _ => ?_)
  cases l with
  | value d => exact (Periodic.octets _).append (periodic_longlong s d)
  | default => exact (Periodic.octets _).append (periodic_longlong s 0)

/-- **Type codes.** The type code of a description is periodic. -/
theorem periodic_code (t : TypeDesc) : (t.code s).Periodic := by
  have hkind : ∀ k, (TypeCode.kind s k).Periodic := fun k => periodic_ulong s k.id
  induction t with
  | string => exact (hkind _).append (periodic_ulong s 0)
  | wstring => exact (hkind _).append (periodic_ulong s 0)
  | objectRef interface => exact (hkind _).append (periodic_string s interface)
  | recursive name => exact (hkind _).append (periodic_string s name)
  | enum name enumerators =>
    refine (((hkind _).append (periodic_string s name)).append (periodic_count s _)).append ?_
    exact Periodic.concat fun e _ => periodic_string s e
  | struct name members ih =>
    -- The members are a row of pieces, and the induction reaches each of them.
    simp only [TypeDesc.code, TypeDesc.codeMembers_eq_concat]
    refine (((hkind _).append (periodic_string s name)).append (periodic_count s _)).append ?_
    exact Periodic.concat fun m hm => (periodic_string s m.name).append (ih m hm)
  | union name discriminant branches ihd ihb =>
    simp only [TypeDesc.code, TypeDesc.codeBranches_eq_concat]
    refine ((((hkind _).append (periodic_string s name)).append ihd).append
      (periodic_count s _)).append ?_
    exact Periodic.concat fun b hb =>
      ((periodic_labels s b.labels).append (periodic_string s b.name)).append (ihb b hb)
  | sequence element bound ih => exact ((hkind _).append ih).append (periodic_ulong s _)
  | array element length ih => exact ((hkind _).append ih).append (periodic_ulong s length)
  | typedef name underlying ih => exact ((hkind _).append (periodic_string s name)).append ih
  | _ => exact hkind _

end TypeCodes

/-! ## Values -/

theorem periodic_discriminant (s : Settings) (type : TypeDesc) (d : Int64) :
    (Encode.discriminant s type d).Periodic := by
  unfold Encode.discriminant
  split
  · exact Periodic.octets _
  · exact Periodic.octets _
  · exact periodic_char _
  · split
    · exact periodic_wchar s _
    · exact Periodic.fail _
  · exact Periodic.word s (by decide) _
  · exact Periodic.word s (by decide) _
  · exact Periodic.word s (by decide) _
  · exact Periodic.word s (by decide) _
  · exact Periodic.word s (by decide) _
  · exact periodic_longlong s d
  · exact periodic_longlong s d
  · exact Periodic.fail _

theorem periodic_enumerator (s : Settings) (name : String) (enumerators : List String)
    (ordinal : UInt32) : (Encode.enumerator s name enumerators ordinal).Periodic := by
  unfold Encode.enumerator
  split
  · exact periodic_ulong s ordinal
  · exact Periodic.fail _

theorem periodic_reference (s : Settings) (r : ObjectRef) : (Encode.reference s r).Periodic :=
  (periodic_string s r.interface).append (periodic_octetSequence s r.key)

section Parts

/-! Each composite value is periodic if its parts are. -/

variable {part : PartWriter}
  (h : ∀ enclosing type value, (part enclosing type value).Periodic) (enclosing : List TypeDesc)

include h

theorem periodic_fields (struct : StructType) (values : List Payload) :
    (Encode.fields part enclosing struct values).Periodic := by
  unfold Encode.fields
  split
  · exact Periodic.fail _
  · exact Periodic.concat fun p _ => h _ p.1.type p.2

theorem periodic_alternative (s : Settings) (union : UnionType) (d : Int64) (value : Payload) :
    (Encode.alternative s part enclosing union d value).Periodic := by
  unfold Encode.alternative
  split
  · exact Periodic.fail _
  · split
    · exact Periodic.fail _
    · exact (periodic_discriminant s _ d).append (h _ _ value)

theorem periodic_elements (s : Settings) (element : TypeDesc) (bound : Option UInt32)
    (values : List Payload) :
    (Encode.elements s part enclosing element bound values).Periodic := by
  unfold Encode.elements
  split
  · exact Periodic.fail _
  · exact (periodic_count s _).append (Periodic.concat fun v _ => h enclosing element v)

theorem periodic_fixedElements (element : TypeDesc) (length : UInt32) (values : List Payload) :
    (Encode.fixedElements part enclosing element length values).Periodic := by
  unfold Encode.fixedElements
  split
  · exact Periodic.fail _
  · exact Periodic.concat fun v _ => h enclosing element v

theorem periodic_content (c : Codec) (type : TypeDesc) (value : Payload) :
    (Encode.content c part type value).Periodic :=
  (periodic_code c.settings _).append (h [] type value)

/-- **One node.** A node is periodic if its parts are. -/
theorem periodic_node (c : Codec) (type : TypeDesc) (value : Payload) :
    (Encode.node c part enclosing type value).Periodic := by
  unfold Encode.node
  cases type.resolve with
  | null => cases value <;> first | exact Periodic.nothing | exact Periodic.fail _
  | scalar kind =>
    cases value with
    | scalar v =>
      dsimp only
      split
      · exact periodic_scalar _ v
      · exact Periodic.fail _
    | _ => exact Periodic.fail _
  | string =>
    cases value with
    | string text => exact periodic_string _ text
    | _ => exact Periodic.fail _
  | wstring =>
    cases value with
    | wstring text => exact periodic_wstring _ text
    | _ => exact Periodic.fail _
  | enum name enumerators =>
    cases value with
    | enum ordinal => exact periodic_enumerator _ name enumerators ordinal
    | _ => exact Periodic.fail _
  | objectRef interface =>
    cases value with
    | objectRef r => exact periodic_reference _ r
    | _ => exact Periodic.fail _
  | any =>
    cases value with
    | any type value => exact periodic_content h c type value
    | _ => exact Periodic.fail _
  | sequence element bound =>
    cases value with
    | sequence values => exact periodic_elements h enclosing _ element bound values
    | _ => exact Periodic.fail _
  | array element length =>
    cases value with
    | array values => exact periodic_fixedElements h enclosing element length values
    | _ => exact Periodic.fail _
  | struct name members =>
    cases value with
    | struct values => exact periodic_fields h enclosing ⟨name, members⟩ values
    | _ => exact Periodic.fail _
  | union name discriminant branches =>
    cases value with
    | union d value =>
      exact periodic_alternative h enclosing _ ⟨name, discriminant, branches⟩ d value
    | _ => exact Periodic.fail _
  | typedef name underlying => exact Periodic.fail _
  | recursive name =>
    -- A marker is written as what it stands for, which is a part like any other.
    dsimp only
    cases TypeDesc.enclosing? name enclosing with
    | some target => exact h enclosing target value
    | none => exact Periodic.fail _

end Parts

/-- **Values.** A value within any number of levels is periodic. -/
theorem periodic_encode (c : Codec) (levels : Nat) (enclosing : List TypeDesc) (type : TypeDesc)
    (value : Payload) : (c.encode levels enclosing type value).Periodic := by
  induction levels generalizing enclosing type value with
  | zero => exact Periodic.fail _
  | succ levels ih => exact periodic_node ih enclosing c type value

/-! ## Two messages -/

section Messages

variable {e : Emit} {p q : List UInt8}

/-- An attempt to write a periodic piece does the same to two messages of congruent length. -/
theorem WholeOrNothing.congruent {write : Writer → Except Fault Unit × Writer}
    (h : WholeOrNothing write e) (he : e.Periodic) (hpq : p.length % 8 = q.length % 8) :
    (∃ written, write ⟨p⟩ = (.ok (), ⟨p ++ written⟩) ∧ write ⟨q⟩ = (.ok (), ⟨q ++ written⟩)) ∨
      ∃ f, write ⟨p⟩ = (.error f, ⟨p⟩) ∧ write ⟨q⟩ = (.error f, ⟨q⟩) := by
  have hsame : e p.length = e q.length := he.eq_of_mod_eq hpq
  rcases h p with ⟨written, hwritten, hp⟩ | ⟨f, hfault, hp⟩
  · exact .inl ⟨written, hp, h.eq_ok_iff.2 (hsame ▸ hwritten)⟩
  · exact .inr ⟨f, hp, h.of_error (hsame ▸ hfault)⟩

/-- Steps that follow a periodic piece append the same to two messages of congruent length, or fail
    alike. -/
theorem Steps.Follows.congruent {steps : Steps} (h : steps.Follows e) (he : e.Periodic)
    (hpq : p.length % 8 = q.length % 8) :
    (∃ written, steps ⟨p⟩ = .ok () ⟨p ++ written⟩ ∧ steps ⟨q⟩ = .ok () ⟨q ++ written⟩) ∨
      ∃ f w w', steps ⟨p⟩ = .error f w ∧ steps ⟨q⟩ = .error f w' := by
  have hsame : e p.length = e q.length := he.eq_of_mod_eq hpq
  cases hpiece : e p.length with
  | ok written =>
    exact .inl ⟨written, h.eq_of_piece hpiece, h.eq_of_piece (hsame.symm.trans hpiece)⟩
  | error f =>
    obtain ⟨w, hp⟩ := h.exists_of_fault hpiece
    obtain ⟨w', hq⟩ := h.exists_of_fault (hsame.symm.trans hpiece)
    exact .inr ⟨f, w, w', hp, hq⟩

end Messages

/-- **Position matters only modulo eight.** To two messages of congruent length a value appends the
    same octets, or it fails alike and both are left as they were; and so do the steps of a type
    code, but for what they leave behind. A value at an offset of a message is read, or refused,
    like the value at the remainder of the offset in the message without the whole periods in front,
    and takes as many octets. -/
theorem Codec.offset_modulo_eight (c : Codec) :
    (∀ (x : Dynamic) (p q : List UInt8), p.length % 8 = q.length % 8 →
      (∃ written, c.writeValue x ⟨p⟩ = (.ok (), ⟨p ++ written⟩) ∧
        c.writeValue x ⟨q⟩ = (.ok (), ⟨q ++ written⟩)) ∨
      ∃ f, c.writeValue x ⟨p⟩ = (.error f, ⟨p⟩) ∧ c.writeValue x ⟨q⟩ = (.error f, ⟨q⟩)) ∧
    (∀ (t : TypeDesc) (p q : List UInt8), p.length % 8 = q.length % 8 →
      (∃ written, t.writeCode c.settings ⟨p⟩ = .ok () ⟨p ++ written⟩ ∧
        t.writeCode c.settings ⟨q⟩ = .ok () ⟨q ++ written⟩) ∨
      ∃ f w w', t.writeCode c.settings ⟨p⟩ = .error f w ∧
        t.writeCode c.settings ⟨q⟩ = .error f w') ∧
    ∀ (type : TypeDesc) (message : List UInt8) (offset : Nat), offset ≤ message.length →
      (∃ x taken, Reader.readAt message offset (c.readValue type) = .ok (x, offset + taken) ∧
        Reader.readAt (message.drop (offset - offset % 8)) (offset % 8) (c.readValue type)
          = .ok (x, offset % 8 + taken)) ∨
      ∃ f, Reader.readAt message offset (c.readValue type) = .error f ∧
        Reader.readAt (message.drop (offset - offset % 8)) (offset % 8) (c.readValue type)
          = .error f := by
  refine ⟨?_, ?_, ?_⟩
  · intro x p q hpq
    exact (wholeOrNothing_writeValue c x).congruent (periodic_encode c _ [] x.type x.payload) hpq
  · intro t p q hpq
    exact (follows_writeCode c.settings t).congruent (periodic_code c.settings t) hpq
  · intro type message offset hinside
    exact (local_readValue c type).readAt_mod_eight hinside

/-- A number written behind three octets and behind eleven, a type code behind one and behind nine,
    and the number read in both places. -/
theorem Codec.offset_modulo_eight_long :
    (({} : Codec).writeValue ⟨.scalar .long, .scalar (.long 7)⟩ ⟨[1, 2, 3]⟩
        = (.ok (), ⟨[1, 2, 3, 0, 7, 0, 0, 0]⟩) ∧
      ({} : Codec).writeValue ⟨.scalar .long, .scalar (.long 7)⟩ ⟨[9, 9, 9, 9, 9, 9, 9, 9, 1, 2, 3]⟩
        = (.ok (), ⟨[9, 9, 9, 9, 9, 9, 9, 9, 1, 2, 3, 0, 7, 0, 0, 0]⟩)) ∧
    ((TypeDesc.scalar .long).writeCode {} ⟨[1]⟩ = .ok () ⟨[1, 0, 0, 0, 3, 0, 0, 0]⟩ ∧
      (TypeDesc.scalar .long).writeCode {} ⟨[9, 9, 9, 9, 9, 9, 9, 9, 1]⟩
        = .ok () ⟨[9, 9, 9, 9, 9, 9, 9, 9, 1, 0, 0, 0, 3, 0, 0, 0]⟩) ∧
    Reader.readAt [1, 2, 3, 0, 7, 0, 0, 0] 3 (({} : Codec).readValue (.scalar .long))
      = .ok (⟨.scalar .long, .scalar (.long 7)⟩, 8) ∧
    Reader.readAt [9, 9, 9, 9, 9, 9, 9, 9, 1, 2, 3, 0, 7, 0, 0, 0] 11
        (({} : Codec).readValue (.scalar .long))
      = .ok (⟨.scalar .long, .scalar (.long 7)⟩, 16) := by
  -- The short messages are worked out, and the theorem carries the outcome to the long ones.
  obtain ⟨hwrite, hcode, hread⟩ := Codec.offset_modulo_eight {}
  refine ⟨⟨rfl, ?_⟩, ⟨rfl, ?_⟩, rfl, ?_⟩
  · rcases hwrite ⟨.scalar .long, .scalar (.long 7)⟩ [1, 2, 3] [9, 9, 9, 9, 9, 9, 9, 9, 1, 2, 3]
      (by decide) with ⟨written, hshort, hlong⟩ | ⟨f, hshort, -⟩
    · cases hshort
      exact hlong
    · cases hshort
  · rcases hcode (.scalar .long) [1] [9, 9, 9, 9, 9, 9, 9, 9, 1] (by decide) with
      ⟨written, hshort, hlong⟩ | ⟨f, w, w', hshort, -⟩
    · cases hshort
      exact hlong
    · cases hshort
  · rcases hread (.scalar .long) [9, 9, 9, 9, 9, 9, 9, 9, 1, 2, 3, 0, 7, 0, 0, 0] 11
      (by decide) with ⟨x, taken, hlong, hshort⟩ | ⟨f, -, hshort⟩
    · have hmoved :
          Reader.readAt [1, 2, 3, 0, 7, 0, 0, 0] 3 (({} : Codec).readValue (.scalar .long))
            = .ok (⟨.scalar .long, .scalar (.long 7)⟩, 8) := rfl
      obtain ⟨rfl, htaken⟩ := Prod.mk.inj (Except.ok.inj (hmoved.symm.trans hshort))
      obtain rfl : taken = 5 := by omega
      exact hlong
    · cases hshort

end ObjectBroker
