import Mathlib.Data.List.Chain
import ObjectBroker.Proofs.Types.Definitions

/-!
# `ObjectBroker.Proofs.Types.Preorder` — assignability along a chain

A value goes from hand to hand: it is stored where another type is declared, taken out under that
type, and stored again elsewhere. Each step asks whether one type may stand for the next. The answers
add up, so the value could have gone to the end at once.

Two things could break this. A marker may stand for a struct or for a union, so a struct would get to
a union of its name by way of a marker that has neither around it. In a closed type no such marker is
met, because a comparison goes no deeper than elements, and never into a struct or a union. And an
empty value goes nowhere, not even to its own type, nor does a sequence or an array of empty values;
everything else is assignable to itself.
-/

namespace ObjectBroker

/-- What fits a bound that fits another one fits that one. -/
theorem boundFits_trans {own between allowed : Option UInt32} (h : boundFits own between = true)
    (h' : boundFits between allowed = true) : boundFits own allowed = true := by
  cases allowed with
  | none => cases own <;> rfl
  | some c =>
    cases between with
    | none => cases h'
    | some b =>
      cases own with
      | none => cases h
      | some a =>
        have hab : a ≤ b := of_decide_eq_true h
        have hbc : b ≤ c := of_decide_eq_true h'
        exact decide_eq_true (UInt32.le_trans hab hbc)

theorem boundFits_self (bound : Option UInt32) : boundFits bound bound = true := by
  cases bound with
  | none => rfl
  | some b => exact decide_eq_true (UInt32.le_refl b)

namespace TypeDesc

variable {own between expected : TypeDesc}

/-! ## Shapes -/

/-- A type may stand where the type behind its `typedef` names may. -/
theorem resolve_assignableTo (own expected : TypeDesc) :
    own.resolve.assignableTo expected = own.assignableTo expected := by
  induction own with
  | typedef name underlying ih => exact ih
  | _ => rfl

/-- And it is expected where the type behind its `typedef` names is. -/
theorem assignableTo_resolve (own expected : TypeDesc) :
    own.assignableTo expected.resolve = own.assignableTo expected := by
  induction own with
  | typedef name underlying ih => exact ih
  | null => rfl
  | _ => simp only [assignableTo, resolve_resolve]

theorem objectRef_assignableTo_iff {interface : String} :
    (objectRef interface).assignableTo expected = true ↔
      ∃ interface', expected.resolve = .objectRef interface' ∧
        (interface = interface' ∨ interface' = objectInterface) := by
  rw [assignableTo]
  cases expected.resolve <;> simp

/-! ## Chains -/

/-- **One step more.** What may stand for a closed type may stand where that type may. -/
theorem assignableTo_trans (hclosed : between.closed = true)
    (hfirst : own.assignableTo between = true) (hsecond : between.assignableTo expected = true) :
    own.assignableTo expected = true := by
  rw [← resolve_assignableTo] at hsecond
  rw [closed, ← closedIn_resolve] at hclosed
  induction own generalizing between expected with
  | typedef name underlying ih => exact ih hclosed hfirst hsecond
  | sequence element bound ih =>
    obtain ⟨element', bound', hbetween, hfits, helement⟩ := sequence_assignableTo_iff.1 hfirst
    rw [hbetween] at hsecond hclosed
    obtain ⟨element'', bound'', hexpected, hfits', helement'⟩ :=
      sequence_assignableTo_iff.1 hsecond
    rw [← resolve_assignableTo] at helement'
    rw [closedIn, ← closedIn_resolve] at hclosed
    exact sequence_assignableTo_iff.2 ⟨element'', bound'', hexpected, boundFits_trans hfits hfits',
      ih hclosed helement helement'⟩
  | array element length ih =>
    obtain ⟨element', hbetween, helement⟩ := array_assignableTo_iff.1 hfirst
    rw [hbetween] at hsecond hclosed
    obtain ⟨element'', hexpected, helement'⟩ := array_assignableTo_iff.1 hsecond
    rw [← resolve_assignableTo] at helement'
    rw [closedIn, ← closedIn_resolve] at hclosed
    exact array_assignableTo_iff.2 ⟨element'', hexpected, ih hclosed helement helement'⟩
  | objectRef interface =>
    obtain ⟨interface', hbetween, hwider⟩ := objectRef_assignableTo_iff.1 hfirst
    rw [hbetween] at hsecond
    obtain ⟨interface'', hexpected, hwider'⟩ := objectRef_assignableTo_iff.1 hsecond
    refine objectRef_assignableTo_iff.2 ⟨interface'', hexpected, ?_⟩
    rcases hwider' with rfl | hobject
    · exact hwider
    · exact .inr hobject
  | null => cases hfirst
  | recursive name =>
    -- A marker goes to a struct or a union of its name, which is what goes on from there.
    rw [assignableTo] at hfirst ⊢
    cases hbetween : between.resolve with
    | struct name' members | union name' discriminant branches =>
      rw [hbetween] at hfirst hsecond
      rw [beq_iff_eq.1 hfirst]
      rw [assignableTo] at hsecond
      cases hexpected : expected.resolve <;> simp_all
    | recursive name' =>
      rw [hbetween] at hclosed
      cases hclosed
    | _ =>
      rw [hbetween] at hfirst
      cases hfirst
  | _ =>
    -- The rest goes to its own kind, and on from there as it would have gone itself.
    rw [assignableTo] at hfirst
    split at hfirst <;> simp_all [assignableTo, closedIn]

/-- **Chains.** A value that goes from type to type, of which those in between are closed, may go to
    the last one at once. -/
theorem assignableTo_of_isChain {types : List TypeDesc} (hclosed : ∀ t ∈ types, t.closed = true)
    (hchain : List.IsChain (fun t u => t.assignableTo u = true) (own :: (types ++ [expected]))) :
    own.assignableTo expected = true := by
  induction types generalizing own with
  | nil => exact (List.isChain_cons_cons.1 hchain).1
  | cons first types ih =>
    obtain ⟨hfirst, hothers⟩ := List.isChain_cons_cons.1 hchain
    have hlast := ih (fun t ht => hclosed t (List.mem_cons_of_mem first ht)) hothers
    exact assignableTo_trans (hclosed first List.mem_cons_self) hfirst hlast

/-! ## To itself -/

/-- What is reached by way of `typedef` names, elements of sequences and elements of arrays only. -/
def core : TypeDesc → TypeDesc
  | .typedef _ underlying => underlying.core
  | .sequence element _ | .array element _ => element.core
  | t => t

/-- Whether a sequence type is assignable to itself is up to its element type. -/
theorem sequence_assignableTo_self (element : TypeDesc) (bound : Option UInt32) :
    (sequence element bound).assignableTo (.sequence element bound)
      = element.assignableTo element := by
  simp [assignableTo, resolve, boundFits_self]

/-- And so it is for an array type. -/
theorem array_assignableTo_self (element : TypeDesc) (length : UInt32) :
    (array element length).assignableTo (.array element length)
      = element.assignableTo element := by
  simp [assignableTo, resolve]

/-- And for a `typedef` name it is up to what the name stands for. -/
theorem typedef_assignableTo_self (name : String) (underlying : TypeDesc) :
    (typedef name underlying).assignableTo (.typedef name underlying)
      = underlying.assignableTo underlying := by
  rw [assignableTo, ← assignableTo_resolve, resolve_typedef, assignableTo_resolve]

/-- **To itself.** Every type may stand for itself but for those that lead to the empty value. -/
theorem assignableTo_self_iff {t : TypeDesc} : t.assignableTo t = true ↔ t.core ≠ .null := by
  induction t with
  | typedef name underlying ih => rw [typedef_assignableTo_self, core, ih]
  | sequence element bound ih => rw [sequence_assignableTo_self, core, ih]
  | array element length ih => rw [array_assignableTo_self, core, ih]
  | _ => simp [assignableTo, resolve, core]

/-- **Assignability is a preorder.** It goes on from closed types, in one step more or along a chain;
    and every type is assignable to itself unless the empty value is reached from it. -/
theorem assignableTo_preorder :
    (∀ own between expected : TypeDesc, between.closed = true →
      own.assignableTo between = true → between.assignableTo expected = true →
      own.assignableTo expected = true) ∧
    (∀ (own expected : TypeDesc) (types : List TypeDesc), (∀ t ∈ types, t.closed = true) →
      List.IsChain (fun t u => t.assignableTo u = true) (own :: (types ++ [expected])) →
      own.assignableTo expected = true) ∧
    ∀ t : TypeDesc, t.assignableTo t = true ↔ t.core ≠ .null :=
  ⟨fun _ _ _ => assignableTo_trans, fun _ _ _ => assignableTo_of_isChain,
    fun _ => assignableTo_self_iff⟩

/-- From a short list by way of its name to a longer one, from there to a list without a bound, and
    on to one whose elements may be any objects. Lists of empty values go nowhere. -/
theorem assignableTo_preorder_lists :
    let short : TypeDesc := .sequence (.objectRef "Echo") (some 2)
    let long := TypeDesc.typedef "Longer" (.sequence (.objectRef "Echo") (some 9))
    let echoes : TypeDesc := .sequence (.objectRef "Echo") none
    let object := TypeDesc.typedef "Thing" (.objectRef objectInterface)
    let objects : TypeDesc := .sequence object none
    let empty : TypeDesc := .sequence .null none
    (long.closed = true ∧ echoes.closed = true ∧ short.assignableTo long = true ∧
        long.assignableTo echoes = true ∧ echoes.assignableTo objects = true) ∧
      short.assignableTo echoes = true ∧ short.assignableTo objects = true ∧
      objects.assignableTo objects = true ∧ empty.assignableTo empty ≠ true := by
  intro short long echoes object objects empty
  obtain ⟨hstep, hchain, hself⟩ := assignableTo_preorder
  have hlong : long.closed = true := rfl
  have hechoes : echoes.closed = true := rfl
  have hfirst : short.assignableTo long = true := by decide
  have hsecond : long.assignableTo echoes = true := by decide
  have hthird : echoes.assignableTo objects = true := by decide
  refine ⟨⟨hlong, hechoes, hfirst, hsecond, hthird⟩, ?_, ?_, ?_, ?_⟩
  · exact hstep _ _ _ hlong hfirst hsecond
  · refine hchain _ _ [long, echoes] ?_ ?_
    · simp only [List.forall_mem_cons, List.not_mem_nil, false_implies, implies_true, and_true]
      exact ⟨hlong, hechoes⟩
    · exact .cons_cons hfirst (.cons_cons hsecond (.cons_cons hthird (.singleton objects)))
  · exact (hself objects).2 (by decide)
  · exact fun h => (hself empty).1 h rfl

/-- By way of a marker that is not closed, a struct would get to a union of its name. -/
example : (struct "Node" []).assignableTo (.recursive "Node") = true ∧
    (recursive "Node").assignableTo (.union "Node" (.scalar .octet) []) = true ∧
    (struct "Node" []).assignableTo (.union "Node" (.scalar .octet) []) = false := by decide

end TypeDesc

end ObjectBroker
