/-
Programs that read memory: a run may be undefined, may give up, or may return a value with a new
state.  `Ensures` says what holds of every value that a program returns, whatever the state.
-/
import Mathlib.Tactic.Common

/-- `none` is an undefined run and `some none` one that gave up. -/
def Reading (σ α : Type) :=
  σ → Option (Option (α × σ))

namespace Reading

variable {σ α β : Type}

instance : Monad (Reading σ) where
  pure value := fun state => some (some (value, state))
  bind program next := fun state =>
    match program state with
    | none => none
    | some none => some none
    | some (some (value, state)) => next value state

def undefined : Reading σ α := fun _ => none

def giveUp : Reading σ α := fun _ => some none

/-- Whatever the program returns is as described. -/
def Ensures (program : Reading σ α) (post : α → Prop) : Prop :=
  ∀ state value next, program state = some (some (value, next)) → post value

theorem bind_eq_some_iff {program : Reading σ α} {next : α → Reading σ β} {state last : σ}
    {result : β} :
    (program >>= next) state = some (some (result, last)) ↔
      ∃ value middle, program state = some (some (value, middle)) ∧
        next value middle = some (some (result, last)) := by
  change (match program state with
    | none => none
    | some none => some none
    | some (some (value, state)) => next value state) = _ ↔ _
  grind

namespace Ensures

variable {program : Reading σ α} {next : α → Reading σ β} {post : α → Prop} {goal : β → Prop}

theorem pure {value : α} (hvalue : post value) :
    Ensures (Pure.pure value : Reading σ α) post := by
  intro state result last hrun
  cases hrun
  exact hvalue

theorem undefined : Ensures (Reading.undefined : Reading σ α) post := by
  intro state result last hrun
  cases hrun

theorem giveUp : Ensures (Reading.giveUp : Reading σ α) post := by
  intro state result last hrun
  cases hrun

theorem trivial (program : Reading σ α) : Ensures program fun _ => True :=
  fun _ _ _ _ => True.intro

theorem bind (hprogram : Ensures program post) (hnext : ∀ value, post value →
    Ensures (next value) goal) : Ensures (program >>= next) goal := by
  intro state result last hrun
  obtain ⟨value, middle, hvalue, hresult⟩ := bind_eq_some_iff.mp hrun
  exact hnext value (hprogram state value middle hvalue) middle result last hresult

theorem ite {condition : Prop} [Decidable condition] {other : Reading σ α}
    (htrue : condition → Ensures program post) (hfalse : ¬ condition → Ensures other post) :
    Ensures (if condition then program else other) post := by
  split
  · exact htrue ‹_›
  · exact hfalse ‹_›

theorem mono {weaker : α → Prop} (hprogram : Ensures program post)
    (himp : ∀ value, post value → weaker value) : Ensures program weaker :=
  fun state value last hrun => himp value (hprogram state value last hrun)

theorem bind_congr {other : α → Reading σ β} (hprogram : Ensures program post)
    (hagree : ∀ value, post value → next value = other value) :
    program >>= next = program >>= other := by
  funext state
  change (match program state with
    | none => none
    | some none => some none
    | some (some (value, state)) => next value state) =
    match program state with
    | none => none
    | some none => some none
    | some (some (value, state)) => other value state
  cases hrun : program state with
  | none => rfl
  | some outcome =>
    cases outcome with
    | none => rfl
    | some pair =>
      obtain ⟨value, middle⟩ := pair
      exact congrFun (hagree value (hprogram state value middle hrun)) middle

end Ensures

end Reading
