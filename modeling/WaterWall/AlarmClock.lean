/-
An ideal clock with alarms of any type.  Time goes by in ticks; an alarm is armed
for a tick, goes off in that tick or is cancelled before, and the clock may not
advance over an alarm that is still armed for a tick gone by.
-/
import Mathlib

namespace AlarmClock

universe u

variable {ι : Type u}

/-- Ticks before `now` have begun; the last of them may still be in progress. -/
structure Clock (ι : Type u) where
  now : Nat
  armed : ι → Option Nat

inductive Action (ι : Type u) where
  | arm (alarm : ι) (deadline : Nat)
  | cancel (alarm : ι)
  | advance
  | fire (alarm : ι)
  deriving DecidableEq, Repr

/-- The action arms or cancels the alarm. -/
def Action.Touches (alarm : ι) : Action ι → Prop
  | .arm other _ => other = alarm
  | .cancel other => other = alarm
  | .advance => False
  | .fire _ => False

def Action.Arms (alarm : ι) : Action ι → Prop
  | .arm other _ => other = alarm
  | _ => False

theorem Action.not_arms_of_not_touches {action : Action ι} {alarm : ι}
    (hno : ¬ action.Touches alarm) : ¬ action.Arms alarm := by
  cases action with
  | arm other deadline => exact hno
  | _ => exact id

/-- No alarm is armed for a tick that has begun. -/
def Clock.Current (clock : Clock ι) : Prop :=
  ∀ alarm deadline, clock.armed alarm = some deadline → clock.now ≤ deadline

variable [DecidableEq ι]

def Clock.set (clock : Clock ι) (alarm : ι) (deadline : Option Nat) : Clock ι :=
  { clock with armed := Function.update clock.armed alarm deadline }

@[simp]
theorem Clock.set_now (clock : Clock ι) (alarm : ι) (deadline : Option Nat) :
    (clock.set alarm deadline).now = clock.now :=
  rfl

@[simp]
theorem Clock.set_armed_self (clock : Clock ι) (alarm : ι) (deadline : Option Nat) :
    (clock.set alarm deadline).armed alarm = deadline := by
  simp [Clock.set]

theorem Clock.set_armed_of_ne {alarm other : ι} (hne : other ≠ alarm) (clock : Clock ι)
    (deadline : Option Nat) : (clock.set alarm deadline).armed other = clock.armed other := by
  simp [Clock.set, hne]

inductive Step : Clock ι → Action ι → Clock ι → Prop where
  | arm {clock : Clock ι} {alarm : ι} {deadline : Nat} (hfuture : clock.now ≤ deadline) :
      Step clock (.arm alarm deadline) (clock.set alarm (some deadline))
  | cancel {clock : Clock ι} {alarm : ι} :
      Step clock (.cancel alarm) (clock.set alarm none)
  | advance {clock : Clock ι} (hcurrent : clock.Current) :
      Step clock .advance ⟨clock.now + 1, clock.armed⟩
  | fire {clock : Clock ι} {alarm : ι} {tick : Nat} (harmed : clock.armed alarm = some tick)
      (htick : tick + 1 = clock.now) :
      Step clock (.fire alarm) (clock.set alarm none)

inductive Path : Clock ι → List (Action ι) → Clock ι → Prop where
  | nil {clock : Clock ι} : Path clock [] clock
  | cons {clock next last : Clock ι} {action : Action ι} {actions : List (Action ι)}
      (hstep : Step clock action next) (hrest : Path next actions last) :
      Path clock (action :: actions) last

theorem Path.single {clock next : Clock ι} {action : Action ι}
    (hstep : Step clock action next) : Path clock [action] next :=
  .cons hstep .nil

theorem Path.append {clock middle last : Clock ι} {first second : List (Action ι)}
    (hfirst : Path clock first middle) (hsecond : Path middle second last) :
    Path clock (first ++ second) last := by
  induction hfirst with
  | nil => exact hsecond
  | cons hstep _ ih => exact .cons hstep (ih hsecond)

/-- The ticks in which the alarm goes off. -/
def firings (alarm : ι) : Nat → List (Action ι) → List Nat
  | _, [] => []
  | now, .advance :: actions => firings alarm (now + 1) actions
  | now, .fire other :: actions =>
    if other = alarm then (now - 1) :: firings alarm now actions
    else firings alarm now actions
  | now, .arm _ _ :: actions => firings alarm now actions
  | now, .cancel _ :: actions => firings alarm now actions

section Firings

variable {clock last : Clock ι} {actions : List (Action ι)} {alarm : ι} {deadline : Nat}

theorem Path.now_le (hpath : Path clock actions last) : clock.now ≤ last.now := by
  induction hpath with
  | nil => exact Nat.le_refl _
  | cons hstep _ ih =>
    cases hstep with
    | advance hcurrent => exact Nat.le_of_succ_le ih
    | _ => exact ih

theorem firings_append (hpath : Path clock actions last) (alarm : ι)
    (rest : List (Action ι)) :
    firings alarm clock.now (actions ++ rest) =
      firings alarm clock.now actions ++ firings alarm last.now rest := by
  induction hpath with
  | nil => rfl
  | cons hstep _ ih =>
    cases hstep with
    | arm hfuture => exact ih
    | cancel => exact ih
    | advance hcurrent => exact ih
    | @fire other tick harmed htick =>
      rw [List.cons_append, firings, firings]
      rw [Clock.set_now] at ih
      split
      · rw [ih, List.cons_append]
      · exact ih

theorem firings_of_unarmed (hpath : Path clock actions last)
    (hunarmed : clock.armed alarm = none)
    (huntouched : ∀ action ∈ actions, ¬ action.Arms alarm) :
    firings alarm clock.now actions = [] ∧ last.armed alarm = none := by
  induction hpath with
  | nil => exact ⟨rfl, hunarmed⟩
  | cons hstep _ ih =>
    rw [List.forall_mem_cons] at huntouched
    cases hstep with
    | arm hfuture =>
      apply ih _ huntouched.2
      rw [Clock.set_armed_of_ne (Ne.symm huntouched.1)]
      exact hunarmed
    | @cancel other =>
      apply ih _ huntouched.2
      grind [Clock.set_armed_self, Clock.set_armed_of_ne]
    | advance hcurrent => exact ih hunarmed huntouched.2
    | @fire other tick harmed htick =>
      have hother : other ≠ alarm := by
        rintro rfl
        rw [hunarmed] at harmed
        cases harmed
      rw [firings, if_neg hother]
      simp_all [Clock.set_armed_of_ne, Ne.symm]

/-- An alarm that is neither armed again nor cancelled goes off once, in the
tick it is armed for, or is still armed. -/
theorem firings_of_armed (hpath : Path clock actions last)
    (harmed : clock.armed alarm = some deadline)
    (huntouched : ∀ action ∈ actions, ¬ action.Touches alarm) :
    (firings alarm clock.now actions = [] ∧ last.armed alarm = some deadline) ∨
      (firings alarm clock.now actions = [deadline] ∧ last.armed alarm = none ∧
        deadline < last.now) := by
  induction hpath with
  | nil => exact Or.inl ⟨rfl, harmed⟩
  | cons hstep hrest ih =>
    rw [List.forall_mem_cons] at huntouched
    cases hstep with
    | arm hfuture =>
      apply ih _ huntouched.2
      rw [Clock.set_armed_of_ne (Ne.symm huntouched.1)]
      exact harmed
    | cancel =>
      apply ih _ huntouched.2
      rw [Clock.set_armed_of_ne (Ne.symm huntouched.1)]
      exact harmed
    | advance hcurrent => exact ih harmed huntouched.2
    | @fire other tick hother htick =>
      by_cases hsame : other = alarm
      · subst hsame
        rw [harmed, Option.some.injEq] at hother
        subst hother
        obtain ⟨hsilent, hnone⟩ := firings_of_unarmed hrest
          (Clock.set_armed_self _ other none)
          fun action haction =>
            Action.not_arms_of_not_touches (huntouched.2 action haction)
        have hnow := hrest.now_le
        rw [Clock.set_now] at hsilent hnow
        right
        rw [firings, if_pos rfl, hsilent, ← htick]
        exact ⟨rfl, hnone, by omega⟩
      simp_all [firings.eq_3, Clock.set_armed_of_ne, Ne.symm]

theorem firings_of_current (hpath : Path clock actions last)
    (harmed : clock.armed alarm = some deadline)
    (huntouched : ∀ action ∈ actions, ¬ action.Touches alarm) (hcurrent : last.Current) :
    firings alarm clock.now actions = if deadline < last.now then [deadline] else [] := by
  rcases firings_of_armed hpath harmed huntouched with ⟨hnone, hstill⟩ | ⟨hone, _, hlate⟩
  · rw [hnone, if_neg (Nat.not_lt.mpr (hcurrent alarm deadline hstill))]
  · rw [hone, if_pos hlate]

end Firings

end AlarmClock
