/-
Threads that take atomic steps on shared data in any order, a lock that one of them at a
time is inside of, and resources that they hand to each other through a pool: each is with
one thread or in the pool once.
-/
import Mathlib

namespace Interleaving

open List Function

universe u v w x

theorem always {α : Type u} {next : α → α → Prop} {P : α → Prop} {start state : α}
    (hstart : P start) (hkeep : ∀ before after, P before → next before after → P after)
    (hreach : Relation.ReflTransGen next start state) : P state := by
  induction hreach with
  | refl => exact hstart
  | tail _ hstep ih => exact hkeep _ _ ih hstep

/-- The shared data and the local state of each thread. -/
structure Config (ι : Type u) (σ : Type v) (τ : Type w) where
  shared : σ
  threads : ι → τ

variable {ι : Type u} {σ : Type v} {τ : Type w} [DecidableEq ι]

/-- Some thread takes one step. -/
inductive Step (step : ι → σ → τ → σ → τ → Prop) : Config ι σ τ → Config ι σ τ → Prop where
  | mk {config : Config ι σ τ} {shared : σ} {thread : τ} (i : ι)
      (hstep : step i config.shared (config.threads i) shared thread) :
      Step step config ⟨shared, Function.update config.threads i thread⟩

/-- What some interleaving leads to. -/
def Reachable (step : ι → σ → τ → σ → τ → Prop) (start config : Config ι σ τ) : Prop :=
  Relation.ReflTransGen (Step step) start config

section Reach

variable {step : ι → σ → τ → σ → τ → Prop} {start config : Config ι σ τ}

theorem Reachable.refl : Reachable step start start := Relation.ReflTransGen.refl

theorem Reachable.next (hreach : Reachable step start config) {shared : σ} {thread : τ} (i : ι)
    (hstep : step i config.shared (config.threads i) shared thread) :
    Reachable step start ⟨shared, Function.update config.threads i thread⟩ :=
  hreach.tail (.mk i hstep)

theorem Reachable.invariant {P : Config ι σ τ → Prop} (hstart : P start)
    (hkeep : ∀ (config : Config ι σ τ) (i : ι) (shared : σ) (thread : τ), P config →
      step i config.shared (config.threads i) shared thread →
      P ⟨shared, Function.update config.threads i thread⟩)
    (hreach : Reachable step start config) : P config := by
  apply always hstart _ hreach
  rintro before _ hbefore ⟨i, hstep⟩
  exact hkeep before i _ _ hbefore hstep

end Reach

theorem forall_update {P : τ → Prop} {threads : ι → τ} (hall : ∀ i, P (threads i)) {i : ι}
    {thread : τ} (hthread : P thread) : ∀ j, P (Function.update threads i thread j) := by
  grind

section Locks

/-- The threads inside are those that the lock names, so at most one. -/
def Guarded (lock : Option ι) (inside : ι → Bool) : Prop :=
  ∀ i, inside i = true ↔ lock = some i

variable {lock : Option ι} {inside : ι → Bool} {i : ι}

omit [DecidableEq ι] in
theorem Guarded.outside (hguarded : Guarded lock inside) (hlock : lock = none) (j : ι) :
    inside j = false := by
  rw [← Bool.not_eq_true, hguarded, hlock]
  exact fun hsome => nomatch hsome

omit [DecidableEq ι] in
theorem Guarded.other_outside (hguarded : Guarded lock inside) (hinside : inside i = true)
    {j : ι} (hne : j ≠ i) : inside j = false := by
  rw [← Bool.not_eq_true, hguarded, (hguarded i).mp hinside, Option.some.injEq]
  exact hne.symm

theorem Guarded.acquire (hguarded : Guarded lock inside) (hlock : lock = none) :
    Guarded (some i) (Function.update inside i true) := by
  intro j
  rcases eq_or_ne j i with rfl | hne
  · simp
  · rw [update_of_ne hne, hguarded.outside hlock]
    simp [hne.symm]

theorem Guarded.release (hguarded : Guarded lock inside) (hinside : inside i = true) :
    Guarded none (Function.update inside i false) := by
  intro j
  rcases eq_or_ne j i with rfl | hne
  · simp
  · rw [update_of_ne hne, hguarded.other_outside hinside hne]
    simp

theorem Guarded.keep (hguarded : Guarded lock inside) {value : Bool}
    (hsame : value = inside i) : Guarded lock (Function.update inside i value) := by
  rwa [hsame, update_eq_self]

end Locks

section Custody

variable {ρ : Type x}

/-- Every live resource is held by one thread or is in the pool once. -/
structure Custody (live : ρ → Prop) (held : ι → Option ρ) (pool : List ρ) : Prop where
  nodup : pool.Nodup
  pool_live : ∀ r ∈ pool, live r
  held_live : ∀ i r, held i = some r → live r
  exclusive : ∀ i j r, held i = some r → held j = some r → i = j
  apart : ∀ i r, held i = some r → r ∉ pool
  owned : ∀ r, live r → r ∈ pool ∨ ∃ i, held i = some r

variable {live : ρ → Prop} {held : ι → Option ρ} {pool : List ρ} {i : ι} {r : ρ}

omit [DecidableEq ι] in
theorem custody_none : Custody (fun _ : ρ => False) (fun _ : ι => none) [] := by
  constructor <;> simp

theorem held_update {next : Option ρ} {j : ι} {other : ρ}
    (hheld : Function.update held i next j = some other) :
    (j = i ∧ next = some other) ∨ (j ≠ i ∧ held j = some other) := by
  grind

omit [DecidableEq ι] in
theorem Custody.enter (hcustody : Custody live held pool) (hfresh : ¬live r) :
    Custody (fun other => other = r ∨ live other) held (r :: pool) where
  nodup := nodup_cons.mpr ⟨fun hmem => hfresh (hcustody.pool_live r hmem), hcustody.nodup⟩
  pool_live other hother := (mem_cons.mp hother).imp_right (hcustody.pool_live other)
  held_live j other hheld := .inr (hcustody.held_live j other hheld)
  exclusive := hcustody.exclusive
  apart j other hheld hmem := by
    rcases mem_cons.mp hmem with rfl | hmem
    · exact hfresh (hcustody.held_live j other hheld)
    · exact hcustody.apart j other hheld hmem
  owned other hlive := by
    rcases hlive with rfl | hlive
    · exact .inl mem_cons_self
    · exact (hcustody.owned other hlive).imp_left (mem_cons_of_mem r)

omit [DecidableEq ι] in
theorem Custody.leave (hcustody : Custody live held (pool ++ [r])) :
    Custody (fun other => other ≠ r ∧ live other) held pool where
  nodup := (nodup_append.mp hcustody.nodup).1
  pool_live other hother := by
    refine ⟨?_, hcustody.pool_live other (mem_append_left _ hother)⟩
    exact (nodup_append.mp hcustody.nodup).2.2 other hother r mem_cons_self
  held_live j other hheld := by
    refine ⟨?_, hcustody.held_live j other hheld⟩
    rintro rfl
    exact hcustody.apart j other hheld (mem_append_right pool mem_cons_self)
  exclusive := hcustody.exclusive
  apart j other hheld hmem := hcustody.apart j other hheld (mem_append_left _ hmem)
  owned other hlive := by
    refine (hcustody.owned other hlive.2).imp_left ?_
    simp [hlive.1]

theorem Custody.put (hcustody : Custody live held pool) (hheld : held i = some r) :
    Custody live (Function.update held i none) (pool ++ [r]) where
  nodup := by
    rw [nodup_append]
    refine ⟨hcustody.nodup, nodup_singleton r, ?_⟩
    rintro other hother _ hsame rfl
    obtain rfl := mem_singleton.mp hsame
    exact hcustody.apart i _ hheld hother
  pool_live other hother := by
    rcases mem_append.mp hother with hmem | hsame
    · exact hcustody.pool_live other hmem
    · obtain rfl := mem_singleton.mp hsame
      exact hcustody.held_live i _ hheld
  held_live j other hother := by
    rcases held_update hother with ⟨_, hsame⟩ | ⟨_, hold⟩
    · cases hsame
    · exact hcustody.held_live j other hold
  exclusive j k other hj hk := by
    rcases held_update hj with ⟨_, hsame⟩ | ⟨_, hold⟩
    · cases hsame
    · rcases held_update hk with ⟨_, hsame⟩ | ⟨_, hold'⟩
      · cases hsame
      · exact hcustody.exclusive j k other hold hold'
  apart j other hother := by
    rcases held_update hother with ⟨_, hsame⟩ | ⟨hne, hold⟩
    · cases hsame
    · rw [mem_append, mem_singleton]
      rintro (hmem | rfl)
      · exact hcustody.apart j other hold hmem
      · exact hne (hcustody.exclusive j i other hold hheld)
  owned other hlive := by
    rw [mem_append, mem_singleton]
    rcases hcustody.owned other hlive with hmem | ⟨j, hj⟩
    · exact .inl (.inl hmem)
    · rcases eq_or_ne j i with rfl | hne
      · rw [hheld] at hj
        exact .inl (.inr (Option.some.inj hj).symm)
      · exact .inr ⟨j, by rw [update_of_ne hne, hj]⟩

theorem Custody.take {rest : List ρ} (hcustody : Custody live held (r :: rest))
    (hnone : held i = none) : Custody live (Function.update held i (some r)) rest where
  nodup := (nodup_cons.mp hcustody.nodup).2
  pool_live other hother := hcustody.pool_live other (mem_cons_of_mem r hother)
  held_live j other hother := by
    rcases held_update hother with ⟨_, hsame⟩ | ⟨_, hold⟩
    · obtain rfl := Option.some.inj hsame
      exact hcustody.pool_live r mem_cons_self
    · exact hcustody.held_live j other hold
  exclusive j k other hj hk := by
    rcases held_update hj with ⟨rfl, hsame⟩ | ⟨_, hold⟩
    · rcases held_update hk with ⟨rfl, _⟩ | ⟨_, hold⟩
      · rfl
      · obtain rfl := Option.some.inj hsame
        exact absurd mem_cons_self (hcustody.apart k r hold)
    · rcases held_update hk with ⟨rfl, hsame⟩ | ⟨_, hold'⟩
      · obtain rfl := Option.some.inj hsame
        exact absurd mem_cons_self (hcustody.apart j r hold)
      · exact hcustody.exclusive j k other hold hold'
  apart j other hother := by
    rcases held_update hother with ⟨_, hsame⟩ | ⟨_, hold⟩
    · obtain rfl := Option.some.inj hsame
      exact (nodup_cons.mp hcustody.nodup).1
    · exact fun hmem => hcustody.apart j other hold (mem_cons_of_mem r hmem)
  owned other hlive := by
    rcases hcustody.owned other hlive with hmem | ⟨j, hj⟩
    · rcases mem_cons.mp hmem with rfl | hmem
      · exact .inr ⟨i, update_self i _ held⟩
      · exact .inl hmem
    · refine .inr ⟨j, ?_⟩
      rw [update_of_ne _, hj]
      rintro rfl
      rw [hnone] at hj
      cases hj

theorem Custody.create (hcustody : Custody live held pool) (hnone : held i = none)
    (hfresh : ¬live r) :
    Custody (fun other => other = r ∨ live other) (Function.update held i (some r)) pool :=
  (hcustody.enter hfresh).take hnone

theorem Custody.destroy (hcustody : Custody live held pool) (hheld : held i = some r) :
    Custody (fun other => other ≠ r ∧ live other) (Function.update held i none) pool :=
  (hcustody.put hheld).leave

theorem Custody.keep (hcustody : Custody live held pool) (i : ι) :
    Custody live (Function.update held i (held i)) pool := by
  rwa [update_eq_self]

end Custody

end Interleaving
