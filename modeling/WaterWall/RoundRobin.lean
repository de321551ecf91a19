/-
A tournament in which everyone meets everyone else once: two nested loops over the
pairs `i < j` of `0 .. n-1` that add to the score of both, and a third loop that
takes the first entry with the least score.
-/
import Mathlib.Algebra.BigOperators.Group.Finset.Piecewise
import Mathlib.Algebra.BigOperators.Group.List.Basic
import Mathlib.Order.Interval.Finset.Nat

namespace RoundRobin

open List

universe u

section Scores

variable {M : Type u} [AddCommMonoid M]

/-- Adds to one score. -/
def award (score : Nat → M) (k : Nat) (points : M) : Nat → M :=
  Function.update score k (score k + points)

/-- The meeting of `i` and `j`, which gives `(gain i j).1` to the former and `(gain i j).2`
to the latter. -/
def meet (gain : Nat → Nat → M × M) (score : Nat → M) (i j : Nat) : Nat → M :=
  award (award score i (gain i j).1) j (gain i j).2

/-- Everyone behind `i` meets `i`. -/
def playRow (gain : Nat → Nat → M × M) (n : Nat) (score : Nat → M) (i : Nat) : Nat → M :=
  (List.range' (i + 1) (n - (i + 1))).foldl (fun score j => meet gain score i j) score

def play (gain : Nat → Nat → M × M) (n : Nat) (score : Nat → M) : Nat → M :=
  (List.range n).foldl (playRow gain n) score

theorem award_apply (score : Nat → M) (i : Nat) (points : M) (k : Nat) :
    award score i points k = score k + if k = i then points else 0 := by
  by_cases hk : k = i
  · subst hk
    simp [award]
  · simp [award, hk]

theorem award_award (score : Nat → M) (i : Nat) (points more : M) :
    award (award score i points) i more = award score i (points + more) := by
  funext k
  simp only [award_apply]
  split
  · rw [add_assoc]
  · simp

theorem award_comm (score : Nat → M) (i j : Nat) (points more : M) :
    award (award score i points) j more = award (award score j more) i points := by
  funext k
  simp only [award_apply]
  rw [add_right_comm]

theorem meet_apply (gain : Nat → Nat → M × M) (score : Nat → M) (i j k : Nat) :
    meet gain score i j k = score k +
      ((if k = i then (gain i j).1 else 0) + if k = j then (gain i j).2 else 0) := by
  rw [meet, award_apply, award_apply, add_assoc]

theorem foldl_apply {step : (Nat → M) → Nat → Nat → M} {points : Nat → Nat → M}
    (hstep : ∀ score i k, step score i k = score k + points i k) (rounds : List Nat)
    (score : Nat → M) (k : Nat) :
    rounds.foldl step score k = score k + (rounds.map fun i => points i k).sum := by
  induction rounds generalizing score with
  | nil => simp
  | cons i rounds ih =>
    rw [foldl_cons, ih, hstep, map_cons, sum_cons, add_assoc]

theorem playRow_apply (gain : Nat → Nat → M × M) (n : Nat) (score : Nat → M) (i k : Nat) :
    playRow gain n score i k = score k + ∑ j ∈ Finset.Ico (i + 1) (i + 1 + (n - (i + 1))),
      ((if k = i then (gain i j).1 else 0) + if k = j then (gain i j).2 else 0) := by
  rw [playRow, foldl_apply (fun score j k => meet_apply gain score i j k),
    ← sum_toFinset _ nodup_range', toFinset_range'_1]

/-- What an entry has in the end: what it gets against the ones behind it and against the
ones before it. -/
theorem play_apply (gain : Nat → Nat → M × M) {n k : Nat} (hk : k < n) (score : Nat → M) :
    play gain n score k = score k +
      (∑ j ∈ Finset.Ico (k + 1) n, (gain k j).1 + ∑ i ∈ Finset.range k, (gain i k).2) := by
  rw [play, foldl_apply (fun score i k => playRow_apply gain n score i k),
    ← sum_toFinset _ nodup_range, toFinset_range]
  congr 1
  simp only [Finset.sum_add_distrib]
  congr 1
  · rw [Finset.sum_eq_single k]
    · simp [show k + 1 + (n - (k + 1)) = n by omega]
    · intro i _ hne
      simp [Ne.symm hne]
    · intro hout
      exact absurd (Finset.mem_range.mpr hk) hout
  · rw [← Finset.sum_subset (Finset.range_mono hk.le)]
    · refine Finset.sum_congr rfl fun i hi => ?_
      have hi := Finset.mem_range.mp hi
      rw [Finset.sum_ite_eq, if_pos (Finset.mem_Ico.mpr ⟨hi, by omega⟩)]
    · intro i _ hi
      refine Finset.sum_eq_zero fun j hj => if_neg ?_
      have hi := Finset.mem_range.not.mp hi
      have hj := Finset.mem_Ico.mp hj
      omega

end Scores

section Least

variable {S : Type u} [LinearOrder S]

/-- Takes an entry that is less than the one found so far. -/
def firstLeast (score : Nat → S) (n : Nat) : Nat :=
  (List.range n).foldl (fun found i => if score i < score found then i else found) 0

/-- The first entry with the least score. -/
structure FirstLeast (score : Nat → S) (n k : Nat) : Prop where
  lt : k < n
  le : ∀ i < n, score k ≤ score i
  before : ∀ i < k, score k < score i

theorem firstLeast_succ (score : Nat → S) (n : Nat) :
    firstLeast score (n + 1) =
      if score n < score (firstLeast score n) then n else firstLeast score n := by
  rw [firstLeast, range_succ, foldl_append]
  rfl

theorem firstLeast_spec (score : Nat → S) (n : Nat) :
    FirstLeast score (n + 1) (firstLeast score (n + 1)) := by
  induction n with
  | zero =>
    have hzero : firstLeast score 1 = 0 := by
      rw [firstLeast_succ]
      exact if_neg (lt_irrefl _)
    rw [hzero]
    refine ⟨Nat.one_pos, fun i hi => ?_, fun i hi => absurd hi (Nat.not_lt_zero i)⟩
    obtain rfl : i = 0 := by omega
    exact le_rfl
  | succ n ih =>
    rw [firstLeast_succ]
    split
    · next hless =>
        refine ⟨Nat.lt_succ_self _, fun i hi => ?_, fun i hi => hless.trans_le (ih.le i hi)⟩
        obtain hi | rfl := Nat.lt_succ_iff_lt_or_eq.mp hi
        · exact (hless.trans_le (ih.le i hi)).le
        · exact le_rfl
    · next hnot =>
        refine ⟨ih.lt.trans (Nat.lt_succ_self _), fun i hi => ?_, ih.before⟩
        obtain hi | rfl := Nat.lt_succ_iff_lt_or_eq.mp hi
        · exact ih.le i hi
        · exact not_lt.mp hnot

end Least

end RoundRobin
