/-
Reading a list page by page from start positions that need not grow.  After the
page at a position the next position is anything; the walk ends when it reaches
the end of the list, and it may step over entries or go back for ever.
-/
import Mathlib

namespace PageWalk

open List

universe u v

variable {α : Type u} (next : Nat → Nat) (limit : Nat) (items : List α)

def page (start : Nat) : List α :=
  (items.drop start).take limit

/-- The entries read in at most the given number of rounds; `none` if the end is
not reached. -/
def visit : Nat → Nat → Option (List α)
  | 0, _ => none
  | rounds + 1, start =>
    if items.length ≤ start then some []
    else (visit rounds (next start)).map fun rest => page limit items start ++ rest

/-- The walk from the front reaches the end, and its pages cover the list. -/
def Covers : Prop :=
  ∃ rounds, items.length ≤ next^[rounds] 0 ∧
    (∀ round < rounds, next^[round] 0 < items.length) ∧
    ∀ i < items.length, ∃ round < rounds,
      next^[round] 0 ≤ i ∧ i < next^[round] 0 + limit

variable {next limit items}

theorem page_eq_nil_iff (hlimit : limit ≠ 0) {start : Nat} :
    page limit items start = [] ↔ items.length ≤ start := by
  rw [page, take_eq_nil_iff, or_iff_right hlimit, drop_eq_nil_iff]

theorem mem_page_iff {start : Nat} {item : α} :
    item ∈ page limit items start ↔
      ∃ i, start ≤ i ∧ i < start + limit ∧ items[i]? = some item := by
  rw [page, mem_iff_getElem?]
  constructor
  · grind
  · rintro ⟨i, hlow, hhigh, hi⟩
    refine ⟨i - start, ?_⟩
    rw [List.getElem?_take_of_lt (by omega), List.getElem?_drop,
      Nat.add_sub_cancel' hlow]
    exact hi

theorem visit_eq_some_iff {rounds start : Nat} {read : List α} :
    visit next limit items rounds start = some read ↔
      ∃ count < rounds, items.length ≤ next^[count] start ∧
        (∀ round < count, next^[round] start < items.length) ∧
        read = (List.range count).flatMap fun round =>
          page limit items (next^[round] start) := by
  induction rounds generalizing start read with
  | zero => simp [visit]
  | succ rounds ih =>
    rw [visit]
    split
    · rename_i hend
      constructor
      · intro hread
        exact ⟨0, by omega, hend, by simp, by simpa using hread.symm⟩
      · rintro ⟨count, _, _, hbefore, hread⟩
        cases count with
        | zero => simp [hread]
        | succ count => exact absurd (hbefore 0 (Nat.succ_pos count)) (not_lt.mpr hend)
    · rename_i hstart
      rw [Option.map_eq_some_iff]
      constructor
      · rintro ⟨rest, hrest, rfl⟩
        obtain ⟨count, hcount, hend, hbefore, rfl⟩ := ih.mp hrest
        refine ⟨count + 1, by omega, hend, ?_, ?_⟩
        · intro round hround
          cases round with
          | zero => exact not_le.mp hstart
          | succ round => exact hbefore round (by omega)
        · rw [range_succ_eq_map, flatMap_cons, flatMap_map]
          rfl
      · rintro ⟨count, hcount, hend, hbefore, rfl⟩
        cases count with
        | zero => exact absurd hend hstart
        | succ count =>
          refine ⟨_, ih.mpr ⟨count, by omega, hend, ?_, rfl⟩, ?_⟩
          · intro round hround
            exact hbefore (round + 1) (by omega)
          · rw [range_succ_eq_map, flatMap_cons, flatMap_map]
            rfl

theorem exists_visit_iff_covers (hnodup : items.Nodup) :
    (∃ rounds read, visit next limit items rounds 0 = some read ∧
      ∀ item ∈ items, item ∈ read) ↔ Covers next limit items := by
  have hmem : ∀ count item,
      item ∈ ((List.range count).flatMap fun round => page limit items (next^[round] 0)) ↔
        ∃ round < count, ∃ i, next^[round] 0 ≤ i ∧ i < next^[round] 0 + limit ∧
          items[i]? = some item := by
    intro count item
    simp only [mem_flatMap, mem_range, mem_page_iff]
  constructor
  · rintro ⟨rounds, read, hread, hall⟩
    obtain ⟨count, _, hend, hbefore, rfl⟩ := visit_eq_some_iff.mp hread
    refine ⟨count, hend, hbefore, fun i hi => ?_⟩
    obtain ⟨round, hround, j, hlow, hhigh, hj⟩ :=
      (hmem count items[i]).mp (hall _ (getElem_mem hi))
    have hsame : i = j := (List.getElem?_inj hi hnodup).mp
      ((List.getElem?_eq_getElem hi).trans hj.symm)
    exact ⟨round, hround, by omega, by omega⟩
  · rintro ⟨count, hend, hbefore, hcover⟩
    refine ⟨count + 1, _, visit_eq_some_iff.mpr
      ⟨count, Nat.lt_succ_self count, hend, hbefore, rfl⟩, fun item hitem => ?_⟩
    obtain ⟨i, hi, rfl⟩ := getElem_of_mem hitem
    obtain ⟨round, hround, hlow, hhigh⟩ := hcover i hi
    exact (hmem count _).mpr
      ⟨round, hround, i, hlow, hhigh, List.getElem?_eq_getElem hi⟩

theorem covers_iff_of_length_le (hlength : items.length ≤ limit)
    (hnext : ∀ start < items.length, next start = next 0) :
    Covers next limit items ↔ items = [] ∨ items.length ≤ next 0 := by
  constructor
  · rintro ⟨rounds, hend, hbefore, _⟩
    by_contra hneither
    simp only [not_or, not_le] at hneither
    have hpos := length_pos_iff.mpr hneither.1
    have hstay : ∀ round, next^[round] 0 < items.length := by
      intro round
      induction round with
      | zero => exact hpos
      | succ round ih =>
        rw [Function.iterate_succ_apply', hnext _ ih]
        exact hneither.2
    exact absurd (hstay rounds) (not_lt.mpr hend)
  · rintro (rfl | hend)
    · exact ⟨0, Nat.zero_le _, by simp, by simp⟩
    · by_cases hnil : items = []
      · exact ⟨0, by simp [hnil], by simp, by simp [hnil]⟩
      · have hpos := length_pos_iff.mpr hnil
        refine ⟨1, hend, fun round hround => ?_, fun i hi => ⟨0, Nat.one_pos, ?_, ?_⟩⟩
        · rw [Nat.lt_one_iff.mp hround]
          exact hpos
        · exact Nat.zero_le i
        · exact hi.trans_le (by simpa using hlength)

section Rank

variable {β : Type v} [LinearOrder β]

/-- The number of entries up to a bound. -/
def rank (value : α → β) (items : List α) (bound : β) : Nat :=
  items.countP fun item => decide (value item ≤ bound)

theorem filter_lt_eq_drop_rank {value : α → β} {items : List α}
    (hsorted : items.Pairwise fun left right => value left < value right) (bound : β) :
    items.filter (fun item => decide (bound < value item)) =
      items.drop (rank value items bound) := by
  induction items with
  | nil => rfl
  | cons item items ih =>
    obtain ⟨hhead, htail⟩ := pairwise_cons.mp hsorted
    by_cases hitem : value item ≤ bound
    · have hrank : rank value (item :: items) bound = rank value items bound + 1 :=
        countP_cons_of_pos (by simpa using hitem)
      rw [filter_cons_of_neg (by simpa using hitem), ih htail, hrank,
        drop_succ_cons]
    · have habove : ∀ other ∈ item :: items, bound < value other := by
        grind
      have hzero : rank value (item :: items) bound = 0 := by
        apply countP_eq_zero.mpr
        intro other hother
        simpa using habove other hother
      rw [hzero, drop_zero]
      apply filter_eq_self.mpr
      intro other hother
      simpa using habove other hother

theorem length_le_rank_iff {value : α → β} {items : List α}
    (hsorted : items.Pairwise fun left right => value left < value right) {last : α}
    (hlast : items.getLast? = some last) (bound : β) :
    items.length ≤ rank value items bound ↔ value last ≤ bound := by
  obtain ⟨front, rfl⟩ := List.getLast?_eq_some_iff.mp hlast
  rw [pairwise_append] at hsorted
  have hle : rank value (front ++ [last]) bound ≤ (front ++ [last]).length :=
    countP_le_length
  rw [show (front ++ [last]).length ≤ rank value (front ++ [last]) bound ↔
    rank value (front ++ [last]) bound = (front ++ [last]).length by omega,
    rank, countP_eq_length]
  simp only [mem_append, mem_singleton, decide_eq_true_eq]
  grind [mem_cons_self]

end Rank

end PageWalk
