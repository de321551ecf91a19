/-
Filling a block of memory that grows while it is filled.  A growth may move the block, and
then what still points into the old one must not be used; and it may ask for more than the
allocator's size type can say, and then the block is smaller than it seems.
-/
import Mathlib

namespace GrowingBlock

open List

universe u

/-- How many entries the block is taken to hold after so many growths, and how many it
really holds.  A growth is either real or of no use. -/
structure Plan where
  threshold : Nat → Nat
  room : Nat → Nat
  grows : ∀ k, threshold k < threshold (k + 1)
  start : threshold 0 ≤ room 0
  honest : ∀ k, threshold (k + 1) ≤ room (k + 1) ∨ room (k + 1) ≤ threshold k

/-- A size that starts somewhere and is doubled. -/
def doubled (first k : Nat) : Nat := first * 2 ^ k

/-- The entries that fit behind a header in what is asked for, in a size type with so many
values. -/
def roomFor (sizes header entry first k : Nat) : Nat :=
  ((header + entry * doubled first k) % sizes - header) / entry

theorem doubled_lt_succ {first : Nat} (hfirst : 0 < first) (k : Nat) :
    doubled first k < doubled first (k + 1) := by
  rw [doubled, doubled]
  simp_all [Nat.pow_lt_pow_right]

theorem doubled_le {first : Nat} {j k : Nat} (hle : j ≤ k) : doubled first j ≤ doubled first k :=
  Nat.mul_le_mul_left first (Nat.pow_le_pow_right (by decide) hle)

theorem roomFor_le {sizes entry first : Nat} (hsizes : 0 < sizes) (header k : Nat) :
    roomFor sizes header entry first k ≤ sizes / entry := by
  apply Nat.div_le_div_right
  exact (Nat.sub_le _ _).trans (Nat.mod_lt _ hsizes).le

theorem u32Sizes_pos : 0 < 2 ^ 32 := Nat.two_pow_pos 32

/-- Doubling, with the growths up to the sixteenth looked at one by one. -/
def Plan.doubling (sizes header entry first : Nat) (hfirst : 0 < first) (hsizes : 0 < sizes)
    (hlast : sizes ≤ entry * doubled first 16)
    (hstart : doubled first 0 ≤ roomFor sizes header entry first 0)
    (hhonest : ∀ k < 16, doubled first (k + 1) ≤ roomFor sizes header entry first (k + 1) ∨
      roomFor sizes header entry first (k + 1) ≤ doubled first k) : Plan where
  threshold := doubled first
  room := roomFor sizes header entry first
  grows := doubled_lt_succ hfirst
  start := hstart
  honest k := by
    rcases Nat.lt_or_ge k 16 with hsmall | hlarge
    · exact hhonest k hsmall
    · refine Or.inr ((roomFor_le hsizes header (k + 1)).trans ?_)
      exact (Nat.div_le_of_le_mul hlast).trans (doubled_le hlarge)

/-- The block that was allocated last, with its entries. -/
structure Block (α : Type u) where
  base : Nat
  grown : Nat
  cells : Nat → Option α

inductive Fault where
  | useAfterFree | outOfBounds
  deriving DecidableEq, Repr

/-- A block with the number of entries and the place for the next one, which was worked
out in the block `through`. -/
structure Filling (α : Type u) where
  block : Block α
  count : Nat
  cursor : Nat
  through : Nat

variable {α : Type u} (plan : Plan) (moves : Nat → Bool) (rebases : Bool)

def Block.enlarge (block : Block α) : Block α where
  base := if moves block.grown then block.base + 1 else block.base
  grown := block.grown + 1
  cells := block.cells

/-- The block grows if the count has passed what it is taken to hold. -/
def Filling.grow (filling : Filling α) : Filling α :=
  if plan.threshold filling.block.grown < filling.count then
    let block := filling.block.enlarge moves
    if rebases then ⟨block, filling.count, filling.count - 1, block.base⟩
    else { filling with block := block }
  else filling

def Filling.write (filling : Filling α) (item : α) : Except Fault (Filling α) :=
  if filling.through ≠ filling.block.base then .error .useAfterFree
  else if filling.cursor < plan.room filling.block.grown then
    .ok { filling with
      block := { filling.block with
        cells := Function.update filling.block.cells filling.cursor (some item) }
      cursor := filling.cursor + 1 }
  else .error .outOfBounds

def Filling.put (filling : Filling α) (item : α) : Except Fault (Filling α) :=
  (Filling.grow plan moves rebases { filling with count := filling.count + 1 }).write plan item

/-- The place for the first entry. -/
def Block.fill (block : Block α) (items : List α) : Except Fault (Filling α) :=
  items.foldlM (Filling.put plan moves rebases) ⟨block, 0, 0, block.base⟩

def Filling.entries (filling : Filling α) : List (Option α) :=
  (List.range filling.count).map filling.block.cells

/-- The growth keeps the place for the next entry valid and is real. -/
def Plan.Good (k : Nat) : Prop :=
  (rebases = true ∨ moves k = false) ∧ plan.threshold k < plan.room (k + 1)

/-- The items are in the block, and the next one goes behind them. -/
structure Filling.Holds (items : List α) (filling : Filling α) : Prop where
  count : filling.count = items.length
  cursor : filling.cursor = items.length
  through : filling.through = filling.block.base
  within : items.length ≤ plan.threshold filling.block.grown
  real : plan.threshold filling.block.grown ≤ plan.room filling.block.grown
  cells : ∀ i < items.length, filling.block.cells i = items[i]?

section Steps

variable {plan moves rebases} {items : List α} {item : α} {filling : Filling α}

theorem Plan.threshold_strictMono (plan : Plan) : StrictMono plan.threshold :=
  strictMono_nat_of_lt_succ plan.grows

theorem Filling.Holds.entries (hholds : filling.Holds plan items) :
    filling.entries = items.map some := by
  apply ext_getElem?
  intro i
  rw [Filling.entries, hholds.count, List.getElem?_map, List.getElem?_map]
  by_cases hi : i < items.length
  · rw [List.getElem?_range hi, Option.map_some, hholds.cells i hi, List.getElem?_eq_getElem hi]
    rfl
  grind

theorem Filling.write_holds {block : Block α} {count : Nat}
    (hcells : ∀ i < items.length, block.cells i = items[i]?)
    (hcount : count = items.length + 1) (hwithin : count ≤ plan.threshold block.grown)
    (hreal : plan.threshold block.grown ≤ plan.room block.grown) :
    ∃ next : Filling α,
      Filling.write plan ⟨block, count, items.length, block.base⟩ item = .ok next ∧
        next.Holds plan (items ++ [item]) ∧ next.block.grown = block.grown := by
  have hroom : items.length < plan.room block.grown := by omega
  refine ⟨⟨{ block with cells := Function.update block.cells items.length (some item) }, count,
    items.length + 1, block.base⟩, ?_, ?_, rfl⟩
  · exact (if_neg (not_not.mpr rfl)).trans (if_pos hroom)
  · constructor
    · simpa using hcount
    · simp
    · rfl
    · simpa [hcount] using hwithin
    · exact hreal
    grind

theorem Filling.Holds.eq_mk (hholds : filling.Holds plan items) :
    filling = ⟨filling.block, items.length, items.length, filling.block.base⟩ := by
  obtain ⟨hcount, hcursor, hthrough, _, _, _⟩ := hholds
  cases filling with
  | mk block count cursor through =>
    change through = block.base at hthrough
    subst hcount hcursor hthrough
    rfl

theorem Filling.put_eq (block : Block α) (count : Nat) (item : α) :
    Filling.put plan moves rebases ⟨block, count, count, block.base⟩ item =
      if plan.threshold block.grown < count + 1 then
        Filling.write plan ⟨block.enlarge moves, count + 1, count,
          if rebases then (block.enlarge moves).base else block.base⟩ item
      else Filling.write plan ⟨block, count + 1, count, block.base⟩ item := by
  rw [Filling.put]
  change Filling.write plan (if plan.threshold block.grown < count + 1 then
      if rebases then ⟨block.enlarge moves, count + 1, count, (block.enlarge moves).base⟩
      else ⟨block.enlarge moves, count + 1, count, block.base⟩
    else ⟨block, count + 1, count, block.base⟩) item = _
  split
  · cases rebases <;> rfl
  · rfl

theorem Filling.Holds.put_within (hholds : filling.Holds plan items)
    (hroom : items.length < plan.threshold filling.block.grown) (item : α) :
    ∃ next : Filling α, filling.put plan moves rebases item = .ok next ∧
      next.Holds plan (items ++ [item]) ∧ next.block.grown = filling.block.grown := by
  rw [hholds.eq_mk, Filling.put_eq, if_neg (by omega)]
  exact Filling.write_holds hholds.cells rfl hroom hholds.real

theorem Filling.Holds.put_good (hholds : filling.Holds plan items)
    (hfull : items.length = plan.threshold filling.block.grown)
    (hgood : plan.Good moves rebases filling.block.grown) (item : α) :
    ∃ next : Filling α, filling.put plan moves rebases item = .ok next ∧
      next.Holds plan (items ++ [item]) ∧ next.block.grown = filling.block.grown + 1 := by
  obtain ⟨hvalid, hroom⟩ := hgood
  have hthrough : (if rebases then (filling.block.enlarge moves).base else filling.block.base) =
      (filling.block.enlarge moves).base := by
    rcases hvalid with htrue | hstays
    · rw [if_pos htrue]
    · rw [Block.enlarge, hstays]
      exact ite_self _
  have hreal : plan.threshold (filling.block.grown + 1) ≤ plan.room (filling.block.grown + 1) := by
    rcases plan.honest filling.block.grown with hreal | hshort
    · exact hreal
    · omega
  have hwithin : items.length + 1 ≤ plan.threshold (filling.block.grown + 1) := by
    rw [hfull]
    exact plan.grows filling.block.grown
  rw [hholds.eq_mk, Filling.put_eq, if_pos (by omega), hthrough]
  exact @Filling.write_holds _ _ items item (filling.block.enlarge moves) _ hholds.cells rfl
    hwithin hreal

theorem Filling.Holds.put_bad (hholds : filling.Holds plan items)
    (hfull : items.length = plan.threshold filling.block.grown)
    (hbad : ¬plan.Good moves rebases filling.block.grown) (item : α) :
    ∃ fault, filling.put plan moves rebases item = .error fault := by
  rw [hholds.eq_mk, Filling.put_eq, if_pos (by omega)]
  by_cases hthrough : (if rebases then (filling.block.enlarge moves).base
      else filling.block.base) = (filling.block.enlarge moves).base
  · have hshort : ¬items.length < plan.room (filling.block.grown + 1) := by
      rw [hfull]
      intro hroom
      refine hbad ⟨?_, hroom⟩
      by_cases htrue : rebases = true
      · exact Or.inl htrue
      · rw [if_neg htrue, Block.enlarge] at hthrough
        grind
    refine ⟨.outOfBounds, ?_⟩
    rw [hthrough]
    exact (if_neg (not_not.mpr rfl)).trans (if_neg hshort)
  · exact ⟨.useAfterFree, if_pos hthrough⟩

end Steps

section Runs

variable {plan moves rebases} {front rest : List α} {filling : Filling α}

theorem Filling.Holds.run (hholds : filling.Holds plan front)
    (hgood : ∀ k, filling.block.grown ≤ k → plan.threshold k < (front ++ rest).length →
      plan.Good moves rebases k) :
    ∃ final : Filling α, rest.foldlM (Filling.put plan moves rebases) filling = .ok final ∧
      final.Holds plan (front ++ rest) ∧ filling.block.grown ≤ final.block.grown ∧
      ∀ k, filling.block.grown ≤ k → k < final.block.grown →
        plan.threshold k < (front ++ rest).length := by
  induction rest generalizing front filling with
  | nil =>
    rw [append_nil]
    exact ⟨filling, rfl, hholds, le_rfl, fun k hlow hhigh => absurd hlow (not_le.mpr hhigh)⟩
  | cons item rest ih =>
    have hsplit : front ++ item :: rest = (front ++ [item]) ++ rest := by
      rw [append_assoc, singleton_append]
    rcases Nat.lt_or_ge front.length (plan.threshold filling.block.grown) with hroom | hfull
    · obtain ⟨next, hput, hnext, hgrown⟩ :=
        @Filling.Holds.put_within _ _ moves rebases _ _ hholds hroom item
      obtain ⟨final, hrun, hfinal, hlater, hneeded⟩ := ih hnext (by rwa [← hsplit, hgrown])
      rw [hgrown] at hlater hneeded
      rw [foldlM_cons, hput, hsplit]
      exact ⟨final, hrun, hfinal, hlater, hneeded⟩
    · have hexact := Nat.le_antisymm hholds.within hfull
      have hneed : plan.threshold filling.block.grown < (front ++ item :: rest).length := by
        rw [← hexact, length_append, length_cons]
        omega
      obtain ⟨next, hput, hnext, hgrown⟩ :=
        hholds.put_good hexact (hgood _ le_rfl hneed) item
      obtain ⟨final, hrun, hfinal, hlater, hneeded⟩ := ih hnext (by
        intro k hlow
        rw [← hsplit]
        exact hgood k (by omega))
      rw [foldlM_cons, hput]
      refine ⟨final, hrun, by rwa [hsplit], by omega, ?_⟩
      grind

theorem Filling.Holds.run_bad (hholds : filling.Holds plan front)
    (hbad : ∃ k, filling.block.grown ≤ k ∧ plan.threshold k < (front ++ rest).length ∧
      ¬plan.Good moves rebases k) :
    ∃ fault, rest.foldlM (Filling.put plan moves rebases) filling = .error fault := by
  obtain ⟨k, hlow, hneed, hbad⟩ := hbad
  induction rest generalizing front filling with
  | nil =>
    have hmono := plan.threshold_strictMono.monotone hlow
    have hwithin := hholds.within
    rw [append_nil] at hneed
    omega
  | cons item rest ih =>
    have hsplit : front ++ item :: rest = (front ++ [item]) ++ rest := by
      rw [append_assoc, singleton_append]
    rw [hsplit] at hneed
    rcases Nat.lt_or_ge front.length (plan.threshold filling.block.grown) with hroom | hfull
    · obtain ⟨next, hput, hnext, hgrown⟩ :=
        @Filling.Holds.put_within _ _ moves rebases _ _ hholds hroom item
      obtain ⟨fault, hrun⟩ := ih hnext (by omega) hneed
      rw [foldlM_cons, hput]
      exact ⟨fault, hrun⟩
    · have hexact := Nat.le_antisymm hholds.within hfull
      by_cases hgood : plan.Good moves rebases filling.block.grown
      · obtain ⟨next, hput, hnext, hgrown⟩ := hholds.put_good hexact hgood item
        have hne : filling.block.grown ≠ k := by
          rintro rfl
          exact hbad hgood
        obtain ⟨fault, hrun⟩ := ih hnext (by omega) hneed
        rw [foldlM_cons, hput]
        exact ⟨fault, hrun⟩
      · obtain ⟨fault, hput⟩ := hholds.put_bad hexact hgood item
        rw [foldlM_cons, hput]
        exact ⟨fault, rfl⟩

theorem Block.start_holds {block : Block α}
    (hreal : plan.threshold block.grown ≤ plan.room block.grown) :
    Filling.Holds plan [] ⟨block, 0, 0, block.base⟩ where
  count := rfl
  cursor := rfl
  through := rfl
  within := Nat.zero_le _
  real := hreal
  cells _ hi := absurd hi (Nat.not_lt_zero _)

theorem Block.fill_ok {block : Block α} {items : List α}
    (hreal : plan.threshold block.grown ≤ plan.room block.grown)
    (hgood : ∀ k, block.grown ≤ k → plan.threshold k < items.length →
      plan.Good moves rebases k) :
    ∃ final : Filling α, block.fill plan moves rebases items = .ok final ∧
      final.Holds plan items ∧ block.grown ≤ final.block.grown ∧
      ∀ k, block.grown ≤ k → k < final.block.grown → plan.threshold k < items.length :=
  (Block.start_holds hreal).run hgood

theorem Block.fill_bad {block : Block α} {items : List α}
    (hreal : plan.threshold block.grown ≤ plan.room block.grown)
    (hbad : ∃ k, block.grown ≤ k ∧ plan.threshold k < items.length ∧
      ¬plan.Good moves rebases k) :
    ∃ fault, block.fill plan moves rebases items = .error fault :=
  (Block.start_holds hreal).run_bad hbad

end Runs

end GrowingBlock
