/-
Memory blocks of a fixed size that are filled from the front.  A write past the
end of its block has no result, so a program that has one kept inside its
blocks; what the block holds is described by the text it starts with.
-/
import Mathlib

namespace HeapBlock

open List

universe u

variable {α : Type u}

/-- The block after `data` has been stored at `offset`. -/
def writeAt (block : List α) (offset : Nat) (data : List α) : Option (List α) :=
  if offset + data.length ≤ block.length then
    some (block.take offset ++ data ++ block.drop (offset + data.length))
  else none

/-- The first `count` cells of the block. -/
def readFront (block : List α) (count : Nat) : Option (List α) :=
  if count ≤ block.length then some (block.take count) else none

/-- A block of `size` cells that starts with `text`. -/
structure Fills (block : List α) (size : Nat) (text : List α) : Prop where
  length_eq : block.length = size
  starts : block.take text.length = text

variable {block text extra data : List α} {size : Nat}

theorem Fills.replicate (size : Nat) (blank : α) :
    Fills (List.replicate size blank) size [] :=
  ⟨length_replicate, rfl⟩

theorem Fills.self (text : List α) : Fills text text.length text :=
  ⟨rfl, take_length⟩

theorem Fills.length_le (hblock : Fills block size text) : text.length ≤ size := by
  have hlength := congrArg List.length hblock.starts
  rw [length_take, hblock.length_eq] at hlength
  omega

theorem Fills.writeAt (hblock : Fills block size text)
    (hfits : text.length + data.length ≤ size) :
    ∃ next, writeAt block text.length data = some next ∧
      Fills next size (text ++ data) := by
  have hlength := hblock.length_eq
  refine ⟨block.take text.length ++ data ++ block.drop (text.length + data.length),
    if_pos (hlength ▸ hfits), ?_, ?_⟩
  · simp only [length_append, length_take, length_drop]
    omega
  · rw [hblock.starts, take_left]

theorem Fills.forget (hblock : Fills block size (text ++ extra)) :
    Fills block size text := by
  refine ⟨hblock.length_eq, ?_⟩
  have hstarts := congrArg (List.take text.length) hblock.starts
  rw [take_take, take_left, length_append] at hstarts
  rwa [Nat.min_eq_left (Nat.le_add_right _ _)] at hstarts

theorem Fills.readFront (hblock : Fills block size text) :
    readFront block text.length = some text := by
  rw [HeapBlock.readFront, if_pos (hblock.length_eq ▸ hblock.length_le),
    hblock.starts]

theorem Fills.eq_text (hblock : Fills block size text) (hsize : size = text.length) :
    block = text := by
  rw [← hblock.starts, take_of_length_le]
  exact (hblock.length_eq.trans hsize).le

end HeapBlock
