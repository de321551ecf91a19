/-
Text that `snprintf` appends to a buffer of a fixed size, with the length of the text kept
as a 32-bit number.  The length counts what a text would need, so it can pass the end of
the buffer and the remaining room can wrap.
-/
import WaterWall.ByteText
import WaterWall.HeapBlock

namespace PrintBuffer

open ByteText HeapBlock List

/-- A buffer and the length that is kept for it. -/
structure Out where
  dst : Bytes
  len : Nat
  deriving DecidableEq

/-- The difference of 32-bit numbers. -/
@[irreducible]
def room (size len : Nat) : Nat :=
  (size + 2 ^ 32 - len) % 2 ^ 32

/-- `len += snprintf(dst + len, size - len, text)`.  A write past the end of the buffer has no
result; nothing is written where there is no room. -/
def append (size : Nat) (out : Out) (text : Bytes) : Option Out :=
  let len := (out.len + text.length) % 2 ^ 32
  if room size out.len = 0 then some ⟨out.dst, len⟩
  else
    (writeAt out.dst out.len (text.take (room size out.len - 1) ++ [0])).map fun dst => ⟨dst, len⟩

/-- The buffer holds a text and its NUL, and the length is that of the text. -/
structure Holds (size : Nat) (out : Out) (text : Bytes) : Prop where
  fills : Fills out.dst size (text ++ [0])
  len_eq : out.len = text.length

section Append

variable {size : Nat} {out : Out} {shown : Bytes}

theorem room_eq {len : Nat} (hlen : len ≤ size) (hsize : size < 2 ^ 32) :
    room size len = size - len := by
  rw [room]
  omega

theorem holds_blank (hsize : 0 < size) : Holds size ⟨List.replicate size 0, 0⟩ [] := by
  obtain ⟨size, rfl⟩ := Nat.exists_eq_add_of_lt hsize
  refine ⟨⟨length_replicate, ?_⟩, rfl⟩
  simp [replicate_succ]

theorem Holds.lt (hholds : Holds size out shown) : out.len < size := by
  have hlength := hholds.fills.length_le
  rw [length_append, length_singleton] at hlength
  rw [hholds.len_eq]
  omega

theorem Holds.append (hholds : Holds size out shown) (hsize : size < 2 ^ 32) (text : Bytes) :
    ∃ dst, append size out text = some ⟨dst, (out.len + text.length) % 2 ^ 32⟩ ∧
      Fills dst size (shown ++ text.take (size - 1 - shown.length) ++ [0]) := by
  have hlt := hholds.lt
  have hroom : room size out.len = size - out.len := room_eq hlt.le hsize
  have hne : room size out.len ≠ 0 := by
    omega
  have hcut : room size out.len - 1 = size - 1 - shown.length := by
    rw [hroom, hholds.len_eq]
    omega
  have hfits : shown.length + (text.take (size - 1 - shown.length) ++ [0]).length ≤ size := by
    rw [hholds.len_eq] at hlt
    simp only [length_append, length_take, length_singleton]
    omega
  obtain ⟨dst, hwrite, hfills⟩ := hholds.fills.forget.writeAt hfits
  refine ⟨dst, ?_, ?_⟩
  · rw [PrintBuffer.append, if_neg hne, hcut, hholds.len_eq, hwrite]
    rfl
  · rw [append_assoc]
    exact hfills

end Append

theorem cstr_of_fills {block text : Bytes} {size : Nat} (hfills : Fills block size (text ++ [0]))
    (hnul : (0 : Byte) ∉ text) : cstr block = text := by
  have hsplit : block = text ++ 0 :: block.drop (text.length + 1) := by
    have htake := hfills.starts
    rw [length_append, length_singleton] at htake
    grind [take_append_drop]
  rw [hsplit, cstr_append_nul hnul]

end PrintBuffer
