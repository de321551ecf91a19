/-
Percent-encoded text: the decoder that reads an escape in the original text only, and the
relation between a text and all of its encodings, which that decoder undoes.
-/
import WaterWall.ByteText

namespace PercentText

open ByteText

/-- The value of a hexadecimal digit. -/
def hexDigit (c : Byte) : Option Byte :=
  if 48 ≤ c ∧ c ≤ 57 then some (c - 48)
  else if 97 ≤ c ∧ c ≤ 102 then some (c - 97 + 10)
  else if 65 ≤ c ∧ c ≤ 70 then some (c - 65 + 10)
  else none

/-- The byte that a percent sign with these two characters behind it stands for. -/
def escaped (high low : Byte) : Option Byte := do
  return 16 * (← hexDigit high) + (← hexDigit low)

/-- One pass from left to right; an escape is read in the original text only. -/
def decode : Bytes → Bytes
  | [] => []
  | [c] => [c]
  | [c, d] => [c, d]
  | c :: high :: low :: rest =>
    if c = 37 then
      match escaped high low with
      | some byte => byte :: decode rest
      | none => c :: decode (high :: low :: rest)
    else c :: decode (high :: low :: rest)

/-- The encodings of a text: each byte as it is, unless it is the percent sign, or escaped. -/
inductive Encodes : Bytes → Bytes → Prop
  | nil : Encodes [] []
  | literal {c : Byte} {text plain : Bytes} (hpercent : c ≠ 37) (hrest : Encodes text plain) :
      Encodes (c :: text) (c :: plain)
  | escape {high low byte : Byte} {text plain : Bytes} (hbyte : escaped high low = some byte)
      (hrest : Encodes text plain) : Encodes (37 :: high :: low :: text) (byte :: plain)

theorem hexDigit_zero : hexDigit 0 = none := by
  decide

theorem decode_cons_of_ne {c : Byte} (hc : c ≠ 37) (text : Bytes) :
    decode (c :: text) = c :: decode text := by
  match text with
  | [] => rfl
  | [d] => rfl
  | high :: low :: rest => rw [decode, if_neg hc]

theorem decode_escape {high low byte : Byte} (hbyte : escaped high low = some byte)
    (text : Bytes) : decode (37 :: high :: low :: text) = byte :: decode text := by
  rw [decode, if_pos rfl, hbyte]

theorem decode_percent {high low : Byte} (hnone : escaped high low = none) (text : Bytes) :
    decode (37 :: high :: low :: text) = 37 :: decode (high :: low :: text) := by
  rw [decode, if_pos rfl, hnone]

theorem decode_of_encodes {text plain : Bytes} (hencodes : Encodes text plain) :
    decode text = plain := by
  induction hencodes with
  | nil => rfl
  | literal hpercent _ ih => rw [decode_cons_of_ne hpercent, ih]
  | escape hbyte _ ih => rw [decode_escape hbyte, ih]

theorem digits_of_escaped {high low byte : Byte} (hbyte : escaped high low = some byte) :
    (hexDigit high).isSome ∧ (hexDigit low).isSome := by
  simp only [escaped, Option.bind_eq_bind, Option.bind_eq_some_iff] at hbyte
  grind

theorem Encodes.noNul {text plain : Bytes} (hencodes : Encodes text plain)
    (hplain : (0 : Byte) ∉ plain) : (0 : Byte) ∉ text := by
  induction hencodes with
  | nil => exact hplain
  | literal _ _ ih =>
    simp only [List.mem_cons, not_or] at hplain ⊢
    exact ⟨hplain.1, ih hplain.2⟩
  | escape hbyte _ ih =>
    obtain ⟨hhigh, hlow⟩ := digits_of_escaped hbyte
    simp only [List.mem_cons, not_or] at hplain ⊢
    grind [hexDigit_zero]

end PercentText
