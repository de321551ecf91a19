/-
Byte strings ordered the way `memcmp` orders them, C strings inside larger
buffers, and decimal numerals the way `printf` writes them.  Nothing here knows
about a particular key layout or protocol.
-/
import Mathlib

namespace ByteText

open List

abbrev Byte := UInt8

abbrev Bytes := List Byte

instance : LawfulBEq Byte := inferInstance

instance byteLinearOrder : LinearOrder UInt8 where
  le_refl := UInt8.le_refl
  le_trans _ _ _ := UInt8.le_trans
  le_antisymm _ _ := UInt8.le_antisymm
  le_total := UInt8.le_total
  lt_iff_le_not_ge left right := by
    rw [UInt8.not_le]
    exact ⟨fun hlt => ⟨UInt8.le_of_lt hlt, hlt⟩, fun h => h.2⟩
  toDecidableLE := inferInstance
  toDecidableLT := inferInstance
  toDecidableEq := inferInstance

/-- The bytes of an ASCII literal. -/
def ascii (text : String) : Bytes :=
  text.toList.map fun c => UInt8.ofNat c.toNat

/-- The C string that starts at the head of a buffer. -/
def cstr (buffer : Bytes) : Bytes :=
  buffer.takeWhile fun b => b != 0

/-- A string argument: it ends at its NUL, so it holds none. -/
structure CString where
  text : Bytes
  noNul : (0 : Byte) ∉ text
  deriving DecidableEq

theorem cstr_eq_self {text : Bytes} (hnul : (0 : Byte) ∉ text) :
    cstr text = text := by
  rw [cstr, takeWhile_eq_self_iff]
  intro b hb
  simp only [bne_iff_ne, ne_eq]
  rintro rfl
  exact hnul hb

theorem cstr_append_nul {text : Bytes} (hnul : (0 : Byte) ∉ text) (rest : Bytes) :
    cstr (text ++ 0 :: rest) = text := by
  have hall : ∀ b ∈ text, (b != 0) = true := by
    intro b hb
    simp only [bne_iff_ne, ne_eq]
    rintro rfl
    exact hnul hb
  rw [cstr, takeWhile_append_of_pos hall]
  simp

section Order

variable {α : Type*} [LinearOrder α]

theorem append_lt_append_left_iff (stem left right : List α) :
    stem ++ left < stem ++ right ↔ left < right := by
  induction stem with
  | nil => simp
  | cons head stem ih => simp [ih]

theorem append_le_append_left_iff (stem left right : List α) :
    stem ++ left ≤ stem ++ right ↔ left ≤ right := by
  rw [← not_lt, append_lt_append_left_iff, not_lt]

theorem exists_suffix_of_between {stem low high key : List α}
    (hlow : stem ++ low < key) (hhigh : key ≤ stem ++ high) :
    ∃ suffix, key = stem ++ suffix := by
  induction stem generalizing key with
  | nil => exact ⟨key, rfl⟩
  | cons head stem ih =>
    cases key with
    | nil => simp at hlow
    | cons first key =>
      simp only [cons_append, cons_lt_cons_iff] at hlow
      rw [← not_lt, cons_append, cons_lt_cons_iff] at hhigh
      have hfirst : head = first := by
        grind
      simp_all

/-- Against an extended text of its own length a word compares by the text
first; a tie is decided by the extension being present. -/
theorem lt_append_iff_of_length_eq {left right : List α}
    (hlength : left.length = right.length) (tail : List α) :
    left < right ++ tail ↔ left < right ∨ (left = right ∧ tail ≠ []) := by
  induction left generalizing right with
  | nil =>
    cases right with
    | nil => cases tail <;> simp
    | cons head right => simp at hlength
  | cons head left ih =>
    cases right with
    | nil => simp at hlength
    | cons first right =>
      have htail := @ih right (by simpa using hlength)
      simp only [cons_append, cons_lt_cons_iff, htail,
        List.cons.injEq]
      tauto

theorem append_lt_append_of_lt {left right : List α} (hlength : left.length = right.length)
    (hlt : left < right) (leftTail rightTail : List α) :
    left ++ leftTail < right ++ rightTail := by
  induction left generalizing right with
  | nil =>
    rw [length_nil, eq_comm, length_eq_zero_iff] at hlength
    exact absurd hlt (hlength ▸ lt_irrefl _)
  | cons head left ih =>
    cases right with
    | nil => simp at hlength
    | cons first right =>
      rw [cons_lt_cons_iff] at hlt
      rw [cons_append, cons_append, cons_lt_cons_iff]
      grind

end Order

/-- ASCII decimal digits. -/
def IsDigit (b : Byte) : Prop :=
  48 ≤ b.toNat ∧ b.toNat ≤ 57

instance (b : Byte) : Decidable (IsDigit b) :=
  inferInstanceAs (Decidable (_ ∧ _))

def digitByte (digit : Nat) : Byte :=
  UInt8.ofNat (48 + digit)

theorem digitByte_toNat {digit : Nat} (hdigit : digit < 10) :
    (digitByte digit).toNat = 48 + digit := by
  simp only [digitByte, UInt8.toNat_ofNat']
  omega

theorem digitByte_isDigit {digit : Nat} (hdigit : digit < 10) :
    IsDigit (digitByte digit) := by
  rw [IsDigit, digitByte_toNat hdigit]
  omega

theorem digitByte_lt_iff {left right : Nat} (hleft : left < 10)
    (hright : right < 10) : digitByte left < digitByte right ↔ left < right := by
  rw [UInt8.lt_iff_toNat_lt, digitByte_toNat hleft, digitByte_toNat hright]
  omega

/-- The decimal numeral of a natural number, as `%d`, `%u` and `%llu` print
it. -/
def decimal (n : Nat) : Bytes :=
  (Nat.toDigits 10 n).map fun c => UInt8.ofNat c.toNat

theorem ofNat_digitChar {digit : Nat} (hdigit : digit < 10) :
    UInt8.ofNat (Nat.digitChar digit).toNat = digitByte digit := by
  rw [Nat.toNat_digitChar_of_lt_ten hdigit]
  rfl

theorem decimal_of_lt {n : Nat} (hn : n < 10) : decimal n = [digitByte n] := by
  rw [decimal, Nat.toDigits_of_lt_base hn, map_singleton, ofNat_digitChar hn]

theorem decimal_of_le {n : Nat} (hn : 10 ≤ n) :
    decimal n = decimal (n / 10) ++ [digitByte (n % 10)] := by
  rw [decimal, Nat.toDigits_of_base_le (by omega) hn, map_append,
    map_singleton, ofNat_digitChar (Nat.mod_lt n (by omega))]
  rfl

theorem decimal_induction {motive : Nat → Prop}
    (small : ∀ n, n < 10 → motive n)
    (extend : ∀ n, 10 ≤ n → motive (n / 10) → motive n) (n : Nat) : motive n := by
  induction n using Nat.strong_induction_on with
  | h n ih =>
    grind

theorem decimal_isDigit (n : Nat) : ∀ b ∈ decimal n, IsDigit b := by
  induction n using decimal_induction with
  | small n hn =>
    grind [decimal_of_lt, digitByte_isDigit]
  | extend n hn ih =>
    grind [decimal_of_le, digitByte_isDigit]

theorem decimal_ne_nil (n : Nat) : decimal n ≠ [] := by
  by_cases hn : n < 10
  · simp [decimal_of_lt hn]
  · simp [decimal_of_le (Nat.le_of_not_lt hn)]

theorem decimal_head_ne_zero {n : Nat} (hn : 0 < n) :
    ∃ first rest, decimal n = first :: rest ∧ first ≠ 48 ∧ IsDigit first := by
  induction n using decimal_induction with
  | small n hlt =>
    refine ⟨digitByte n, [], decimal_of_lt hlt, ?_, digitByte_isDigit hlt⟩
    intro heq
    have hnat := congrArg UInt8.toNat heq
    rw [digitByte_toNat hlt] at hnat
    change 48 + n = 48 at hnat
    omega
  | extend n hle ih =>
    grind [decimal_of_le]

theorem not_mem_decimal {b : Byte} (hb : ¬ IsDigit b) (n : Nat) :
    b ∉ decimal n :=
  fun hmem => hb (decimal_isDigit n b hmem)

/-- Positional value of a digit string. -/
def numeralValue (digits : Bytes) : Nat :=
  digits.foldl (fun value b => value * 10 + (b.toNat - 48)) 0

theorem numeralValue_concat (digits : Bytes) (b : Byte) :
    numeralValue (digits ++ [b]) = numeralValue digits * 10 + (b.toNat - 48) := by
  simp [numeralValue]

theorem numeralValue_decimal (n : Nat) : numeralValue (decimal n) = n := by
  induction n using decimal_induction with
  | small n hn =>
    rw [decimal_of_lt hn]
    grind [numeralValue, digitByte_toNat]
  | extend n hn ih =>
    rw [decimal_of_le hn, numeralValue_concat, ih,
      digitByte_toNat (Nat.mod_lt n (by omega))]
    omega

theorem decimal_injective : Function.Injective decimal := by
  intro left right heq
  rw [← numeralValue_decimal left, heq, numeralValue_decimal]

theorem takeWhile_isDigit_decimal (n : Nat) {stop : Byte} (hstop : ¬ IsDigit stop)
    (rest : Bytes) :
    (decimal n ++ stop :: rest).takeWhile (fun b => decide (IsDigit b)) =
      decimal n := by
  have hall : ∀ b ∈ decimal n, decide (IsDigit b) = true := by
    intro b hb
    simpa using decimal_isDigit n b hb
  rw [takeWhile_append_of_pos hall]
  simp [hstop]

theorem decimal_append_inj {left right : Nat} {stopLeft stopRight : Byte}
    (hstopLeft : ¬ IsDigit stopLeft) (hstopRight : ¬ IsDigit stopRight)
    {restLeft restRight : Bytes}
    (heq : decimal left ++ stopLeft :: restLeft =
      decimal right ++ stopRight :: restRight) :
    left = right ∧ stopLeft = stopRight ∧ restLeft = restRight := by
  have hleft := takeWhile_isDigit_decimal left hstopLeft restLeft
  rw [heq, takeWhile_isDigit_decimal right hstopRight restRight] at hleft
  have hnum : left = right := decimal_injective hleft.symm
  subst hnum
  simpa using heq

theorem decimal_length_pos (n : Nat) : 0 < (decimal n).length :=
  length_pos_iff.mpr (decimal_ne_nil n)

theorem decimal_length_of_range {n width : Nat} (hlow : 10 ^ width ≤ n)
    (hhigh : n < 10 ^ (width + 1)) : (decimal n).length = width + 1 := by
  induction width generalizing n with
  | zero => simp [decimal_of_lt (by simpa using hhigh)]
  | succ width ih =>
    grind [decimal_of_le]

theorem decimal_length_le {n width : Nat} (hn : n < 10 ^ (width + 1)) :
    (decimal n).length ≤ width + 1 := by
  induction width generalizing n with
  | zero => simp [decimal_of_lt (by simpa using hn)]
  | succ width ih =>
    by_cases hten : n < 10
    · simp [decimal_of_lt hten]
    · have hquot := ih (n := n / 10) (by rw [Nat.pow_succ] at hn; omega)
      rw [decimal_of_le (Nat.le_of_not_lt hten), length_append,
        length_singleton]
      omega

theorem append_singleton_lt_iff {left right : Bytes} {lastLeft lastRight : Byte}
    (hlength : left.length = right.length) :
    left ++ [lastLeft] < right ++ [lastRight] ↔
      left < right ∨ (left = right ∧ lastLeft < lastRight) := by
  induction left generalizing right with
  | nil =>
    grind [cons_lt_cons_iff]
  | cons head left ih =>
    cases right with
    | nil => simp at hlength
    | cons first right =>
      have htail := @ih right (by simpa using hlength)
      simp only [cons_append, cons_lt_cons_iff, htail,
        List.cons.injEq]
      tauto

theorem decimal_lt_iff {left right : Nat}
    (hlength : (decimal left).length = (decimal right).length) :
    decimal left < decimal right ↔ left < right := by
  induction left using decimal_induction generalizing right with
  | small left hleft =>
    have hright : right < 10 := by
      by_contra hge
      rw [decimal_of_lt hleft, decimal_of_le (Nat.le_of_not_lt hge)] at hlength
      have hpos := decimal_length_pos (right / 10)
      simp only [length_singleton, length_append] at hlength
      omega
    rw [decimal_of_lt hleft, decimal_of_lt hright]
    simpa [cons_lt_cons_iff] using digitByte_lt_iff hleft hright
  | extend left hleft ih =>
    have hright : 10 ≤ right := by
      by_contra hlt
      rw [decimal_of_le hleft, decimal_of_lt (Nat.lt_of_not_le hlt)] at hlength
      have hpos := decimal_length_pos (left / 10)
      simp only [length_singleton, length_append] at hlength
      omega
    rw [decimal_of_le hleft, decimal_of_le hright] at hlength ⊢
    have hquot : (decimal (left / 10)).length = (decimal (right / 10)).length := by
      simpa using hlength
    rw [append_singleton_lt_iff hquot, ih hquot, decimal_injective.eq_iff,
      digitByte_lt_iff (Nat.mod_lt _ (by omega)) (Nat.mod_lt _ (by omega))]
    omega

theorem decimal_lt_append_iff {left right : Nat} {tail : Bytes}
    (hlength : (decimal left).length = (decimal right).length) (htail : tail ≠ []) :
    decimal left < decimal right ++ tail ↔ left ≤ right := by
  rw [lt_append_iff_of_length_eq hlength, decimal_lt_iff hlength, decimal_injective.eq_iff]
  simp only [htail, ne_eq, not_false_eq_true, and_true]
  omega

theorem decimal_succ_of_width_ne {n : Nat}
    (hwidth : (decimal (n + 1)).length ≠ (decimal n).length) :
    (∃ rest, decimal (n + 1) = 49 :: rest) ∧ ∃ rest, decimal n = 57 :: rest := by
  induction n using decimal_induction with
  | small n hn =>
    have hnine : n = 9 := by
      by_contra hne
      rw [decimal_of_lt hn, decimal_of_lt (by omega)] at hwidth
      exact hwidth rfl
    subst hnine
    exact ⟨⟨[48], rfl⟩, ⟨[], rfl⟩⟩
  | extend n hn ih =>
    have hnext : decimal (n + 1) = decimal ((n + 1) / 10) ++ [digitByte ((n + 1) % 10)] :=
      decimal_of_le (by omega)
    rw [hnext, decimal_of_le hn] at hwidth ⊢
    have hcarry : (n + 1) / 10 = n / 10 + 1 := by
      by_contra hsame
      have hquot : (n + 1) / 10 = n / 10 := by omega
      rw [hquot] at hwidth
      simp at hwidth
    rw [hcarry] at hwidth ⊢
    obtain ⟨⟨rest, hrest⟩, ⟨rest', hrest'⟩⟩ := ih (by simpa using hwidth)
    rw [hrest, hrest']
    exact ⟨⟨_, rfl⟩, ⟨_, rfl⟩⟩

/-- The texts between a stem with `'-'` and `low` behind it, and the stem with
`'.'` behind it: nothing comes between these two bytes. -/
theorem between_dash_dot_iff {stem low key : Bytes} :
    stem ++ 45 :: low < key ∧ key ≤ stem ++ [46] ↔
      (∃ rest, key = stem ++ 45 :: rest ∧ low < rest) ∨ key = stem ++ [46] := by
  constructor
  · rintro ⟨hlow, hhigh⟩
    obtain ⟨suffix, rfl⟩ := exists_suffix_of_between hlow hhigh
    rw [append_lt_append_left_iff] at hlow
    rw [append_le_append_left_iff, ← not_lt] at hhigh
    cases suffix with
    | nil => simp at hlow
    | cons stop rest =>
      rw [cons_lt_cons_iff] at hlow hhigh
      rcases hlow with hlt | ⟨rfl, hrest⟩
      · right
        have hstop : stop = 46 := by
          have hge : ¬ (46 : Byte) < stop := fun h => hhigh (Or.inl h)
          rw [UInt8.lt_iff_toNat_lt] at hlt hge
          apply UInt8.toNat_inj.mp
          simp only [UInt8.reduceToNat] at hlt hge ⊢
          omega
        subst hstop
        cases rest with
        | nil => rfl
        | cons head rest => exact absurd (Or.inr ⟨rfl, nil_lt_cons head rest⟩) hhigh
      · exact Or.inl ⟨rest, rfl, hrest⟩
  grind [append_lt_append_left_iff, cons_lt_cons_iff, le_of_lt]

end ByteText
