/-
`atoull` and `simple_strtoul_ull` of public.c: the reader that turns the time
field of a database key back into a number.
-/
import WaterWall.ByteText

namespace WaterWall

open ByteText

/-- Value of a hexadecimal digit, as the `J_isxdigit`, `J_isdigit`,
`J_islower` and `J_toupper` table lookups give it. -/
def xdigitValue (c : Byte) : Option Nat :=
  if 48 ≤ c.toNat ∧ c.toNat ≤ 57 then some (c.toNat - 48)
  else if 65 ≤ c.toNat ∧ c.toNat ≤ 70 then some (c.toNat - 65 + 10)
  else if 97 ≤ c.toNat ∧ c.toNat ≤ 102 then some (c.toNat - 97 + 10)
  else none

def u64Size : Nat := 2 ^ 64

/-- The digit loop of `simple_strtoul_ull`.  The end of the list is the
terminating NUL. -/
def strtoulDigits (base : Nat) : Nat → Bytes → Nat
  | result, [] => result
  | result, c :: rest =>
    match xdigitValue c with
    | some value =>
      if value < base then
        strtoulDigits base ((result * base + value) % u64Size) rest
      else result
    | none => result

def simpleStrtoulUll (cp : Bytes) (base : Nat) : Nat :=
  match cp with
  | 48 :: x :: y :: rest =>
    if (x = 120 ∨ x = 88) ∧ (xdigitValue y).isSome then
      strtoulDigits 16 0 (y :: rest)
    else strtoulDigits (if base = 0 then 8 else base) 0 (x :: y :: rest)
  | 48 :: rest => strtoulDigits (if base = 0 then 8 else base) 0 rest
  | _ => strtoulDigits (if base = 0 then 10 else base) 0 cp

def atoull (buf : Bytes) : Nat :=
  if buf = [] then 0 else simpleStrtoulUll buf 0

theorem xdigitValue_of_isDigit {c : Byte} (hc : IsDigit c) :
    xdigitValue c = some (c.toNat - 48) := by
  rw [xdigitValue, if_pos (show 48 ≤ c.toNat ∧ c.toNat ≤ 57 from hc)]

theorem strtoulDigits_append (digits rest : Bytes)
    (hdigits : ∀ c ∈ digits, IsDigit c) (result : Nat) :
    strtoulDigits 10 (result % u64Size) (digits ++ rest) =
      strtoulDigits 10
        (digits.foldl (fun value b => value * 10 + (b.toNat - 48)) result %
          u64Size) rest := by
  induction digits generalizing result with
  | nil => rfl
  | cons c digits ih =>
    have hc : IsDigit c := hdigits c List.mem_cons_self
    have hsmall : c.toNat - 48 < 10 := by
      have hbound := hc.2
      omega
    have hmod : (result % u64Size * 10 + (c.toNat - 48)) % u64Size =
        (result * 10 + (c.toNat - 48)) % u64Size := by
      rw [Nat.add_mod, Nat.mod_mul_mod, ← Nat.add_mod]
    rw [List.cons_append, strtoulDigits, xdigitValue_of_isDigit hc]
    grind

/-- A text at which the digit loop stops at once: its end, or a `'-'`. -/
def StopsNumeral (rest : Bytes) : Prop :=
  rest = [] ∨ ∃ tail, rest = 45 :: tail

theorem strtoulDigits_stop {rest : Bytes} (hrest : StopsNumeral rest)
    (base result : Nat) : strtoulDigits base result rest = result := by
  rcases hrest with rfl | ⟨tail, rfl⟩
  · rfl
  · rfl

theorem atoull_decimal_append {n : Nat} (hn : n < u64Size) {rest : Bytes}
    (hrest : StopsNumeral rest) : atoull (decimal n ++ rest) = n := by
  have hne : decimal n ++ rest ≠ [] := by simp [decimal_ne_nil]
  rw [atoull, if_neg hne]
  by_cases hzero : n = 0
  · subst hzero
    have hdec : decimal 0 = [48] := rfl
    rcases hrest with rfl | ⟨tail, rfl⟩
    · rfl
    · cases tail with
      | nil => rfl
      | cons c tail => simp [hdec, simpleStrtoulUll, strtoulDigits, xdigitValue]
  · obtain ⟨first, tail, hdec, hfirst, _⟩ :=
      decimal_head_ne_zero (Nat.pos_of_ne_zero hzero)
    have hbase : simpleStrtoulUll (decimal n ++ rest) 0 =
        strtoulDigits 10 0 (decimal n ++ rest) := by
      rw [hdec, List.cons_append, simpleStrtoulUll.eq_def]
      split
      · simp_all
      · simp_all
      · rfl
    have hread := strtoulDigits_append (decimal n) rest (decimal_isDigit n) 0
    rw [Nat.zero_mod, strtoulDigits_stop hrest] at hread
    have hvalue := numeralValue_decimal n
    rw [numeralValue] at hvalue
    rw [hbase, hread, hvalue, Nat.mod_eq_of_lt hn]

/-- Reading inverts printing, at the end of a key and in front of a dash. -/
theorem atoull_decimal_suffix (n : Nat) (hn : n < 2 ^ 64) (suffix : Bytes)
    (hsuffix : suffix = [] ∨ ∃ tail, suffix = 45 :: tail) :
    atoull (decimal n ++ suffix) = n :=
  atoull_decimal_append hn hsuffix

theorem atoull_decimal_suffix_largest :
    atoull (decimal (2 ^ 64 - 1) ++ ascii "-301") = 2 ^ 64 - 1 :=
  atoull_decimal_suffix (2 ^ 64 - 1) (by decide) (ascii "-301") (Or.inr ⟨ascii "301", rfl⟩)

end WaterWall
