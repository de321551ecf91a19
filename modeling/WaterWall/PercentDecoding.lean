/-
The decoder of allocator.c, which works inside the buffer it is given.  Every escape shifts the
rest of the text to the left; the scan goes on behind the byte that the escape stood for, so
what it sees is always a suffix of the original text.
-/
import WaterWall.PercentText

namespace WaterWall

open ByteText PercentText List

/-- One nibble of `hex_to_char`; any other character counts as 0. -/
def hexNibble (c : Byte) : Byte :=
  if 48 ≤ c ∧ c ≤ 57 then c - 48
  else if 97 ≤ c ∧ c ≤ 102 then c - 97 + 10
  else if 65 ≤ c ∧ c ≤ 70 then c - 65 + 10
  else 0

def hexToChar (c1 c2 : Byte) : Byte :=
  hexNibble c1 * 16 + hexNibble c2

/-- A `char` of 128 and above is negative in the source and no digit either way. -/
def checkHex (c : Byte) : Bool :=
  (48 ≤ c && c ≤ 57) || (97 ≤ c && c ≤ 102) || (65 ≤ c && c ≤ 70)

/-- The condition of the `if`: a character is only read when the ones before it matched. -/
def escapeAt (str : Bytes) (tmp : Nat) : Option Bool := do
  if (← str[tmp]?) ≠ 37 then return false
  else if !checkHex (← str[tmp + 1]?) then return false
  else return checkHex (← str[tmp + 2]?)

/-- The inner loop: everything from `ptr` up to the NUL goes to `ptr2`. -/
def shiftText (str : Bytes) (ptr2 ptr : Nat) : Option Bytes :=
  if hptr : ptr < str.length then
    if str[ptr] = 0 then some (str.set ptr2 0)
    else shiftText (str.set ptr2 str[ptr]) (ptr2 + 1) (ptr + 1)
  else none
  termination_by str.length - ptr
  decreasing_by
    rw [length_set]
    omega

/-- The body of the loop at a character other than the NUL. -/
def decodeAt (str : Bytes) (tmp : Nat) : Option Bytes := do
  if ← escapeAt str tmp then
    let c := hexToChar (← str[tmp + 1]?) (← str[tmp + 2]?)
    shiftText (str.set tmp c) (tmp + 1) (tmp + 3)
  else return str

theorem shiftText_length {str next : Bytes} {ptr2 ptr : Nat}
    (hnext : shiftText str ptr2 ptr = some next) : next.length = str.length := by
  fun_induction shiftText str ptr2 ptr with
  | case1 str ptr2 ptr hptr hnul =>
    rw [← Option.some.inj hnext, length_set]
  | case2 str ptr2 ptr hptr hnul ih =>
    rw [ih hnext, length_set]
  | case3 => cases hnext

theorem decodeAt_length {str next : Bytes} {tmp : Nat} (hnext : decodeAt str tmp = some next) :
    next.length = str.length := by
  simp only [decodeAt, Option.bind_eq_bind, Option.bind_eq_some_iff] at hnext
  obtain ⟨found, -, hnext⟩ := hnext
  cases found with
  | false =>
    exact congrArg List.length (Option.some.inj hnext).symm
  | true =>
    simp only [if_true, Option.bind_eq_some_iff] at hnext
    grind [shiftText_length, length_set]

/-- The loop of `__httpd_parm_do`; a read behind the buffer has no result. -/
def httpdParmFrom (str : Bytes) (tmp : Nat) : Option Bytes :=
  if htmp : tmp < str.length then
    if str[tmp] = 0 then some str
    else
      match hnext : decodeAt str tmp with
      | none => none
      | some next => httpdParmFrom next (tmp + 1)
  else none
  termination_by str.length - tmp
  decreasing_by
    rw [decodeAt_length hnext]
    omega

def httpdParmDo (str : Bytes) : Option Bytes :=
  httpdParmFrom str 0

section Digits

theorem hexDigit_eq (c : Byte) :
    hexDigit c = if checkHex c then some (hexNibble c) else none := by
  simp only [hexDigit, checkHex, hexNibble, Bool.or_eq_true, Bool.and_eq_true, decide_eq_true_eq]
  split_ifs <;> first | rfl | tauto

theorem escaped_eq (high low : Byte) :
    escaped high low =
      if checkHex high ∧ checkHex low then some (hexToChar high low) else none := by
  grind [escaped, hexDigit_eq, hexToChar, UInt8.mul_comm]

end Digits

section Shift

theorem shiftText_append (front : Bytes) {gap : Bytes} (hgap : gap ≠ []) {text : Bytes}
    (hnul : (0 : Byte) ∉ text) (rest : Bytes) :
    ∃ tail, shiftText (front ++ gap ++ text ++ 0 :: rest) front.length
      (front.length + gap.length) = some (front ++ text ++ 0 :: tail) := by
  induction text generalizing front gap with
  | nil =>
    obtain ⟨first, gap, rfl⟩ := exists_cons_of_ne_nil hgap
    simp [shiftText.eq_1]
  | cons c text ih =>
    simp only [mem_cons, not_or] at hnul
    obtain ⟨tail, htail⟩ := ih (front ++ [c]) (append_ne_nil_of_right_ne_nil gap.tail
      (cons_ne_nil c [])) hnul.2
    refine ⟨tail, ?_⟩
    obtain ⟨first, gap, rfl⟩ := exists_cons_of_ne_nil hgap
    rw [shiftText, dif_pos (by simp), if_neg]
    · simpa [Nat.add_assoc, Nat.add_comm, Nat.add_left_comm] using htail
    · simpa using Ne.symm hnul.1

theorem escapeAt_append (front : Bytes) (c : Byte) (text : Bytes) :
    escapeAt (front ++ c :: text) front.length = escapeAt (c :: text) 0 := by
  simp [escapeAt, List.getElem?_append_right]

end Shift

section Scan

variable {front text rest : Bytes} {c : Byte}

theorem escapeAt_cases (c : Byte) (text rest : Bytes) :
    (∃ high low more, c = 37 ∧ text = high :: low :: more ∧
      escaped high low = some (hexToChar high low) ∧
      escapeAt (c :: (text ++ 0 :: rest)) 0 = some true) ∨
    (escapeAt (c :: (text ++ 0 :: rest)) 0 = some false ∧
      decode (c :: text) = c :: decode text) := by
  by_cases hc : c = 37
  · subst hc
    match text with
    | [] => exact .inr ⟨rfl, rfl⟩
    | [high] =>
      refine .inr ⟨?_, rfl⟩
      cases hhigh : checkHex high <;> simp [escapeAt, hhigh]
      decide
    | high :: low :: more =>
      by_cases hdigits : checkHex high ∧ checkHex low
      · simp_all [escaped_eq, escapeAt]
      · refine .inr ⟨?_, decode_percent ?_ more⟩
        · cases hhigh : checkHex high <;> simp_all [escapeAt]
        · rw [escaped_eq, if_neg hdigits]
  · exact .inr ⟨by simp [escapeAt, hc], decode_cons_of_ne hc text⟩

theorem httpdParmFrom_end (front rest : Bytes) :
    httpdParmFrom (front ++ 0 :: rest) front.length = some (front ++ 0 :: rest) := by
  rw [httpdParmFrom, dif_pos (by simp), if_pos (by simp)]

theorem httpdParmFrom_step (hc : c ≠ 0) {next : Bytes}
    (hnext : decodeAt (front ++ c :: rest) front.length = some next) :
    httpdParmFrom (front ++ c :: rest) front.length =
      httpdParmFrom next (front.length + 1) := by
  rw [httpdParmFrom, dif_pos (by simp), if_neg (by simpa using hc)]
  grind

theorem decodeAt_plain (hescape : escapeAt (c :: rest) 0 = some false) :
    decodeAt (front ++ c :: rest) front.length = some (front ++ c :: rest) := by
  rw [decodeAt, escapeAt_append, hescape]
  rfl

theorem decodeAt_escape {high low : Byte} (hnul : (0 : Byte) ∉ text)
    (hescape : escapeAt (c :: high :: low :: (text ++ 0 :: rest)) 0 = some true) :
    ∃ tail, decodeAt (front ++ c :: high :: low :: (text ++ 0 :: rest)) front.length =
      some ((front ++ [hexToChar high low]) ++ (text ++ 0 :: tail)) := by
  obtain ⟨tail, htail⟩ := shiftText_append (front ++ [hexToChar high low])
    (cons_ne_nil high [low]) hnul rest
  simp_all [decodeAt.eq_1, escapeAt_append]

theorem httpdParmFrom_append (front : Bytes) (hnul : (0 : Byte) ∉ text) (rest : Bytes) :
    ∃ tail, httpdParmFrom (front ++ (text ++ 0 :: rest)) front.length =
      some (front ++ (decode text ++ 0 :: tail)) := by
  induction hlength : text.length using Nat.strong_induction_on generalizing front text rest with
  | _ length ih =>
  cases text with
  | nil => exact ⟨rest, httpdParmFrom_end front rest⟩
  | cons c text =>
    have hc : c ≠ 0 := fun h => hnul (h ▸ mem_cons_self)
    have htext : (0 : Byte) ∉ text := fun h => hnul (mem_cons_of_mem c h)
    obtain ⟨high, low, more, rfl, rfl, hbyte, hescape⟩ | ⟨hescape, hdecode⟩ :=
      escapeAt_cases c text rest
    · have hmore : (0 : Byte) ∉ more := fun h =>
        htext (mem_cons_of_mem high (mem_cons_of_mem low h))
      obtain ⟨shifted, hshifted⟩ := @decodeAt_escape front more rest 37 high low hmore hescape
      obtain ⟨tail, htail⟩ := ih more.length (by simp at hlength; omega)
        (front ++ [hexToChar high low]) hmore shifted rfl
      simp_all [decode_escape, httpdParmFrom_step]
    · obtain ⟨tail, htail⟩ := ih text.length (by simp at hlength; omega)
        (front ++ [c]) htext rest rfl
      simp_all [httpdParmFrom_step, decodeAt_plain]

end Scan

/-- The decoder in the buffer is the single pass over the text, and it undoes every encoding. -/
theorem httpdParmDo_decodes :
    (∀ (s : CString) (rest : Bytes), ∃ tail,
      httpdParmDo (s.text ++ 0 :: rest) = some (decode s.text ++ 0 :: tail)) ∧
    ∀ (b : CString) (e rest : Bytes), Encodes e b.text → ∃ tail,
      httpdParmDo (e ++ 0 :: rest) = some (b.text ++ 0 :: tail) := by
  refine ⟨fun s rest => httpdParmFrom_append [] s.noNul rest, ?_⟩
  intro b e rest hencodes
  rw [← decode_of_encodes hencodes]
  exact httpdParmFrom_append [] (hencodes.noNul b.noNul) rest

namespace DecodeWitness

/-- The sign that an escape stands for starts no escape of its own. -/
theorem httpdParmDo_percent : ∃ tail,
    httpdParmDo (ascii "%2541%7a" ++ 0 :: []) = some (ascii "%41z" ++ 0 :: tail) :=
  httpdParmDo_decodes.2 ⟨ascii "%41z", by decide⟩ (ascii "%2541%7a") []
    (.escape rfl (.literal (by decide) (.literal (by decide) (.escape rfl .nil))))

end DecodeWitness

end WaterWall
