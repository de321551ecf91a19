/-
The parser of cJSON.c on memory that may end anywhere.  A pointer is the rest of its block; a
read behind the block, a write behind the text buffer and the use of a variable that was never
set are undefined.  A null pointer is what a parser that gives up returns.  The state is the list
of answers that the allocations still get; when it has run out, they succeed.
-/
import WaterWall.ByteText
import WaterWall.Reading

namespace WaterWall

namespace CJson

open ByteText Reading

/-- A node; `valuestring` is set in a string only.  The values of numbers are not read. -/
inductive Value where
  | null
  | no
  | yes
  | number
  | string (valuestring : CString)
  | array (items : List Value)
  | object (members : List (CString × Value))

abbrev Parser := Reading (List Bool)

/-- `cJSON_New_Item` or the text of `parse_string`; without memory every caller gives up. -/
def malloc : Parser Unit := fun answers =>
  match answers with
  | [] => some (some ((), []))
  | true :: answers => some (some ((), answers))
  | false :: _ => some none

def skip : Bytes → Parser Bytes
  | [] => undefined
  | c :: rest => if c ≠ 0 ∧ c ≤ 32 then skip rest else pure (c :: rest)

/-- `strncmp` with a literal and its length. -/
def startsWith : Bytes → Bytes → Parser Bool
  | [], _ => pure true
  | _ :: _, [] => undefined
  | c :: literal, b :: rest => if b = c then startsWith literal rest else pure false

/-- `if (*num == …) num++`. -/
def eat (accepts : Byte → Bool) : Bytes → Parser Bytes
  | [] => undefined
  | c :: rest => pure (if accepts c then rest else c :: rest)

def eatDigits : Bytes → Parser Bytes
  | [] => undefined
  | c :: rest => if IsDigit c then eatDigits rest else pure (c :: rest)

/-- The integer digits: none, a zero, or a number that does not start with one. -/
def parseInteger (num : Bytes) : Parser Bytes := do
  let num ← eat (fun c => c = 48) num
  match num with
  | [] => undefined
  | c :: _ => if 49 ≤ c ∧ c ≤ 57 then eatDigits num else pure num

def parseFraction : Bytes → Parser Bytes
  | [] => undefined
  | c :: rest =>
    if c = 46 then
      match rest with
      | [] => undefined
      | d :: _ => if IsDigit d then eatDigits rest else pure (c :: rest)
    else pure (c :: rest)

def parseExponent : Bytes → Parser Bytes
  | [] => undefined
  | c :: rest =>
    if c = 101 ∨ c = 69 then do
      eatDigits (← eat (fun sign => sign = 43 ∨ sign = 45) rest)
    else pure (c :: rest)

/-- `parse_number`, without the value. -/
def parseNumber (num : Bytes) : Parser Bytes := do
  let num ← eat (fun c => c = 45) num
  let num ← parseInteger num
  let num ← parseFraction num
  parseExponent num

/-- The first loop of `parse_string`: an escaped character counts as one. -/
def stringLength : Bytes → Parser Nat
  | [] => undefined
  | c :: rest =>
    if c = 34 ∨ c = 0 then pure 0
    else if c = 92 then
      match rest with
      | [] => undefined
      | _ :: rest => do return (← stringLength rest) + 1
    else do return (← stringLength rest) + 1

section Scan

def scanBlanks : Bytes → Parser Bytes
  | [] => undefined
  | c :: rest => if c = 32 ∨ (9 ≤ c ∧ c ≤ 13) then scanBlanks rest else pure (c :: rest)

/-- Up to `width` hexadecimal digits: how many there are, and the value with them. -/
def scanDigits : Nat → UInt32 → Bytes → Parser (Nat × UInt32)
  | 0, value, _ => pure (0, value)
  | _ + 1, _, [] => undefined
  | width + 1, value, c :: rest =>
    if 48 ≤ c ∧ c ≤ 57 then count (scanDigits width (value * 16 + (c - 48).toUInt32) rest)
    else if 97 ≤ c ∧ c ≤ 102 then
      count (scanDigits width (value * 16 + (c - 97 + 10).toUInt32) rest)
    else if 65 ≤ c ∧ c ≤ 70 then
      count (scanDigits width (value * 16 + (c - 65 + 10).toUInt32) rest)
    else pure (0, value)
where
  count (digits : Parser (Nat × UInt32)) : Parser (Nat × UInt32) := do
    let (found, value) ← digits
    return (found + 1, value)

/-- An optional `0x`, of which the zero alone makes a number: whether it was there, and what is
left of the width and of the text. -/
def scanBase (width : Nat) : Bytes → Parser (Bool × Nat × Bytes)
  | [] => undefined
  | c :: rest =>
    if c = 48 then
      match rest with
      | [] => undefined
      | x :: more =>
        pure (if x = 120 ∨ x = 88 then (true, width - 2, more) else (true, width - 1, rest))
    else pure (false, width, c :: rest)

/-- `sscanf(text, "%4x", …)`; nothing is stored when no digit is found. -/
def scanHex (text : Bytes) : Parser (Option UInt32) := do
  match ← scanBlanks text with
  | [] => undefined
  | sign :: rest =>
    let signed := sign = 43 ∨ sign = 45
    let (zero, width, digits) ←
      scanBase (if signed then 3 else 4) (if signed then rest else sign :: rest)
    let (found, value) ← scanDigits width 0 digits
    return if zero ∨ 0 < found then some (if sign = 45 then 0 - value else value) else none

end Scan

section Text

/-- A continuation byte. -/
def tailByte (uc : UInt32) : Byte :=
  ((uc ||| 0x80) &&& 0xBF).toUInt8

/-- The bytes of a code point, and what the shifts leave in its variable. -/
def encodeUtf8 (uc : UInt32) : Bytes × UInt32 :=
  if uc < 0x80 then ([uc.toUInt8], uc)
  else if uc < 0x800 then ([((uc >>> 6) ||| 0xC0).toUInt8, tailByte uc], uc >>> 6)
  else if uc < 0x10000 then
    ([((uc >>> 12) ||| 0xE0).toUInt8, tailByte (uc >>> 6), tailByte uc], uc >>> 12)
  else
    ([((uc >>> 18) ||| 0xF0).toUInt8, tailByte (uc >>> 12), tailByte (uc >>> 6), tailByte uc],
      uc >>> 18)

/-- The variables `uc` and `uc2`, which keep their values from one escape to the next. -/
structure Scanned where
  uc : Option UInt32
  uc2 : Option UInt32

/-- What an escape writes, how many more bytes it takes, and the variables behind it. -/
structure Escape where
  written : Bytes
  taken : Nat
  scanned : Scanned

/-- The second half of a surrogate pair, from the bytes behind the first half on. -/
def escapePair (uc : UInt32) (uc2 : Option UInt32) : Bytes → Parser Escape
  | [] => undefined
  | c :: rest =>
    if c ≠ 92 then pure ⟨[], 4, some uc, uc2⟩
    else
      match rest with
      | [] => undefined
      | d :: rest =>
        if d ≠ 117 then pure ⟨[], 4, some uc, uc2⟩
        else do
          match (← scanHex rest) <|> uc2 with
          | none => undefined
          | some low =>
            if low < 0xDC00 ∨ 0xDFFF < low then return ⟨[], 10, some uc, some low⟩
            else
              let both := (0x10000 : UInt32) ||| ((uc &&& 0x3FF) <<< 10) ||| (low &&& 0x3FF)
              let (written, uc) := encodeUtf8 both
              return ⟨written, 10, some uc, some low⟩

/-- The escape `\u` with the given text behind it. -/
def escapeUnicode (scanned : Scanned) (text : Bytes) : Parser Escape := do
  match (← scanHex text) <|> scanned.uc with
  | none => undefined
  | some uc =>
    if (0xDC00 ≤ uc ∧ uc ≤ 0xDFFF) ∨ uc = 0 then
      return ⟨[], 4, some uc, scanned.uc2⟩
    else if 0xD800 ≤ uc ∧ uc ≤ 0xDBFF then
      escapePair uc scanned.uc2 (text.drop 4)
    else
      let (written, uc) := encodeUtf8 uc
      return ⟨written, 4, some uc, scanned.uc2⟩

/-- What stands for the character behind a backslash. -/
def unescape (c : Byte) : Byte :=
  if c = 98 then 8
  else if c = 102 then 12
  else if c = 110 then 10
  else if c = 114 then 13
  else if c = 116 then 9
  else c

/-- The second loop of `parse_string`, which still has to step over some bytes of an escape:
what it writes, and the pointer behind the loop. -/
def stringBody : Nat → Scanned → Bytes → Parser (Bytes × Bytes)
  | _, _, [] => undefined
  | taken + 1, scanned, _ :: rest => stringBody taken scanned rest
  | 0, scanned, c :: rest =>
    if c = 34 ∨ c = 0 then pure ([], c :: rest)
    else if c = 92 then
      match rest with
      | [] => undefined
      | d :: rest =>
        if d = 117 then do
          let escape ← escapeUnicode scanned rest
          let (written, last) ← stringBody escape.taken escape.scanned rest
          return (escape.written ++ written, last)
        else do
          let (written, last) ← stringBody 0 scanned rest
          return (unescape d :: written, last)
    else do
      let (written, last) ← stringBody 0 scanned rest
      return (c :: written, last)

/-- The string that a buffer holds. -/
def CString.ofBuffer (buffer : Bytes) : CString where
  text := cstr buffer
  noNul := by
    intro hmem
    have hne := List.mem_takeWhile_imp hmem
    simp at hne

/-- `parse_string`; the buffer has `len` bytes and one for the NUL. -/
def parseString : Bytes → Parser (CString × Bytes)
  | [] => undefined
  | c :: rest =>
    if c ≠ 34 then giveUp
    else do
      let len ← stringLength rest
      malloc
      let (out, last) ← stringBody 0 ⟨none, none⟩ rest
      if len < out.length then undefined
      else return (CString.ofBuffer out, ← eat (fun b => b = 34) last)

end Text

mutual

def parseValue : Nat → Bytes → Parser (Value × Bytes)
  | 0, _ => undefined
  | fuel + 1, value => do
      if ← startsWith (ascii "null") value then return (.null, value.drop 4)
      else if ← startsWith (ascii "false") value then return (.no, value.drop 5)
      else if ← startsWith (ascii "true") value then return (.yes, value.drop 4)
      else
        match value with
        | [] => undefined
        | c :: rest =>
          if c = 34 then
            let (valuestring, rest) ← parseString (c :: rest)
            return (.string valuestring, rest)
          else if c = 45 ∨ IsDigit c then return (.number, ← parseNumber (c :: rest))
          else if c = 91 then parseArray fuel rest
          else if c = 123 then parseObject fuel rest
          else giveUp

/-- `parse_array` behind the bracket. -/
def parseArray : Nat → Bytes → Parser (Value × Bytes)
  | 0, _ => undefined
  | fuel + 1, value => do
      match ← skip value with
      | [] => undefined
      | c :: rest =>
        if c = 93 then return (.array [], rest)
        else
          let (items, rest) ← parseItems fuel (c :: rest)
          return (.array items, rest)

/-- An item with its node, and the rest of the loop of `parse_array`. -/
def parseItems : Nat → Bytes → Parser (List Value × Bytes)
  | 0, _ => undefined
  | fuel + 1, value => do
      malloc
      let (item, value) ← parseValue fuel (← skip value)
      match ← skip value with
      | [] => undefined
      | c :: rest =>
        if c = 44 then
          let (items, rest) ← parseItems fuel rest
          return (item :: items, rest)
        else if c = 93 then return ([item], rest)
        else giveUp

/-- `parse_object` behind the brace. -/
def parseObject : Nat → Bytes → Parser (Value × Bytes)
  | 0, _ => undefined
  | fuel + 1, value => do
      match ← skip value with
      | [] => undefined
      | c :: rest =>
        if c = 125 then return (.object [], rest)
        else
          let (members, rest) ← parseMembers fuel (c :: rest)
          return (.object members, rest)

/-- A member with its node, and the rest of the loop of `parse_object`. -/
def parseMembers : Nat → Bytes → Parser (List (CString × Value) × Bytes)
  | 0, _ => undefined
  | fuel + 1, value => do
      malloc
      let (key, value) ← parseString (← skip value)
      match ← skip value with
      | [] => undefined
      | c :: rest =>
        if c ≠ 58 then giveUp
        else
          let (item, value) ← parseValue fuel (← skip rest)
          match ← skip value with
          | [] => undefined
          | c :: rest =>
            if c = 44 then
              let (members, rest) ← parseMembers fuel rest
              return ((key, item) :: members, rest)
            else if c = 125 then return ([(key, item)], rest)
            else giveUp

end

/-- A value inside another costs three calls and takes a byte, so this many calls are enough. -/
def enough (text : Bytes) : Nat :=
  3 * text.length + 1

def cJSONParse (value : Bytes) : Parser Value := do
  malloc
  let value ← skip value
  let (root, _) ← parseValue (enough value) value
  return root

section Enough

variable {text : Bytes}

theorem skip_ensures (text : Bytes) :
    Ensures (skip text) fun rest => rest.length ≤ text.length := by
  induction text with
  | nil => exact .undefined
  | cons c text ih =>
    refine .ite (fun _ => ih.mono fun rest hrest => hrest.trans ?_) fun _ => .pure le_rfl
    exact Nat.le_succ _

theorem eat_ensures (accepts : Byte → Bool) (text : Bytes) :
    Ensures (eat accepts text) fun rest => rest.length ≤ text.length := by
  cases text with
  | nil => exact .undefined
  | cons c text =>
    refine .pure ?_
    split
    · exact Nat.le_succ _
    · exact le_rfl

theorem eatDigits_ensures (text : Bytes) :
    Ensures (eatDigits text) fun rest => rest.length ≤ text.length := by
  induction text with
  | nil => exact .undefined
  | cons c text ih =>
    refine .ite (fun _ => ih.mono fun rest hrest => hrest.trans ?_) fun _ => .pure le_rfl
    exact Nat.le_succ _

theorem eatDigits_digit {c : Byte} (hc : IsDigit c) (text : Bytes) :
    Ensures (eatDigits (c :: text)) fun rest => rest.length ≤ text.length := by
  rw [eatDigits, if_pos hc]
  exact eatDigits_ensures text

theorem parseFraction_ensures (text : Bytes) :
    Ensures (parseFraction text) fun rest => rest.length ≤ text.length := by
  match text with
  | [] => exact .undefined
  | [c] => exact .ite (fun _ => .undefined) fun _ => .pure le_rfl
  | c :: d :: rest =>
    refine .ite (fun _ => .ite (fun _ => ?_) fun _ => .pure le_rfl) fun _ => .pure le_rfl
    exact (eatDigits_ensures _).mono fun last hlast => hlast.trans (Nat.le_succ _)

theorem parseExponent_ensures (text : Bytes) :
    Ensures (parseExponent text) fun rest => rest.length ≤ text.length := by
  cases text with
  | nil => exact .undefined
  | cons c text =>
    refine .ite (fun _ => (eat_ensures _ text).bind fun rest hrest => ?_) fun _ => .pure le_rfl
    exact (eatDigits_ensures rest).mono fun last hlast =>
      (hlast.trans hrest).trans (Nat.le_succ _)

theorem parseInteger_ensures (text : Bytes) :
    Ensures (parseInteger text) fun rest => rest.length ≤ text.length := by
  refine (eat_ensures _ text).bind fun rest hrest => ?_
  cases rest with
  | nil => exact .undefined
  | cons c rest =>
    exact .ite (fun _ => (eatDigits_ensures _).mono fun last hlast => hlast.trans hrest)
      fun _ => .pure hrest

theorem parseInteger_digit {c : Byte} (hc : IsDigit c) (text : Bytes) :
    Ensures (parseInteger (c :: text)) fun rest => rest.length ≤ text.length := by
  have heat : Ensures (eat (fun c => c = 48) (c :: text)) fun rest =>
      rest = text ∨ (c ≠ 48 ∧ rest = c :: text) := by
    refine .pure ?_
    by_cases hzero : c = 48
    · exact .inl (if_pos (decide_eq_true hzero))
    · exact .inr ⟨hzero, if_neg (by simpa using hzero)⟩
  refine heat.bind fun rest hrest => ?_
  obtain rfl | ⟨hzero, rfl⟩ := hrest
  · cases rest with
    | nil => exact .undefined
    | cons d rest => exact .ite (fun _ => eatDigits_ensures _) fun _ => .pure le_rfl
  · refine .ite (fun _ => eatDigits_digit hc text) fun hnot => absurd ?_ hnot
    have hfirst : (c.toNat : Nat) ≠ 48 := fun h => hzero (UInt8.toNat_inj.mp h)
    have hdigit : 48 ≤ c.toNat ∧ c.toNat ≤ 57 := hc
    rw [UInt8.le_iff_toNat_le, UInt8.le_iff_toNat_le]
    exact ⟨by change 49 ≤ _; omega, hdigit.2⟩

theorem parseNumber_ensures {c : Byte} (hc : c = 45 ∨ IsDigit c) (text : Bytes) :
    Ensures (parseNumber (c :: text)) fun rest => rest.length ≤ text.length := by
  have heat : Ensures (eat (fun c => c = 45) (c :: text)) fun rest =>
      rest = text ∨ (IsDigit c ∧ rest = c :: text) := by
    refine .pure ?_
    by_cases hsign : c = 45
    · exact .inl (if_pos (decide_eq_true hsign))
    · exact .inr ⟨hc.resolve_left hsign, if_neg (by simpa using hsign)⟩
  refine heat.bind fun rest hrest => ?_
  have hinteger : Ensures (parseInteger rest) fun last => last.length ≤ text.length := by
    grind [parseInteger_ensures, parseInteger_digit]
  refine hinteger.bind fun rest hrest => ?_
  refine (parseFraction_ensures rest).bind fun next hnext => ?_
  exact (parseExponent_ensures next).mono fun last hlast => (hlast.trans hnext).trans hrest

theorem stringBody_ensures (taken : Nat) (scanned : Scanned) (text : Bytes) :
    Ensures (stringBody taken scanned text) fun result => result.2.length ≤ text.length := by
  fun_induction stringBody taken scanned text with
  | case1 => exact .undefined
  | case2 taken scanned c rest ih => exact ih.mono fun _ hlast => hlast.trans (Nat.le_succ _)
  | case3 => exact .pure le_rfl
  | case4 => exact .undefined
  | case5 scanned rest _ ih =>
    refine (Ensures.trivial _).bind fun escape _ => (ih escape).bind fun result hlast => ?_
    exact .pure (hlast.trans ((Nat.le_succ _).trans (Nat.le_succ _)))
  | case6 scanned d rest _ _ ih =>
    refine ih.bind fun result hlast => ?_
    exact .pure (hlast.trans ((Nat.le_succ _).trans (Nat.le_succ _)))
  | case7 scanned c rest _ _ ih =>
    refine ih.bind fun result hlast => ?_
    exact .pure (hlast.trans (Nat.le_succ _))

theorem parseString_ensures (text : Bytes) :
    Ensures (parseString text) fun result => result.2.length < text.length := by
  cases text with
  | nil => exact .undefined
  | cons c rest =>
    refine .ite (fun _ => .giveUp) fun _ => ?_
    refine (Ensures.trivial _).bind fun len _ => (Ensures.trivial _).bind fun _ _ => ?_
    refine (stringBody_ensures 0 ⟨none, none⟩ rest).bind fun result hlast => ?_
    refine .ite (fun _ => .undefined) fun _ => ?_
    refine (eat_ensures _ result.2).bind fun last heat => .pure ?_
    exact Nat.lt_succ_of_le (heat.trans hlast)

/-- What a call of each parser leaves, given as much for calls with less fuel. -/
structure Takes (fuel : Nat) : Prop where
  value (text : Bytes) :
    Ensures (parseValue fuel text) fun result => result.2.length < text.length
  array (text : Bytes) :
    Ensures (parseArray fuel text) fun result => result.2.length < text.length
  items (text : Bytes) :
    Ensures (parseItems fuel text) fun result => result.2.length < text.length
  object (text : Bytes) :
    Ensures (parseObject fuel text) fun result => result.2.length < text.length
  members (text : Bytes) :
    Ensures (parseMembers fuel text) fun result => result.2.length < text.length

theorem startsWith_ensures (literal text : Bytes) :
    Ensures (startsWith literal text) fun found =>
      found → literal.length ≤ text.length := by
  fun_induction startsWith literal text with
  | case1 => exact .pure fun _ => Nat.zero_le _
  | case2 => exact .undefined
  | case3 literal b rest ih => exact ih.mono fun found hfound h => Nat.succ_le_succ (hfound h)
  | case4 => exact .pure fun h => absurd h Bool.false_ne_true

theorem takes_value {fuel : Nat} (htakes : Takes fuel) (text : Bytes) :
    Ensures (parseValue (fuel + 1) text) fun result => result.2.length < text.length := by
  rw [parseValue.eq_def]
  have hdrop {found : Bool} {literal : Bytes} (hfound : found → literal.length ≤ text.length)
      (htrue : found) (hliteral : 0 < literal.length) :
      (text.drop literal.length).length < text.length := by
    have hle := hfound htrue
    rw [List.length_drop]
    omega
  refine (startsWith_ensures _ text).bind fun found hfound => ?_
  refine .ite (fun htrue => .pure (hdrop hfound htrue (by decide))) fun _ => ?_
  refine (startsWith_ensures _ text).bind fun found hfound => ?_
  refine .ite (fun htrue => .pure (hdrop hfound htrue (by decide))) fun _ => ?_
  refine (startsWith_ensures _ text).bind fun found hfound => ?_
  refine .ite (fun htrue => .pure (hdrop hfound htrue (by decide))) fun _ => ?_
  cases text with
  | nil => exact .undefined
  | cons c rest =>
    refine .ite (fun _ => ?_) fun _ => .ite (fun hnumber => ?_) fun _ => ?_
    · exact (parseString_ensures _).bind fun result hlast => .pure hlast
    · exact (parseNumber_ensures hnumber rest).bind fun last hlast =>
        .pure (Nat.lt_succ_of_le hlast)
    · refine .ite (fun _ => ?_) fun _ => .ite (fun _ => ?_) fun _ => .giveUp
      · exact (htakes.array rest).mono fun result hlast => hlast.trans (Nat.lt_succ_self _)
      · exact (htakes.object rest).mono fun result hlast => hlast.trans (Nat.lt_succ_self _)

theorem takes_array {fuel : Nat} (htakes : Takes fuel) (text : Bytes) :
    Ensures (parseArray (fuel + 1) text) fun result => result.2.length < text.length := by
  refine (skip_ensures text).bind fun rest hrest => ?_
  cases rest with
  | nil => exact .undefined
  | cons c rest =>
    refine .ite (fun _ => .pure (Nat.lt_of_succ_le hrest)) fun _ => ?_
    exact (htakes.items _).bind fun result hlast => .pure (hlast.trans_le hrest)

theorem takes_items {fuel : Nat} (htakes : Takes fuel) (text : Bytes) :
    Ensures (parseItems (fuel + 1) text) fun result => result.2.length < text.length := by
  refine (Ensures.trivial _).bind fun _ _ => (skip_ensures text).bind fun start hstart => ?_
  refine (htakes.value start).bind fun item hitem => ?_
  refine (skip_ensures item.2).bind fun rest hrest => ?_
  have htext := (hrest.trans hitem.le).trans hstart
  cases rest with
  | nil => exact .undefined
  | cons c rest =>
    refine .ite (fun _ => ?_) fun _ => .ite (fun _ => .pure (Nat.lt_of_succ_le htext)) fun _ =>
      .giveUp
    exact (htakes.items rest).bind fun result hlast =>
      .pure (hlast.trans (Nat.lt_of_succ_le htext))

theorem takes_object {fuel : Nat} (htakes : Takes fuel) (text : Bytes) :
    Ensures (parseObject (fuel + 1) text) fun result => result.2.length < text.length := by
  refine (skip_ensures text).bind fun rest hrest => ?_
  cases rest with
  | nil => exact .undefined
  | cons c rest =>
    refine .ite (fun _ => .pure (Nat.lt_of_succ_le hrest)) fun _ => ?_
    exact (htakes.members _).bind fun result hlast => .pure (hlast.trans_le hrest)

theorem takes_members {fuel : Nat} (htakes : Takes fuel) (text : Bytes) :
    Ensures (parseMembers (fuel + 1) text) fun result => result.2.length < text.length := by
  refine (Ensures.trivial _).bind fun _ _ => (skip_ensures text).bind fun start hstart => ?_
  refine (parseString_ensures start).bind fun key hkey => ?_
  refine (skip_ensures key.2).bind fun rest hrest => ?_
  have htext := (hrest.trans hkey.le).trans hstart
  cases rest with
  | nil => exact .undefined
  | cons c rest =>
    refine .ite (fun _ => .giveUp) fun _ => (skip_ensures rest).bind fun start hstart => ?_
    refine (htakes.value start).bind fun item hitem => ?_
    refine (skip_ensures item.2).bind fun last hlast => ?_
    have hrest : last.length < text.length :=
      ((hlast.trans_lt hitem).trans_le hstart).trans (Nat.lt_of_succ_le htext)
    cases last with
    | nil => exact .undefined
    | cons c last =>
      have hlast := (Nat.lt_succ_self _).trans hrest
      refine .ite (fun _ => ?_) fun _ => .ite (fun _ => .pure hlast) fun _ => .giveUp
      exact (htakes.members last).bind fun result hresult => .pure (hresult.trans hlast)

theorem takes (fuel : Nat) : Takes fuel := by
  induction fuel with
  | zero =>
    constructor <;> intro text
    · rw [parseValue]; exact .undefined
    · rw [parseArray]; exact .undefined
    · rw [parseItems]; exact .undefined
    · rw [parseObject]; exact .undefined
    · rw [parseMembers]; exact .undefined
  | succ fuel ih =>
    exact ⟨takes_value ih, takes_array ih, takes_items ih, takes_object ih, takes_members ih⟩

/-- A call with enough fuel for its text has no use for more. -/
structure Suffices (fuel : Nat) : Prop where
  value {text : Bytes} (hfuel : 3 * text.length + 1 ≤ fuel) :
    parseValue (fuel + 1) text = parseValue fuel text
  array {text : Bytes} (hfuel : 3 * text.length + 3 ≤ fuel) :
    parseArray (fuel + 1) text = parseArray fuel text
  items {text : Bytes} (hfuel : 3 * text.length + 2 ≤ fuel) :
    parseItems (fuel + 1) text = parseItems fuel text
  object {text : Bytes} (hfuel : 3 * text.length + 3 ≤ fuel) :
    parseObject (fuel + 1) text = parseObject fuel text
  members {text : Bytes} (hfuel : 3 * text.length + 2 ≤ fuel) :
    parseMembers (fuel + 1) text = parseMembers fuel text

section Suffices

variable {fuel : Nat}

theorem suffices_value (hfuel : Suffices fuel) (henough : 3 * text.length + 1 ≤ fuel + 1) :
    parseValue (fuel + 2) text = parseValue (fuel + 1) text := by
  rw [parseValue.eq_def, parseValue.eq_def (fuel + 1)]
  cases text with
  | nil => rfl
  | cons c rest =>
    have hrest : 3 * rest.length + 3 ≤ fuel := by
      rw [List.length_cons] at henough
      omega
    simp only [hfuel.array hrest, hfuel.object hrest]

theorem suffices_array (hfuel : Suffices fuel) (henough : 3 * text.length + 3 ≤ fuel + 1) :
    parseArray (fuel + 2) text = parseArray (fuel + 1) text := by
  refine (skip_ensures text).bind_congr fun rest hrest => ?_
  cases rest with
  | nil => rfl
  | cons c rest => simp only [hfuel.items (show 3 * (c :: rest).length + 2 ≤ fuel by omega)]

theorem suffices_object (hfuel : Suffices fuel) (henough : 3 * text.length + 3 ≤ fuel + 1) :
    parseObject (fuel + 2) text = parseObject (fuel + 1) text := by
  refine (skip_ensures text).bind_congr fun rest hrest => ?_
  cases rest with
  | nil => rfl
  | cons c rest => simp only [hfuel.members (show 3 * (c :: rest).length + 2 ≤ fuel by omega)]

theorem suffices_items (hfuel : Suffices fuel) (henough : 3 * text.length + 2 ≤ fuel + 1) :
    parseItems (fuel + 2) text = parseItems (fuel + 1) text := by
  refine (Ensures.trivial _).bind_congr fun _ _ => ?_
  refine (skip_ensures text).bind_congr fun start hstart => ?_
  rw [hfuel.value (by omega)]
  refine ((takes fuel).value start).bind_congr fun item hitem => ?_
  refine (skip_ensures item.2).bind_congr fun rest hrest => ?_
  cases rest with
  | nil => rfl
  | cons c rest =>
    rw [List.length_cons] at hrest
    simp only [hfuel.items (show 3 * rest.length + 2 ≤ fuel by omega)]

theorem suffices_members (hfuel : Suffices fuel) (henough : 3 * text.length + 2 ≤ fuel + 1) :
    parseMembers (fuel + 2) text = parseMembers (fuel + 1) text := by
  refine (Ensures.trivial _).bind_congr fun _ _ => ?_
  refine (skip_ensures text).bind_congr fun start hstart => ?_
  refine (parseString_ensures start).bind_congr fun key hkey => ?_
  refine (skip_ensures key.2).bind_congr fun rest hrest => ?_
  cases rest with
  | nil => rfl
  | cons c rest =>
    rw [List.length_cons] at hrest
    refine if_congr Iff.rfl rfl ?_
    refine (skip_ensures rest).bind_congr fun start hstart => ?_
    rw [hfuel.value (by omega)]
    refine ((takes fuel).value start).bind_congr fun item hitem => ?_
    refine (skip_ensures item.2).bind_congr fun last hlast => ?_
    cases last with
    | nil => rfl
    | cons c last =>
      rw [List.length_cons] at hlast
      simp only [hfuel.members (show 3 * last.length + 2 ≤ fuel by omega)]

theorem suffices_all (fuel : Nat) : Suffices fuel := by
  induction fuel with
  | zero => constructor <;> intro text hfuel <;> omega
  | succ fuel ih =>
    exact ⟨suffices_value ih, suffices_array ih, suffices_items ih, suffices_object ih,
      suffices_members ih⟩

end Suffices

/-- The parser does not run out of fuel. -/
theorem parseValue_enough {fuel : Nat} (hfuel : enough text ≤ fuel) :
    parseValue fuel text = parseValue (enough text) text := by
  induction fuel, hfuel using Nat.le_induction with
  | base => rfl
  | succ fuel hfuel ih => rw [(suffices_all fuel).value hfuel, ih]

theorem parseValue_enough_array : enough (ascii "[1]") ≤ 99 ∧
    parseValue 99 (ascii "[1]") = parseValue (enough (ascii "[1]")) (ascii "[1]") :=
  ⟨by decide, parseValue_enough (by decide)⟩

end Enough

def toLower (c : Byte) : Byte :=
  if 65 ≤ c ∧ c ≤ 90 then c + 32 else c

/-- Equality up to the case of letters, as `cJSON_strcasecmp` returns 0 for it. -/
def sameName (left right : Bytes) : Bool :=
  left.map toLower == right.map toLower

/-- The children of an array have no names, and other values no children. -/
def getObjectItem (root : Value) (string : Bytes) : Option Value :=
  match root with
  | .object members => (members.find? fun child => sameName child.1.text string).map Prod.snd
  | _ => none

def Value.valuestring : Value → Option CString
  | .string text => some text
  | _ => none

end CJson

end WaterWall
