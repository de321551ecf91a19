/-
The body of a JSON string: what stands between its quotes, read byte by byte.  A `\u` escape
is kept as its code unit, so that the encoding of the text plays no part.
-/
import WaterWall.ByteText

namespace JsonBody

open ByteText

inductive Symbol where
  | byte (value : Byte)
  | codeUnit (value : Nat)
  deriving DecidableEq

def hexValue (byte : Byte) : Option Nat :=
  if 48 ≤ byte ∧ byte ≤ 57 then some (byte.toNat - 48)
  else if 65 ≤ byte ∧ byte ≤ 70 then some (byte.toNat - 55)
  else if 97 ≤ byte ∧ byte ≤ 102 then some (byte.toNat - 87)
  else none

/-- The escapes of one letter. -/
def shortEscape (byte : Byte) : Option Byte :=
  if byte = 34 ∨ byte = 92 ∨ byte = 47 then some byte
  else if byte = 98 then some 8
  else if byte = 102 then some 12
  else if byte = 110 then some 10
  else if byte = 114 then some 13
  else if byte = 116 then some 9
  else none

/-- A byte that stands for itself. -/
def isPlain (byte : Byte) : Bool :=
  32 ≤ byte && byte ≠ 34 && byte ≠ 92

/-- What a body stands for; `none` when it is not well formed. -/
def unescape : Bytes → Option (List Symbol)
  | [] => some []
  | 92 :: 117 :: a :: b :: c :: d :: rest => do
      let digits ← [a, b, c, d].mapM hexValue
      let symbols ← unescape rest
      return .codeUnit (digits.foldl (fun value digit => 16 * value + digit) 0) :: symbols
  | 92 :: kind :: rest => do
      let value ← shortEscape kind
      let symbols ← unescape rest
      return .byte value :: symbols
  | byte :: rest => do
      guard (isPlain byte)
      let symbols ← unescape rest
      return .byte byte :: symbols

section Bodies

variable {byte value : Byte} {rest : Bytes}

theorem unescape_plain (hplain : isPlain byte = true) :
    unescape (byte :: rest) = (unescape rest).map (.byte byte :: ·) := by
  have hne : byte ≠ 92 := by
    rintro rfl
    cases hplain
  rw [unescape.eq_4 byte rest (fun _ _ _ _ _ hbyte _ => hne hbyte) (fun _ _ hbyte _ => hne hbyte),
    hplain]
  cases unescape rest <;> rfl

theorem unescape_short (hshort : shortEscape byte = some value) :
    unescape (92 :: byte :: rest) = (unescape rest).map (.byte value :: ·) := by
  have hne : byte ≠ 117 := by
    rintro rfl
    cases hshort
  rw [unescape.eq_3 byte rest (fun _ _ _ _ _ hbyte _ => hne hbyte), hshort]
  cases unescape rest <;> rfl

theorem unescape_backslash : unescape [92] = none := by
  decide

end Bodies

end JsonBody
