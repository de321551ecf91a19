/-
The token recognition of the POSIX shell: blanks, operators, comments and the three
kinds of quoting.  A word is kept as a list of pieces that tell a character from the
start of an expansion, so that a word can be told to mean just its text.
-/
import WaterWall.ByteText

namespace ShellWords

open ByteText List Option

/-- A character that stands for itself, or one that starts an expansion. -/
inductive Piece where
  | literal (char : Byte)
  | expansion (char : Byte)
  deriving DecidableEq

abbrev Word := List Piece

inductive Token where
  | word (pieces : Word)
  | operator (char : Byte)
  deriving DecidableEq

/-- Where the reader is: outside of quotes, in one of the two kinds of quotes, behind a
backslash outside or inside of double quotes, or in a comment. -/
inductive Mode where
  | plain
  | single
  | double
  | escape
  | doubleEscape
  | comment

/-- A newline and the characters of the operators. -/
def isOperator (char : Byte) : Bool :=
  char ∈ ascii "\n;&|<>()"

/-- `$`, a backquote, and what starts a pattern or a home directory. -/
def isExpansion (char : Byte) : Bool :=
  char ∈ ascii "$`*?[~"

/-- What a backslash keeps its meaning for inside of double quotes. -/
def isDoubleSpecial (char : Byte) : Bool :=
  char ∈ ascii "$`\"\\"

/-- Adds to the word that is being read, if there is one yet. -/
def push (current : Option Word) (piece : Piece) : Option Word :=
  some (current.getD [] ++ [piece])

def flush : Option Word → List Token
  | none => []
  | some word => [.word word]

/-- The tokens of a text; a quote that is not closed is an error. -/
def tokens : Mode → Option Word → Bytes → Option (List Token)
  | .plain, current, [] => some (flush current)
  | .comment, current, [] => some (flush current)
  | .escape, current, [] => some (flush (push current (.literal 92)))
  | .single, _, [] => none
  | .double, _, [] => none
  | .doubleEscape, _, [] => none
  | .plain, current, char :: rest =>
    if char = 39 then tokens .single (some (current.getD [])) rest
    else if char = 34 then tokens .double (some (current.getD [])) rest
    else if char = 92 then tokens .escape current rest
    else if char = 32 ∨ char = 9 then
      (tokens .plain none rest).map fun behind => flush current ++ behind
    else if isOperator char then
      (tokens .plain none rest).map fun behind => flush current ++ .operator char :: behind
    else if char = 35 ∧ current = none then tokens .comment none rest
    else if isExpansion char then tokens .plain (push current (.expansion char)) rest
    else tokens .plain (push current (.literal char)) rest
  | .single, current, char :: rest =>
    if char = 39 then tokens .plain current rest
    else tokens .single (push current (.literal char)) rest
  | .double, current, char :: rest =>
    if char = 34 then tokens .plain current rest
    else if char = 92 then tokens .doubleEscape current rest
    else if char = 36 ∨ char = 96 then tokens .double (push current (.expansion char)) rest
    else tokens .double (push current (.literal char)) rest
  | .escape, current, char :: rest =>
    if char = 10 then tokens .plain current rest
    else tokens .plain (push current (.literal char)) rest
  | .doubleEscape, current, char :: rest =>
    if char = 10 then tokens .double current rest
    else if isDoubleSpecial char then tokens .double (push current (.literal char)) rest
    else tokens .double (push (push current (.literal 92)) (.literal char)) rest
  | .comment, current, char :: rest =>
    if char = 10 then
      (tokens .plain none rest).map fun behind => flush current ++ .operator 10 :: behind
    else tokens .comment current rest

/-- The text of a word without expansions. -/
def literalText : Word → Option Bytes
  | [] => some []
  | .literal char :: pieces => (literalText pieces).map (char :: ·)
  | .expansion _ :: _ => none

/-- The words of a command that is nothing but words without expansions. -/
def literalWords : List Token → Option (List Bytes)
  | [] => some []
  | .word pieces :: behind => (literalText pieces).bind fun text =>
    (literalWords behind).map (text :: ·)
  | .operator _ :: _ => none

/-- The one simple command that a line is, if all of it stands for itself. -/
def simpleCommand (line : Bytes) : Option (List Bytes) :=
  (tokens .plain none line).bind literalWords

section Literal

variable {current : Option Word} {text rest : Bytes}

def literal (text : Bytes) : Word :=
  text.map .literal

theorem literalText_literal (text : Bytes) : literalText (literal text) = some text := by
  induction text with
  | nil => rfl
  | cons char text ih =>
    change (literalText (literal text)).map (char :: ·) = _
    rw [ih]
    rfl

theorem eq_literal_of_literalText {pieces : Word} (htext : literalText pieces = some text) :
    pieces = literal text := by
  induction pieces generalizing text with
  | nil =>
    cases htext
    rfl
  | cons piece pieces ih =>
    cases piece with
    | literal char =>
      obtain ⟨behind, hbehind, rfl⟩ := map_eq_some_iff.mp htext
      rw [ih hbehind]
      rfl
    | expansion char => cases htext

/-- A character without any meaning of its own. -/
def isOrdinary (char : Byte) : Bool :=
  char ∉ ascii "'\"\\ \t#" && !isOperator char && !isExpansion char

theorem tokens_ordinary {char : Byte} (hchar : isOrdinary char) :
    tokens .plain current (char :: rest) = tokens .plain (push current (.literal char)) rest := by
  simp only [isOrdinary, Bool.and_eq_true, decide_eq_true_eq, Bool.not_eq_true'] at hchar
  obtain ⟨⟨hspecial, hoperator⟩, hexpansion⟩ := hchar
  have hne (other : Byte) (hother : other ∈ ascii "'\"\\ \t#") : char ≠ other := by
    rintro rfl
    exact hspecial hother
  rw [tokens, if_neg (hne 39 (by decide)), if_neg (hne 34 (by decide)), if_neg (hne 92 (by decide)),
    if_neg (not_or_intro (hne 32 (by decide)) (hne 9 (by decide))), hoperator, hexpansion,
    if_neg Bool.false_ne_true, if_neg fun hhash => hne 35 (by decide) hhash.1,
    if_neg Bool.false_ne_true]

theorem tokens_plain_append (htext : ∀ char ∈ text, isOrdinary char) (word : Word) :
    tokens .plain (some word) (text ++ rest) =
      tokens .plain (some (word ++ literal text)) rest := by
  induction text generalizing word with
  | nil => simp [literal]
  | cons char text ih =>
    obtain ⟨hchar, htext⟩ := forall_mem_cons.mp htext
    rw [cons_append, tokens_ordinary hchar]
    change tokens .plain (some (word ++ [.literal char])) (text ++ rest) = _
    rw [ih htext, append_assoc]
    rfl

theorem tokens_plain_start (hne : text ≠ []) (htext : ∀ char ∈ text, isOrdinary char) :
    tokens .plain none (text ++ rest) = tokens .plain (some (literal text)) rest := by
  cases text with
  | nil => exact absurd rfl hne
  | cons char text =>
    obtain ⟨hchar, htext⟩ := forall_mem_cons.mp htext
    rw [cons_append, tokens_ordinary hchar]
    exact tokens_plain_append htext [.literal char]

theorem tokens_blank (word : Word) : tokens .plain (some word) (32 :: rest) =
    (tokens .plain none rest).map fun behind => .word word :: behind := by
  rw [tokens, if_neg (by decide), if_neg (by decide), if_neg (by decide), if_pos (.inl rfl)]
  rfl

theorem tokens_single_append (htext : (39 : Byte) ∉ text) (word : Word) :
    tokens .single (some word) (text ++ 39 :: rest) =
      tokens .plain (some (word ++ literal text)) rest := by
  induction text generalizing word with
  | nil =>
    rw [nil_append, tokens, if_pos rfl]
    simp [literal]
  | cons char text ih =>
    rw [mem_cons, not_or] at htext
    rw [cons_append, tokens, if_neg (Ne.symm htext.1)]
    change tokens .single (some (word ++ [.literal char])) (text ++ 39 :: rest) = _
    rw [ih htext.2, append_assoc]
    rfl

end Literal

section Sizes

variable {mode : Mode} {current : Option Word} {text : Bytes} {found : List Token}

/-- The number of pieces in some tokens. -/
def size : List Token → Nat
  | [] => 0
  | .word pieces :: behind => pieces.length + size behind
  | .operator _ :: behind => size behind

/-- The number of pieces of the word that is being read. -/
def width (current : Option Word) : Nat :=
  (current.getD []).length

/-- A backslash that has been read and may become a piece. -/
def pending : Mode → Nat
  | .plain => 0
  | .single => 0
  | .double => 0
  | .escape => 1
  | .doubleEscape => 1
  | .comment => 0

theorem size_append (front behind : List Token) :
    size (front ++ behind) = size front + size behind := by
  induction front with
  | nil => rw [nil_append, size, Nat.zero_add]
  | cons token front ih =>
    cases token with
    | word pieces => rw [cons_append, size, size, ih, Nat.add_assoc]
    | operator char => rw [cons_append, size, size, ih]

theorem size_flush (current : Option Word) : size (flush current) = width current := by
  cases current with
  | none => rfl
  | some word => rfl

theorem width_push (current : Option Word) (piece : Piece) :
    width (push current piece) = width current + 1 := by
  simp [width, push]

theorem width_begun (current : Option Word) : width (some (current.getD [])) = width current :=
  rfl

theorem size_le (htokens : tokens mode current text = some found) :
    size found ≤ width current + text.length + pending mode := by
  fun_induction tokens mode current text generalizing found
  all_goals try obtain ⟨behind, hbehind, rfl⟩ := map_eq_some_iff.mp htokens
  all_goals grind [size, size_append, size_flush, width_push, width_begun, pending, width]

theorem size_lt (hquote : (39 : Byte) ∈ text)
    (htokens : tokens .plain current text = some found) :
    size found < width current + text.length := by
  induction text generalizing current found with
  | nil => cases hquote
  | cons char rest ih =>
    rw [length_cons]
    rw [tokens] at htokens
    split_ifs at htokens with hsingle hdouble hescape hblank hoperator hcomment hexpansion
    · have hle := size_le htokens
      rw [width_begun, pending] at hle
      omega
    · have hle := size_le htokens
      rw [width_begun, pending] at hle
      omega
    all_goals
      have hrest : (39 : Byte) ∈ rest := by
        simpa [Ne.symm hsingle] using hquote
    · -- Behind the backslash comes a character, and both make one piece.
      cases rest with
      | nil => cases hrest
      | cons next rest =>
        rw [tokens] at htokens
        split_ifs at htokens
        · have hle := size_le htokens
          rw [pending] at hle
          rw [length_cons]
          omega
        · have hle := size_le htokens
          rw [width_push, pending] at hle
          rw [length_cons]
          omega
    · obtain ⟨behind, hbehind, rfl⟩ := map_eq_some_iff.mp htokens
      have hlt := ih hrest hbehind
      rw [size_append, size_flush]
      change size behind < 0 + rest.length at hlt
      omega
    · obtain ⟨behind, hbehind, rfl⟩ := map_eq_some_iff.mp htokens
      have hlt := ih hrest hbehind
      rw [size_append, size_flush, size]
      change size behind < 0 + rest.length at hlt
      omega
    · have hle := size_le htokens
      rw [hcomment.2]
      change size found ≤ 0 + rest.length + 0 at hle
      omega
    · have hlt := ih hrest htokens
      rw [width_push] at hlt
      omega
    · have hlt := ih hrest htokens
      rw [width_push] at hlt
      omega

end Sizes

section Quoted

variable {first second key value : Bytes}

theorem tokens_words (hfirst : first ≠ []) (hfirstChars : ∀ char ∈ first, isOrdinary char)
    (hsecond : second ≠ []) (hsecondChars : ∀ char ∈ second, isOrdinary char) (hkey : key ≠ [])
    (hkeyChars : ∀ char ∈ key, isOrdinary char) (rest : Bytes) :
    tokens .plain none (first ++ 32 :: (second ++ 32 :: (key ++ 39 :: rest))) =
      (tokens .single (some (literal key)) rest).map fun behind =>
        .word (literal first) :: .word (literal second) :: behind := by
  rw [tokens_plain_start hfirst hfirstChars, tokens_blank, tokens_plain_start hsecond hsecondChars,
    tokens_blank, tokens_plain_start hkey hkeyChars, tokens, if_pos rfl, Option.map_map]
  rfl

theorem literalWords_eq_some_singleton {found : List Token} {text : Bytes}
    (hwords : literalWords found = some [text]) : found = [.word (literal text)] := by
  cases found with
  | nil => cases hwords
  | cons token found =>
    cases token with
    | operator char => cases hwords
    | word pieces =>
      obtain ⟨head, hhead, hbehind⟩ := bind_eq_some_iff.mp hwords
      obtain ⟨tail, htail, heq⟩ := map_eq_some_iff.mp hbehind
      obtain ⟨rfl, rfl⟩ := List.cons.inj heq
      rw [eq_literal_of_literalText hhead]
      cases found with
      | nil => rfl
      | cons token found =>
        cases token with
        | operator char => cases htail
        | word pieces =>
          obtain ⟨text, -, hmore⟩ := bind_eq_some_iff.mp htail
          obtain ⟨more, -, heq⟩ := map_eq_some_iff.mp hmore
          cases heq

theorem simpleCommand_quoted_iff (hfirst : first ≠ [])
    (hfirstChars : ∀ char ∈ first, isOrdinary char) (hsecond : second ≠ [])
    (hsecondChars : ∀ char ∈ second, isOrdinary char) (hkey : key ≠ [])
    (hkeyChars : ∀ char ∈ key, isOrdinary char) :
    simpleCommand (first ++ 32 :: (second ++ 32 :: (key ++ 39 :: (value ++ [39])))) =
      some [first, second, key ++ value] ↔ (39 : Byte) ∉ value := by
  rw [simpleCommand, tokens_words hfirst hfirstChars hsecond hsecondChars hkey hkeyChars]
  constructor
  · intro hcommand hquote
    obtain ⟨all, hall, hwords⟩ := bind_eq_some_iff.mp hcommand
    obtain ⟨found, hfound, rfl⟩ := map_eq_some_iff.mp hall
    simp only [literalWords, literalText_literal, Option.bind_some, Option.map_map,
      map_eq_some_iff, Function.comp_apply, List.cons.injEq, true_and,
      exists_eq_right] at hwords
    obtain ⟨front, behind, rfl, hfront⟩ := eq_append_cons_of_mem hquote
    rw [append_assoc, cons_append, tokens_single_append hfront] at hfound
    have hlt := size_lt (by simp) hfound
    rw [literalWords_eq_some_singleton hwords] at hlt
    grind [size, width, literal]
  · intro hnot
    have hword : literal key ++ literal value = literal (key ++ value) := map_append.symm
    rw [tokens_single_append hnot, hword, tokens]
    simp only [flush, map_some, bind_some, literalWords, literalText_literal]

end Quoted

end ShellWords
