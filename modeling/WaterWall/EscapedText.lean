/-
The two escaping functions of public.c that write to a buffer of the caller: they differ in
one escape.  Each adds what `snprintf` would have needed to its length and stops when the
unsigned difference to the size of the buffer is at most one.
-/
import WaterWall.JsonBody
import WaterWall.PrintBuffer

namespace WaterWall

namespace Escape

open ByteText HeapBlock PrintBuffer List

/-- `J_iscntrl`: the bytes that the table `_ctype` marks with `_C`. -/
def isCntrl (c : Byte) : Bool :=
  c < 32 || c = 127

/-- The escapes that all the functions have. -/
def common (c : Byte) : Option Bytes :=
  if c = 92 then some (ascii "\\\\")
  else if c = 10 then some (ascii "\\n")
  else if c = 13 then some (ascii "\\r")
  else if c = 9 then some (ascii "\\t")
  else if c = 8 then some (ascii "\\b")
  else none

def htmlSpecial (c : Byte) : Option Bytes :=
  if c = 60 then some (ascii "&lt;") else common c

def jsonSpecial (c : Byte) : Option Bytes :=
  if c = 34 then some (ascii "\\\"") else common c

/-- The body of the `switch`. -/
def change (special : Byte → Option Bytes) (dstLen : Nat) (out : Out) (c : Byte) : Option Out :=
  match special c with
  | some text => append dstLen out text
  | none => if isCntrl c then some out else append dstLen out [c]

/-- The loop over the source, with the length after each character. -/
def changeLoop (special : Byte → Option Bytes) (dstLen : Nat) (out : Out) :
    Bytes → Option (Out × List Nat)
  | [] => some (out, [])
  | c :: rest => do
      let next ← change special dstLen out c
      if room dstLen next.len ≤ 1 then return (next, [next.len])
      let (last, lens) ← changeLoop special dstLen next rest
      return (last, next.len :: lens)

/-- The buffer is cleared first. -/
def changeToDst (special : Byte → Option Bytes) (src : CString) (dstLen : Nat) :
    Option (Out × List Nat) :=
  changeLoop special dstLen ⟨List.replicate dstLen 0, 0⟩ src.text

def anChangeHtmlLtToDst (src : CString) (dstLen : Nat) : Option (Out × List Nat) :=
  changeToDst htmlSpecial src dstLen

def anChangeJsonDataSymboToDst (src : CString) (dstLen : Nat) : Option (Out × List Nat) :=
  changeToDst jsonSpecial src dstLen

/-- What stands for a character; a control character without an escape is dropped. -/
def piece (special : Byte → Option Bytes) (c : Byte) : Bytes :=
  match special c with
  | some text => text
  | none => if isCntrl c then [] else [c]

def escaped (special : Byte → Option Bytes) (text : Bytes) : Bytes :=
  text.flatMap (piece special)

section Steps

variable {special : Byte → Option Bytes} {dstLen len : Nat} {out : Out} {shown rest : Bytes}
  {c : Byte}

@[simp]
theorem escaped_nil : escaped special [] = [] := rfl

@[simp]
theorem escaped_cons : escaped special (c :: rest) = piece special c ++ escaped special rest :=
  rfl

theorem change_spec (special : Byte → Option Bytes) (hholds : Holds dstLen out shown)
    (hsize : dstLen < 2 ^ 32) (c : Byte) :
    ∃ dst, change special dstLen out c =
        some ⟨dst, (out.len + (piece special c).length) % 2 ^ 32⟩ ∧
      Fills dst dstLen
        (shown ++ (piece special c).take (dstLen - 1 - shown.length) ++ [0]) := by
  cases hspecial : special c with
  | some text =>
    simp only [change, piece, hspecial]
    exact hholds.append hsize text
  | none =>
    by_cases hcntrl : isCntrl c = true
    · simp only [change, piece, hspecial, hcntrl, if_true, length_nil, Nat.add_zero,
        take_nil, append_nil]
      have hlt := hholds.lt
      have hmod : out.len % 2 ^ 32 = out.len := Nat.mod_eq_of_lt (by omega)
      rw [hmod]
      exact ⟨out.dst, rfl, hholds.fills⟩
    · simp only [change, piece, hspecial, hcntrl, Bool.false_eq_true, if_false]
      exact hholds.append hsize [c]

theorem changeLoop_cons {next : Out} (hchange : change special dstLen out c = some next) :
    changeLoop special dstLen out (c :: rest) =
      if room dstLen next.len ≤ 1 then some (next, [next.len])
      else (changeLoop special dstLen next rest).map fun result =>
        (result.1, next.len :: result.2) := by
  rw [changeLoop, hchange, Option.bind_eq_bind, Option.bind_some]
  by_cases hstop : room dstLen next.len ≤ 1
  · rw [if_pos hstop, if_pos hstop]
    rfl
  · rw [if_neg hstop, if_neg hstop]
    cases changeLoop special dstLen next rest with
    | none => rfl
    | some result => rfl

/-- No escape is met with too little room for it: two bytes or more, but less than it needs. -/
def Fits (special : Byte → Option Bytes) (dstLen len : Nat) (rest : Bytes) : Prop :=
  ∀ before c after, rest = before ++ c :: after →
    ¬ (len + (escaped special before).length + 2 ≤ dstLen ∧
      dstLen < len + (escaped special before).length + (piece special c).length)

theorem fits_cons : Fits special dstLen len (c :: rest) ↔
    ¬ (len + 2 ≤ dstLen ∧ dstLen < len + (piece special c).length) ∧
      Fits special dstLen (len + (piece special c).length) rest := by
  constructor
  · intro hfits
    refine ⟨hfits [] c rest rfl, ?_⟩
    rintro before c' after rfl
    have hnot := hfits (c :: before) c' after rfl
    rw [escaped_cons, length_append, ← Nat.add_assoc] at hnot
    exact hnot
  · rintro ⟨hfirst, hrest⟩ before c' after heq
    cases before with
    | nil =>
      cases heq
      exact hfirst
    | cons first before =>
      cases heq
      rw [escaped_cons, length_append, ← Nat.add_assoc]
      exact hrest before c' after rfl

/-- No write leaves the buffer, no length passes its size, and a NUL remains in it. -/
def Respects (dstLen : Nat) (result : Option (Out × List Nat)) : Prop :=
  ∃ last lens, result = some (last, lens) ∧ (∀ len ∈ lens, len ≤ dstLen) ∧
    last.dst.length = dstLen ∧ (0 : Byte) ∈ last.dst

theorem nul_mem_of_fills {dst text : Bytes} (hfills : Fills dst dstLen (text ++ [0])) :
    (0 : Byte) ∈ dst := by
  have hmem : (0 : Byte) ∈ dst.take (text ++ [0]).length := by
    rw [hfills.starts]
    simp
  exact mem_of_mem_take hmem

theorem changeLoop_respects (hholds : Holds dstLen out shown) (hsize : dstLen < 2 ^ 32)
    (hroom : out.len + 2 ≤ dstLen) (hfits : Fits special dstLen out.len rest) :
    Respects dstLen (changeLoop special dstLen out rest) := by
  induction rest generalizing out shown with
  | nil => exact ⟨out, [], rfl, by simp, hholds.fills.length_eq, nul_mem_of_fills hholds.fills⟩
  | cons c rest ih =>
    obtain ⟨hfirst, hrest⟩ := fits_cons.mp hfits
    obtain ⟨dst, hchange, hfills⟩ := change_spec special hholds hsize c
    have hlen : (out.len + (piece special c).length) % 2 ^ 32 =
        out.len + (piece special c).length := by
      apply Nat.mod_eq_of_lt
      omega
    have hle : out.len + (piece special c).length ≤ dstLen := by
      omega
    rw [hlen] at hchange
    rw [changeLoop_cons hchange]
    by_cases hstop : room dstLen (out.len + (piece special c).length) ≤ 1
    · rw [if_pos hstop]
      refine ⟨_, _, rfl, ?_, hfills.length_eq, nul_mem_of_fills hfills⟩
      rw [forall_mem_singleton]
      exact hle
    · rw [if_neg hstop]
      rw [room_eq hle hsize] at hstop
      have hshown := hholds.len_eq
      rw [take_of_length_le (by omega)] at hfills
      have hnext : Holds dstLen ⟨dst, out.len + (piece special c).length⟩
          (shown ++ piece special c) :=
        ⟨hfills, by rw [length_append, ← hshown]⟩
      have hgo : out.len + (piece special c).length + 2 ≤ dstLen := by
        omega
      obtain ⟨last, lens, hrun, hlens, hlast⟩ := ih hnext hgo hrest
      rw [hrun]
      refine ⟨last, _, rfl, ?_, hlast⟩
      rw [forall_mem_cons]
      exact ⟨hle, hlens⟩

theorem fits_of_respects (hholds : Holds dstLen out shown) (hsize : dstLen + 2 < 2 ^ 32)
    (hshort : ∀ c, (piece special c).length ≤ 4) (hroom : out.len + 2 ≤ dstLen)
    (hrespects : Respects dstLen (changeLoop special dstLen out rest)) :
    Fits special dstLen out.len rest := by
  induction rest generalizing out shown with
  | nil => exact fun before c after heq => absurd heq (by simp)
  | cons c rest ih =>
    obtain ⟨dst, hchange, hfills⟩ := change_spec special hholds (by omega) c
    have hpiece := hshort c
    have hlen : (out.len + (piece special c).length) % 2 ^ 32 =
        out.len + (piece special c).length := by
      apply Nat.mod_eq_of_lt
      omega
    rw [hlen] at hchange
    rw [changeLoop_cons hchange] at hrespects
    obtain ⟨last, lens, hrun, hlens, hlast⟩ := hrespects
    rw [fits_cons]
    by_cases hstop : room dstLen (out.len + (piece special c).length) ≤ 1
    · rw [if_pos hstop] at hrun
      cases hrun
      rw [forall_mem_singleton] at hlens
      change out.len + (piece special c).length ≤ dstLen at hlens
      rw [room_eq hlens (by omega)] at hstop
      refine ⟨by omega, fun before c' after _ => ?_⟩
      omega
    · rw [if_neg hstop] at hrun
      obtain ⟨⟨last', lens'⟩, hrest, heq⟩ := Option.map_eq_some_iff.mp hrun
      cases heq
      obtain ⟨hle, hlens⟩ := forall_mem_cons.mp hlens
      change out.len + (piece special c).length ≤ dstLen at hle
      rw [room_eq hle (by omega)] at hstop
      have hshown := hholds.len_eq
      rw [take_of_length_le (by omega)] at hfills
      have hnext : Holds dstLen ⟨dst, out.len + (piece special c).length⟩
          (shown ++ piece special c) :=
        ⟨hfills, by rw [length_append, ← hshown]⟩
      have hgo : out.len + (piece special c).length + 2 ≤ dstLen := by
        omega
      exact ⟨by omega, ih hnext hgo ⟨last', lens', hrest, hlens, hlast⟩⟩

end Steps

section Pieces

theorem common_spec {c : Byte} {text : Bytes} (htext : common c = some text) :
    text.length = 2 ∧ (0 : Byte) ∉ text := by
  have hall : ∀ word ∈ ["\\\\", "\\n", "\\r", "\\t", "\\b"],
      (ascii word).length = 2 ∧ (0 : Byte) ∉ ascii word := by
    decide
  rw [common] at htext
  split_ifs at htext <;> cases htext <;> exact hall _ (by simp)

theorem common_length {c : Byte} {text : Bytes} (htext : common c = some text) :
    text.length = 2 :=
  (common_spec htext).1

theorem piece_length_le {special : Byte → Option Bytes} {bound : Nat} (hbound : 1 ≤ bound)
    (hspecial : ∀ c text, special c = some text → text.length ≤ bound) (c : Byte) :
    (piece special c).length ≤ bound := by
  rw [piece]
  cases htext : special c with
  | some text => exact hspecial c text htext
  | none =>
    by_cases hcntrl : isCntrl c = true
    · simp [hcntrl]
    · simpa [hcntrl] using hbound

theorem nul_notMem_escaped {special : Byte → Option Bytes}
    (hspecial : ∀ c text, special c = some text → (0 : Byte) ∉ text) {text : Bytes}
    (hnul : (0 : Byte) ∉ text) : (0 : Byte) ∉ escaped special text := by
  rw [escaped, mem_flatMap]
  rintro ⟨c, hc, hmem⟩
  rw [piece] at hmem
  cases htext : special c with
  | some text =>
    simp only [htext] at hmem
    exact hspecial c text htext hmem
  | none =>
    simp only [htext] at hmem
    split at hmem
    · simp at hmem
    · rw [mem_singleton] at hmem
      exact hnul (hmem ▸ hc)

end Pieces

section Html

theorem piece_html_lt : (piece htmlSpecial 60).length = 4 := by
  decide

theorem piece_html_length {c : Byte} (hne : c ≠ 60) : (piece htmlSpecial c).length ≤ 2 := by
  rw [piece, htmlSpecial, if_neg hne]
  grind [common_length]

/-- No `<` is met with two or three bytes of room. -/
def Roomy (src : Bytes) (dstLen : Nat) : Prop :=
  ∀ before after, src = before ++ 60 :: after →
    (escaped htmlSpecial before).length + 2 ≠ dstLen ∧
      (escaped htmlSpecial before).length + 3 ≠ dstLen

theorem fits_html_iff {src : Bytes} {dstLen : Nat} :
    Fits htmlSpecial dstLen 0 src ↔ Roomy src dstLen := by
  constructor
  · intro hfits before after heq
    have hnot := hfits before 60 after heq
    rw [piece_html_lt] at hnot
    omega
  · intro hroomy before c after heq
    by_cases hc : c = 60
    · subst hc
      have hnot := hroomy before after heq
      rw [piece_html_lt]
      omega
    · have hshort := piece_html_length hc
      omega

end Html

/-- The buffer is respected when no `<` is met with two or three bytes of room; and, unless the
length can wrap, only then. -/
theorem anChangeHtmlLtToDst_respects (src : CString) (dstLen : Nat) (hlow : 2 ≤ dstLen)
    (hhigh : dstLen < 2 ^ 32) :
    (Roomy src.text dstLen → Respects dstLen (anChangeHtmlLtToDst src dstLen)) ∧
      (dstLen + 2 < 2 ^ 32 → Respects dstLen (anChangeHtmlLtToDst src dstLen) →
        Roomy src.text dstLen) := by
  have hblank : Holds dstLen ⟨List.replicate dstLen 0, 0⟩ [] := holds_blank (by omega)
  have hshort : ∀ c, (piece htmlSpecial c).length ≤ 4 := by
    grind [piece_html_lt, piece_html_length]
  constructor
  · intro hroomy
    exact changeLoop_respects hblank hhigh (by omega) (fits_html_iff.mpr hroomy)
  · intro hsize hrespects
    exact fits_html_iff.mp (fits_of_respects hblank hsize hshort (by omega) hrespects)

section Json

open JsonBody

variable {special : Byte → Option Bytes} {dstLen len : Nat} {out : Out} {shown rest : Bytes}
  {c : Byte}

/-- An escape of two bytes is met with just two bytes of room. -/
def CutFrom (special : Byte → Option Bytes) (dstLen len : Nat) (rest : Bytes) : Prop :=
  ∃ before c after, rest = before ++ c :: after ∧ (piece special c).length = 2 ∧
    len + (escaped special before).length + 2 = dstLen

theorem cutFrom_cons : CutFrom special dstLen len (c :: rest) ↔
    (piece special c).length = 2 ∧ len + 2 = dstLen ∨
      CutFrom special dstLen (len + (piece special c).length) rest := by
  constructor
  · rintro ⟨before, c', after, heq, hpiece, hlen⟩
    cases before with
    | nil =>
      cases heq
      exact .inl ⟨hpiece, hlen⟩
    | cons first before =>
      cases heq
      rw [escaped_cons, length_append, ← Nat.add_assoc] at hlen
      exact .inr ⟨before, c', after, rfl, hpiece, hlen⟩
  · rintro (⟨hpiece, hlen⟩ | ⟨before, c', after, rfl, hpiece, hlen⟩)
    · exact ⟨[], c, rest, rfl, hpiece, hlen⟩
    · refine ⟨c :: before, c', after, rfl, hpiece, ?_⟩
      rw [escaped_cons, length_append, ← Nat.add_assoc]
      exact hlen

theorem changeLoop_text (hholds : Holds dstLen out shown) (hsize : dstLen < 2 ^ 32)
    (hshort : ∀ c, (piece special c).length ≤ 2) (hroom : out.len + 2 ≤ dstLen) :
    ∃ last lens before after half, changeLoop special dstLen out rest = some (last, lens) ∧
      rest = before ++ after ∧
      Fills last.dst dstLen (shown ++ escaped special before ++ half ++ [0]) ∧
      (half = [] ∧ ¬ CutFrom special dstLen out.len rest ∨
        (∃ c after', after = c :: after' ∧ (piece special c).length = 2 ∧
          half = (piece special c).take 1) ∧ CutFrom special dstLen out.len rest) := by
  induction rest generalizing out shown with
  | nil =>
    refine ⟨out, [], [], [], [], rfl, rfl, ?_, .inl ⟨rfl, ?_⟩⟩
    · simpa using hholds.fills
    · rintro ⟨before, c, after, heq, -⟩
      simp at heq
  | cons c rest ih =>
    obtain ⟨dst, hchange, hfills⟩ := change_spec special hholds hsize c
    have hpiece := hshort c
    have hshown := hholds.len_eq
    have hle : out.len + (piece special c).length ≤ dstLen := by
      omega
    have hlen : (out.len + (piece special c).length) % 2 ^ 32 =
        out.len + (piece special c).length := by
      apply Nat.mod_eq_of_lt
      omega
    rw [hlen] at hchange
    rw [changeLoop_cons hchange, cutFrom_cons]
    by_cases hcut : (piece special c).length = 2 ∧ out.len + 2 = dstLen
    · have hstop : room dstLen (out.len + (piece special c).length) ≤ 1 := by
        rw [room_eq hle hsize]
        omega
      have hone : dstLen - 1 - shown.length = 1 := by
        omega
      rw [hone] at hfills
      rw [if_pos hstop]
      refine ⟨_, _, [], c :: rest, (piece special c).take 1, rfl, rfl, ?_,
        .inr ⟨⟨c, rest, rfl, hcut.1, rfl⟩, .inl hcut⟩⟩
      simpa using hfills
    · rw [take_of_length_le (by omega)] at hfills
      by_cases hstop : room dstLen (out.len + (piece special c).length) ≤ 1
      · rw [if_pos hstop]
        rw [room_eq hle hsize] at hstop
        refine ⟨_, _, [c], rest, [], rfl, rfl, ?_, .inl ⟨rfl, ?_⟩⟩
        · simpa using hfills
        · rintro (hfirst | ⟨before, c', after, -, -, hlater⟩)
          · exact hcut hfirst
          · omega
      · rw [if_neg hstop]
        rw [room_eq hle hsize] at hstop
        have hnext : Holds dstLen ⟨dst, out.len + (piece special c).length⟩
            (shown ++ piece special c) :=
          ⟨hfills, by rw [length_append, ← hshown]⟩
        have hgo : out.len + (piece special c).length + 2 ≤ dstLen := by
          omega
        obtain ⟨last, lens, before, after, half, hrun, rfl, hlast, hhalf⟩ := ih hnext hgo
        rw [hrun]
        refine ⟨last, _, c :: before, after, half, rfl, rfl, ?_, ?_⟩
        · rw [escaped_cons, ← append_assoc]
          exact hlast
        · rw [or_iff_right hcut]
          exact hhalf

/-- What is not dropped. -/
def isKept (c : Byte) : Bool :=
  (jsonSpecial c).isSome || !isCntrl c

theorem jsonSpecial_cases {text : Bytes} (htext : jsonSpecial c = some text) :
    ∃ kind, text = [92, kind] ∧ kind ≠ 0 ∧ shortEscape kind = some c := by
  have hwords : ascii "\\\"" = [92, 34] ∧ ascii "\\\\" = [92, 92] ∧ ascii "\\n" = [92, 110] ∧
      ascii "\\r" = [92, 114] ∧ ascii "\\t" = [92, 116] ∧ ascii "\\b" = [92, 98] := by
    decide
  obtain ⟨hquote, hslash, hnewline, hreturn, htab, hback⟩ := hwords
  rw [jsonSpecial, common] at htext
  split_ifs at htext with h1 h2 h3 h4 h5 h6 <;> cases htext <;> subst c
  · exact ⟨34, hquote, by decide, by decide⟩
  · exact ⟨92, hslash, by decide, by decide⟩
  · exact ⟨110, hnewline, by decide, by decide⟩
  · exact ⟨114, hreturn, by decide, by decide⟩
  · exact ⟨116, htab, by decide, by decide⟩
  · exact ⟨98, hback, by decide, by decide⟩

theorem piece_json_length (c : Byte) : (piece jsonSpecial c).length ≤ 2 := by
  refine piece_length_le (by omega) (fun c text htext => ?_) c
  obtain ⟨kind, rfl, -⟩ := jsonSpecial_cases htext
  exact le_rfl

theorem take_piece_json (hpiece : (piece jsonSpecial c).length = 2) :
    (piece jsonSpecial c).take 1 = [92] := by
  rw [piece] at hpiece ⊢
  grind [jsonSpecial_cases]

theorem isPlain_of_kept (hspecial : jsonSpecial c = none) (hcntrl : isCntrl c = false) :
    isPlain c = true := by
  have hquote : c ≠ 34 := by
    rintro rfl
    cases hspecial
  have hslash : c ≠ 92 := by
    rintro rfl
    cases hspecial
  rw [isCntrl, Bool.or_eq_false_iff, decide_eq_false_iff_not, not_lt] at hcntrl
  simp [isPlain, hcntrl.1, hquote, hslash]

theorem unescape_piece (tail : Bytes) : unescape (piece jsonSpecial c ++ tail) =
    (unescape tail).map fun symbols => (if isKept c then [.byte c] else []) ++ symbols := by
  rw [piece, isKept]
  cases hspecial : jsonSpecial c with
  | some text =>
    grind [jsonSpecial_cases, unescape_short]
  | none =>
    cases hcntrl : isCntrl c with
    | true => simp
    | false =>
      simp_all [unescape_plain, isPlain_of_kept]

theorem unescape_escaped (text tail : Bytes) : unescape (escaped jsonSpecial text ++ tail) =
    (unescape tail).map fun symbols => (text.filter isKept).map .byte ++ symbols := by
  induction text with
  | nil => simp
  | cons c text ih =>
    rw [escaped_cons, append_assoc, unescape_piece, ih, Option.map_map, filter_cons]
    cases isKept c <;> rfl

theorem nul_notMem_json {text : Bytes} (htext : jsonSpecial c = some text) : (0 : Byte) ∉ text := by
  obtain ⟨kind, rfl, hne, -⟩ := jsonSpecial_cases htext
  simp [hne.symm]

/-- The buffer holds a NUL-terminated body of a JSON string that stands for a start of the
source without the control characters that have no escape. -/
def EmitsJson (src : CString) (dstLen : Nat) : Prop :=
  ∃ last lens, anChangeJsonDataSymboToDst src dstLen = some (last, lens) ∧
    last.dst.length = dstLen ∧ (0 : Byte) ∈ last.dst ∧
    ∃ before, before <+: src.text ∧
      unescape (cstr last.dst) = some ((before.filter isKept).map .byte)

end Json

/-- The text is a valid one just if no escape of two bytes is met with two bytes of room. -/
theorem anChangeJsonDataSymboToDst_emits_iff (src : CString) (dstLen : Nat) (hlow : 2 ≤ dstLen)
    (hhigh : dstLen < 2 ^ 32) :
    EmitsJson src dstLen ↔
      ¬ ∃ before c after, src.text = before ++ c :: after ∧ (piece jsonSpecial c).length = 2 ∧
        (escaped jsonSpecial before).length + 2 = dstLen := by
  have hcut : CutFrom jsonSpecial dstLen 0 src.text ↔
      ∃ before c after, src.text = before ++ c :: after ∧ (piece jsonSpecial c).length = 2 ∧
        (escaped jsonSpecial before).length + 2 = dstLen := by
    simp only [CutFrom, Nat.zero_add]
  obtain ⟨last, lens, before, after, half, hrun, hsplit, hfills, hhalf⟩ :=
    @changeLoop_text jsonSpecial dstLen ⟨List.replicate dstLen 0, 0⟩ [] src.text
      (holds_blank (by omega)) hhigh piece_json_length (by omega)
  rw [nil_append] at hfills
  have hnul : (0 : Byte) ∉ escaped jsonSpecial before := by
    refine nul_notMem_escaped (fun _ _ => nul_notMem_json) fun hmem => src.noNul ?_
    rw [hsplit]
    exact mem_append_left _ hmem
  rw [← hcut]
  obtain ⟨rfl, hnot⟩ | ⟨⟨c, after', -, hpiece, rfl⟩, hcut⟩ := hhalf
  · refine iff_of_true ⟨last, lens, hrun, hfills.length_eq, nul_mem_of_fills hfills, before,
      ⟨after, hsplit.symm⟩, ?_⟩ hnot
    rw [append_nil] at hfills
    have htext := unescape_escaped before []
    rw [append_nil] at htext
    rw [cstr_of_fills hfills hnul, htext]
    simp [JsonBody.unescape]
  · refine iff_of_false ?_ (not_not_intro hcut)
    rintro ⟨last', lens', hrun', -, -, before', -, hread⟩
    rw [anChangeJsonDataSymboToDst, changeToDst, hrun] at hrun'
    grind [take_piece_json, cstr_of_fills, unescape_escaped, JsonBody.unescape_backslash]

namespace EscapeWitness

theorem plain_noNul : (0 : Byte) ∉ ascii "a<b\"" := by
  decide

def plain : CString := ⟨ascii "a<b\"", plain_noNul⟩

theorem plain_text : plain.text = [97, 60, 98, 34] := by
  decide

theorem respects_plain :
    Roomy plain.text 8 ∧ Respects 8 (anChangeHtmlLtToDst plain 8) := by
  have hroomy : Roomy plain.text 8 := by
    rw [← fits_html_iff, plain_text, fits_cons, fits_cons, fits_cons, fits_cons]
    refine ⟨by decide, by decide, by decide, by decide, ?_⟩
    exact fun before c after heq => absurd heq (by simp)
  exact ⟨hroomy, (anChangeHtmlLtToDst_respects plain 8 (by omega) (by omega)).1 hroomy⟩

theorem less_noNul : (0 : Byte) ∉ ascii "<<" := by
  decide

def less : CString := ⟨ascii "<<", less_noNul⟩

/-- After the first `<` the length is 4 and the room is about `2 ^ 32`, so that the second one
is written behind the buffer. -/
theorem not_respects_less : anChangeHtmlLtToDst less 2 = none ∧
    ¬ Respects 2 (anChangeHtmlLtToDst less 2) := by
  have hnone : anChangeHtmlLtToDst less 2 = none := by
    decide +kernel
  refine ⟨hnone, ?_⟩
  rintro ⟨last, lens, hrun, -⟩
  rw [hnone] at hrun
  cases hrun

theorem emits_plain : EmitsJson plain 8 := by
  refine (anChangeJsonDataSymboToDst_emits_iff plain 8 (by omega) (by omega)).mpr ?_
  rintro ⟨before, c, after, heq, hpiece, hlen⟩
  have hcut : CutFrom jsonSpecial 8 0 [97, 60, 98, 34] :=
    ⟨before, c, after, plain_text ▸ heq, hpiece, by omega⟩
  rw [cutFrom_cons, cutFrom_cons, cutFrom_cons, cutFrom_cons] at hcut
  obtain hcut | hcut | hcut | hcut | ⟨before, c, after, hcut, -⟩ := hcut
  · exact absurd hcut (by decide)
  · exact absurd hcut (by decide)
  · exact absurd hcut (by decide)
  · exact absurd hcut (by decide)
  · simp at hcut

theorem quote_noNul : (0 : Byte) ∉ ascii "\"" := by
  decide

def quote : CString := ⟨ascii "\"", quote_noNul⟩

/-- The buffer holds a single backslash. -/
theorem not_emits_quote :
    anChangeJsonDataSymboToDst quote 2 = some (⟨[92, 0], 2⟩, [2]) ∧
      JsonBody.unescape (cstr [92, 0]) = none ∧ ¬ EmitsJson quote 2 := by
  have hrun : anChangeJsonDataSymboToDst quote 2 = some (⟨[92, 0], 2⟩, [2]) := by
    decide +kernel
  have hnone : JsonBody.unescape (cstr [92, 0]) = none := by
    decide
  refine ⟨hrun, hnone, ?_⟩
  rintro ⟨last, lens, hrun', -, -, before, -, hread⟩
  rw [hrun] at hrun'
  cases hrun'
  rw [hnone] at hread
  cases hread

end EscapeWitness

end Escape

end WaterWall
