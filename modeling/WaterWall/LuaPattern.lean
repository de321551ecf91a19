/-
Lua patterns of single characters, repetitions and captures, matched in the order in which
`do_match` of Lua 5.1 tries them.  A capture that is closed without being open, one that is
still open at the end of a match, and a 33rd one raise an error, which is `none`.  Classes,
sets and anchors are left out.
-/
import WaterWall.ByteText

namespace LuaPattern

open ByteText List

/-- What a byte of a pattern that is not a parenthesis stands for. -/
inductive Single where
  | char (b : Byte)
  | any
  deriving DecidableEq

namespace Single

def of (b : Byte) : Single :=
  if b = 46 then .any else .char b

def accepts : Single → Byte → Bool
  | char b, c => b == c
  | any, _ => true

end Single

inductive Item where
  | one (single : Single)
  | lazy (single : Single)
  | greedy (single : Single)
  | optional (single : Single)
  | openCapture
  | closeCapture
  | position
  deriving DecidableEq

/-- The items of a pattern without `%` and `[`. -/
def parse : Bytes → List Item
  | [] => []
  | [b] =>
    if b = 40 then [.openCapture] else if b = 41 then [.closeCapture] else [.one (.of b)]
  | b :: c :: rest =>
    if b = 40 then
      if c = 41 then .position :: parse rest else .openCapture :: parse (c :: rest)
    else if b = 41 then .closeCapture :: parse (c :: rest)
    else if c = 42 then .greedy (.of b) :: parse rest
    else if c = 43 then .one (.of b) :: .greedy (.of b) :: parse rest
    else if c = 45 then .lazy (.of b) :: parse rest
    else if c = 63 then .optional (.of b) :: parse rest
    else .one (.of b) :: parse (c :: rest)

/-- The second way is tried where the first one fails. -/
def orTry : Option Bool → Option Bool → Option Bool
  | some false, other => other
  | result, _ => result

/-- `min_expand`. -/
def repeatLazy (single : Single) (next : Bytes → Option Bool) : Bytes → Option Bool
  | [] => next []
  | b :: text =>
    orTry (next (b :: text))
      (if single.accepts b then repeatLazy single next text else some false)

/-- `max_expand`. -/
def repeatGreedy (single : Single) (next : Bytes → Option Bool) : Bytes → Option Bool
  | [] => next []
  | b :: text =>
    if single.accepts b then orTry (repeatGreedy single next text) (next (b :: text))
    else next (b :: text)

/-- Whether the items match the beginning of a text, with the numbers of captures so far and
of those that are open. -/
def here : List Item → Nat → Nat → Bytes → Option Bool
  | [], _, opened, _ => if opened = 0 then some true else none
  | .one single :: items, level, opened, text =>
    match text with
    | [] => some false
    | b :: rest => if single.accepts b then here items level opened rest else some false
  | .lazy single :: items, level, opened, text =>
    repeatLazy single (here items level opened) text
  | .greedy single :: items, level, opened, text =>
    repeatGreedy single (here items level opened) text
  | .optional single :: items, level, opened, text =>
    match text with
    | [] => here items level opened []
    | b :: rest =>
      if single.accepts b then
        orTry (here items level opened rest) (here items level opened text)
      else here items level opened text
  | .openCapture :: items, level, opened, text =>
    if level < 32 then here items (level + 1) (opened + 1) text else none
  | .closeCapture :: items, level, opened, text =>
    if opened = 0 then none else here items level (opened - 1) text
  | .position :: items, level, opened, text =>
    if level < 32 then here items (level + 1) opened text else none

/-- `find`, counted from 0. -/
def find (items : List Item) : Bytes → Option (Option Nat)
  | [] => (here items 0 0 []).map fun found => if found then some 0 else none
  | b :: text =>
    match here items 0 0 (b :: text) with
    | none => none
    | some true => some (some 0)
    | some false => (find items text).map (Option.map (· + 1))

/-- The matcher raises no error and answers a property of the text. -/
structure Decides (next : Bytes → Option Bool) (P : Bytes → Prop) : Prop where
  yes : ∀ text, P text → next text = some true
  no : ∀ text, ¬ P text → next text = some false

namespace Decides

variable {next : Bytes → Option Bool} {P Q : Bytes → Prop} {items : List Item}

theorem congr (hnext : Decides next P) (hiff : ∀ text, P text ↔ Q text) : Decides next Q :=
  ⟨fun text htext => hnext.yes text ((hiff text).mpr htext),
    fun text htext => hnext.no text fun hp => htext ((hiff text).mp hp)⟩

theorem nil : Decides (here [] 0 0) fun _ => True :=
  ⟨fun _ _ => rfl, fun _ hnot => absurd trivial hnot⟩

theorem one (b : Byte) (hnext : Decides (here items 0 0) P) :
    Decides (here (.one (.char b) :: items) 0 0) fun text => ∃ rest, text = b :: rest ∧ P rest := by
  constructor
  · rintro _ ⟨rest, rfl, hrest⟩
    simp [here, Single.accepts, hnext.yes rest hrest]
  · intro text hnot
    cases text with
    | nil => rfl
    | cons c rest =>
      by_cases hsame : b = c
      · have hrest : ¬ P rest := fun hrest => hnot ⟨rest, by rw [hsame], hrest⟩
        simp [here, Single.accepts, hsame, hnext.no rest hrest]
      · simp [here, Single.accepts, hsame]

theorem repeatLazy (b : Byte) (hnext : Decides next P) :
    Decides (LuaPattern.repeatLazy (.char b) next) fun text =>
      ∃ count rest, text = List.replicate count b ++ rest ∧ P rest := by
  constructor
  · rintro _ ⟨count, rest, rfl, hrest⟩
    induction count with
    | zero =>
      cases rest with
      | nil => exact hnext.yes [] hrest
      | cons c rest => simp [LuaPattern.repeatLazy, hnext.yes _ hrest, orTry]
    | succ count ih =>
      rw [replicate_succ, cons_append, LuaPattern.repeatLazy, ih]
      by_cases hhere : P (b :: (List.replicate count b ++ rest))
      · rw [hnext.yes _ hhere]
        rfl
      · rw [hnext.no _ hhere]
        simp [orTry, Single.accepts]
  · intro text hnot
    have hhere : ¬ P text := fun htext => hnot ⟨0, text, rfl, htext⟩
    induction text with
    | nil => exact hnext.no [] hhere
    | cons c text ih =>
      rw [LuaPattern.repeatLazy, hnext.no _ hhere]
      by_cases hsame : b = c
      · subst hsame
        have hrest : ¬ ∃ count rest, text = List.replicate count b ++ rest ∧ P rest := by
          rintro ⟨count, rest, rfl, hrest⟩
          exact hnot ⟨count + 1, rest, rfl, hrest⟩
        simp [orTry, Single.accepts, ih hrest fun htext => hrest ⟨0, text, rfl, htext⟩]
      · simp [orTry, Single.accepts, hsame]

theorem lazy (b : Byte) (hnext : Decides (here items 0 0) P) :
    Decides (here (.lazy (.char b) :: items) 0 0) fun text =>
      ∃ count rest, text = List.replicate count b ++ rest ∧ P rest :=
  hnext.repeatLazy b

theorem literal (word : Bytes) (hnext : Decides (here items 0 0) P) :
    Decides (here (word.map (fun b => .one (.char b)) ++ items) 0 0) fun text =>
      ∃ rest, text = word ++ rest ∧ P rest := by
  induction word with
  | nil => exact hnext.congr fun text => by simp
  | cons b word ih => exact (ih.one b).congr fun text => by simp

theorem lazies (b : Byte) (count : Nat) (hnext : Decides (here items 0 0) P) :
    Decides (here (List.replicate (count + 1) (.lazy (.char b)) ++ items) 0 0) fun text =>
      ∃ count rest, text = List.replicate count b ++ rest ∧ P rest := by
  induction count with
  | zero => exact hnext.lazy b
  | succ count ih =>
    refine (ih.lazy b).congr fun text => ?_
    constructor
    · rintro ⟨first, _, rfl, second, rest, rfl, hrest⟩
      exact ⟨first + second, rest, by rw [replicate_add, append_assoc], hrest⟩
    · rintro ⟨first, rest, rfl, hrest⟩
      exact ⟨0, _, rfl, first, rest, rfl, hrest⟩

theorem find_eq_some_iff (hnext : Decides (here items 0 0) P) {text : Bytes} {index : Nat} :
    find items text = some (some index) ↔
      index ≤ text.length ∧ P (text.drop index) ∧ ∀ before < index, ¬ P (text.drop before) := by
  induction text generalizing index with
  | nil =>
    by_cases hhere : P []
    · simp [find, hnext.yes _ hhere, hhere]
      grind
    · simp [find, hnext.no _ hhere, hhere]
  | cons b text ih =>
    by_cases hhere : P (b :: text)
    · rw [find, hnext.yes _ hhere]
      constructor
      · intro hfound
        cases hfound
        exact ⟨Nat.zero_le _, hhere, fun before hbefore => absurd hbefore (Nat.not_lt_zero _)⟩
      · rintro ⟨-, -, hfirst⟩
        cases index with
        | zero => rfl
        | succ index => exact absurd hhere (hfirst 0 (Nat.succ_pos index))
    · rw [find, hnext.no _ hhere]
      cases index with
      | zero => simp [hhere]
      | succ index =>
        have hshift : (find items text).map (Option.map (· + 1)) = some (some (index + 1)) ↔
            find items text = some (some index) := by
          cases find items text with
          | none => simp
          | some found => cases found <;> simp
        refine hshift.trans (ih.trans ?_)
        simp only [length_cons, drop_succ_cons, Nat.add_le_add_iff_right]
        refine and_congr_right fun _ => and_congr_right fun _ => ?_
        constructor
        · intro hfirst before hbefore
          cases before with
          | zero => exact hhere
          | succ before => exact hfirst before (Nat.lt_of_succ_lt_succ hbefore)
        · exact fun hfirst before hbefore => hfirst (before + 1) (Nat.succ_lt_succ hbefore)

theorem find_ne_none (hnext : Decides (here items 0 0) P) (text : Bytes) :
    find items text ≠ none := by
  induction text with
  | nil =>
    by_cases hhere : P []
    · simp [find, hnext.yes _ hhere]
    · simp [find, hnext.no _ hhere]
  | cons b text ih =>
    by_cases hhere : P (b :: text)
    · simp [find, hnext.yes _ hhere]
    · simpa [find, hnext.no _ hhere] using ih

end Decides

section Parsing

/-- A byte that stands for itself and repeats nothing. -/
def IsLiteral (b : Byte) : Prop :=
  b ∉ ascii "()%.[*+-?"

theorem parse_cons {b c : Byte} (hb : b ∉ ascii "().") (hc : c ∉ ascii "*+-?") (rest : Bytes) :
    parse (b :: c :: rest) = .one (.char b) :: parse (c :: rest) := by
  simp [ascii] at hb hc
  simp [parse, Single.of, hb, hc]

theorem parse_pairs (count : Nat) (rest : Bytes) :
    parse (List.replicate (2 * count) 45 ++ rest) =
      List.replicate count (.lazy (.char 45)) ++ parse rest := by
  induction count with
  | zero => rfl
  | succ count ih =>
    rw [Nat.mul_succ, replicate_succ, replicate_succ, cons_append,
      cons_append, parse, ih]
    rfl

theorem parse_literal {word : Bytes} (hword : ∀ b ∈ word, IsLiteral b) (c : Byte)
    (hc : c ∉ ascii "*+-?") (rest : Bytes) :
    parse (word ++ c :: rest) = word.map (fun b => .one (.char b)) ++ parse (c :: rest) := by
  induction word with
  | nil => rfl
  | cons b word ih =>
    rw [forall_mem_cons] at hword
    have hb : b ∉ ascii "()." := fun hmem => by
      have hliteral := hword.1
      simp [IsLiteral, ascii] at hliteral hmem
      grind
    cases word with
    | nil => exact parse_cons hb hc rest
    | cons d word =>
      rw [forall_mem_cons] at hword
      have hd : d ∉ ascii "*+-?" := fun hmem => by
        have hliteral := hword.2.1
        simp [IsLiteral, ascii] at hliteral hmem
        grind
      rw [cons_append, cons_append, parse_cons hb hd, map_cons,
        cons_append, ← ih (forall_mem_cons.mpr hword.2)]
      rfl

end Parsing

end LuaPattern
