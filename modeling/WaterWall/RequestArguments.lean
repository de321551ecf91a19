/-
The request line with its arguments: _mergeParms, _mergeParmsByGet and phraseRequestLine
of phrase.lua.  The line is cut at its first slash and at the first `HTTP` in it, and the
query is taken off for GET only.  So a request `m p?q v` is read as written when `HTTP`
stands in none of the three before the version and a query comes with GET; an `HTTP` in
the query does no harm only when there is no argument from there on.
-/
import WaterWall.RequestPhrase
import Mathlib.Data.List.DropRight

namespace WaterWall

namespace Http

open ByteText List Option

/-- A name that is given once has a string, a name that is given again an array. -/
inductive ArgValue where
  | single (value : Bytes)
  | many (values : List Bytes)
  deriving DecidableEq, Repr

abbrev Args := Bytes → Option ArgValue

def noArgs : Args := fun _ => none

/-- The matches of `(.-)` up to each delimiter. -/
def gmatchUpTo (delimiter : Byte) (front : Bytes) : Bytes → List Bytes
  | [] => []
  | b :: rest =>
    if b = delimiter then front :: gmatchUpTo delimiter [] rest
    else gmatchUpTo delimiter (front ++ [b]) rest

/-- An empty string is not split. -/
def split (str : Bytes) (delimiter : Byte) : Option (List Bytes) :=
  if str = [] then none else some (gmatchUpTo delimiter [] (str ++ [delimiter]))

def addArg (args : Args) (parmName parmValue : Bytes) : Args :=
  Function.update args parmName (some (match args parmName with
    | none => .single parmValue
    | some (.many arrVal) => .many (arrVal ++ [parmValue])
    | some (.single arrVal) => .many [arrVal, parmValue]))

/-- The body of the loop over the parameters; one without an equals sign is passed over. -/
def mergeParm (args : Args) (v : Bytes) : Args :=
  match findText (ascii "=") v with
  | none => args
  | some sign => addArg args (v.take sign) (v.drop (sign + 1))

def mergeParms (argsStr : Bytes) (args : Args) : Args :=
  match split argsStr 38 with
  | none => args
  | some argsTab => argsTab.foldl mergeParm args

def mergeParmsByGet (uri : Bytes) (args : Args) : Bytes × Args :=
  match findText (ascii "?") uri with
  | none => (uri, args)
  | some eof => (uri.take eof, mergeParms (uri.drop (eof + 1)) args)

/-- `phraseRequestLine` with what `get_uri_args` returns. -/
def phraseRequestLineArgs (data : Bytes) : Option (Option (RequestLine × Args)) :=
  match findText crlf data with
  | none => some none
  | some eof => do
      let line := data.take (eof + 1)
      let firstSlash ← findText (ascii "/") line
      let methed := removeBlanks (line.take firstSlash)
      let lastSlash ← findText (ascii "HTTP") line
      let uri := removeBlanks ((line.take lastSlash).drop firstSlash)
      let (uri, args) :=
        if methed = ascii "GET" then mergeParmsByGet uri noArgs else (uri, noArgs)
      return some (⟨methed, uri, line.drop lastSlash⟩, args)

section FindText

variable {pattern text front rest : Bytes} {c : Byte}

theorem findText_eq_none_iff : findText pattern text = none ↔ ¬ pattern <:+: text := by
  induction text with
  | nil => simp [findText]
  | cons b text ih =>
    rw [findText, infix_cons_iff]
    grind [map_eq_none_iff]

theorem findText_eq_some {index : Nat} (hfind : findText pattern text = some index) :
    ∃ rest, text = text.take index ++ (pattern ++ rest) ∧ (text.take index).length = index := by
  induction text generalizing index with
  | nil =>
    rw [findText] at hfind
    split_ifs at hfind with hnil
    cases hfind
    exact ⟨[], by simp [hnil], rfl⟩
  | cons b text ih =>
    rw [findText] at hfind
    split_ifs at hfind with hstarts
    · cases hfind
      obtain ⟨rest, hrest⟩ := hstarts
      exact ⟨rest, by simp [hrest], rfl⟩
    grind [map_eq_some_iff]

theorem findText_first (hfront : c ∉ front) :
    findText (c :: pattern) (front ++ (c :: pattern ++ rest)) = some front.length := by
  induction front with
  | nil =>
    rw [nil_append, cons_append, findText, if_pos]
    · rfl
    · exact prefix_append (c :: pattern) rest
  | cons b front ih =>
    rw [mem_cons, not_or] at hfront
    rw [cons_append, findText, if_neg, ih hfront.2]
    · rfl
    · intro hstarts
      exact hfront.1 (cons_prefix_cons.mp hstarts).1

theorem starts_append_iff (hc : c ∉ pattern) :
    pattern <+: front ++ c :: rest ↔ pattern <+: front := by
  constructor
  · intro hstarts
    obtain hshort | hlong := prefix_or_prefix_of_prefix hstarts (prefix_append front _)
    · exact hshort
    · obtain ⟨more, rfl⟩ := hlong
      cases more with
      | nil => simp
      | cons b more =>
        rw [prefix_append_right_inj, cons_prefix_cons] at hstarts
        simp [hstarts.1] at hc
  · exact fun hstarts => hstarts.trans (prefix_append front _)

theorem findText_append_cons (hc : c ∉ pattern) (hne : pattern ≠ []) :
    findText pattern (front ++ c :: rest) =
      (findText pattern front).or ((findText pattern rest).map (· + (front.length + 1))) := by
  induction front with
  | nil =>
    have hstarts : ¬ pattern <+: c :: rest := fun hstarts =>
      hne (prefix_nil.mp ((@starts_append_iff pattern [] rest c hc).mp hstarts))
    simp [findText, hstarts, hne]
  | cons b front ih =>
    have hsame := @starts_append_iff pattern (b :: front) rest c hc
    rw [cons_append] at hsame
    rw [cons_append, findText, findText]
    by_cases hstarts : pattern <+: b :: front
    · rw [if_pos (hsame.mpr hstarts), if_pos hstarts]
      rfl
    simp_all [map_or]

end FindText

section Merging

/-- The values that a name is given. -/
def values (pairs : List (Bytes × Bytes)) (name : Bytes) : List Bytes :=
  (pairs.filter fun pair => pair.1 = name).map Prod.snd

/-- What a table has for a name with these values. -/
def entry : List Bytes → Option ArgValue
  | [] => none
  | [value] => some (.single value)
  | values => some (.many values)

theorem entry_injective {first second : List Bytes} (hsame : entry first = entry second) :
    first = second := by
  match first, second with
  | [], [] => rfl
  | [], [_] | [], _ :: _ :: _ | [_], [] | [_], _ :: _ :: _ | _ :: _ :: _, []
  | _ :: _ :: _, [_] => cases hsame
  | [_], [_] =>
    cases hsame
    rfl
  | _ :: _ :: _, _ :: _ :: _ =>
    cases hsame
    rfl

/-- The table of a list of named values. -/
def argsOf (pairs : List (Bytes × Bytes)) : Args := fun name =>
  entry (values pairs name)

theorem values_append (first second : List (Bytes × Bytes)) (name : Bytes) :
    values (first ++ second) name = values first name ++ values second name := by
  simp [values]

theorem addArg_argsOf (pairs : List (Bytes × Bytes)) (parmName parmValue : Bytes) :
    addArg (argsOf pairs) parmName parmValue = argsOf (pairs ++ [(parmName, parmValue)]) := by
  funext name
  rw [argsOf, values_append]
  obtain rfl | hne := eq_or_ne name parmName
  · have hlast : values [(name, parmValue)] name = [parmValue] := by
      simp [values]
    rw [addArg, Function.update_self, hlast, argsOf]
    match values pairs name with
    | [] => rfl
    | [_] => rfl
    | _ :: _ :: _ => rfl
  · have hlast : values [(parmName, parmValue)] name = [] := by
      simp [values, hne.symm]
    rw [addArg, Function.update_of_ne hne, hlast, append_nil]
    rfl

/-- The name and the value of a parameter. -/
def argument (parm : Bytes) : Option (Bytes × Bytes) :=
  if 61 ∈ parm then
    some (parm.takeWhile (· ≠ 61), (parm.dropWhile (· ≠ 61)).tail)
  else none

/-- The arguments of a query: its parameters that have a name and a value, in order. -/
def arguments (query : Bytes) : List (Bytes × Bytes) :=
  (query.splitOn 38).filterMap argument

theorem argument_of_not_mem {parm : Bytes} (hparm : 61 ∉ parm) : argument parm = none :=
  if_neg hparm

theorem argument_append_cons {name : Bytes} (hname : 61 ∉ name) (value : Bytes) :
    argument (name ++ 61 :: value) = some (name, value) := by
  have hall : ∀ b ∈ name, (decide (b ≠ 61)) = true := by
    intro b hb
    simpa using ne_of_mem_of_not_mem hb hname
  rw [argument, if_pos (by simp), takeWhile_append_of_pos hall,
    dropWhile_append_of_pos hall]
  simp

theorem mergeParm_argsOf (pairs : List (Bytes × Bytes)) (parm : Bytes) :
    mergeParm (argsOf pairs) parm = argsOf (pairs ++ (argument parm).toList) := by
  by_cases hparm : 61 ∈ parm
  · obtain ⟨name, value, rfl, hname⟩ := eq_append_cons_of_mem hparm
    have hfind : findText (ascii "=") (name ++ 61 :: value) = some name.length :=
      @findText_first [] name value 61 hname
    rw [mergeParm, hfind, argument_append_cons hname, toList_some, ← addArg_argsOf]
    simp
  · have hfind : findText (ascii "=") parm = none :=
      findText_eq_none_iff.mpr fun hoccurs => hparm (hoccurs.subset (by decide))
    rw [mergeParm, hfind, argument_of_not_mem hparm]
    simp

theorem foldl_mergeParm (parms : List Bytes) (pairs : List (Bytes × Bytes)) :
    parms.foldl mergeParm (argsOf pairs) = argsOf (pairs ++ parms.filterMap argument) := by
  induction parms generalizing pairs with
  | nil => simp
  | cons parm parms ih =>
    rw [foldl_cons, mergeParm_argsOf, ih, append_assoc]
    cases hparm : argument parm with
    | none => simp [hparm]
    | some pair => simp [hparm]

theorem gmatchUpTo_eq {delimiter : Byte} {front : Bytes} (hfront : delimiter ∉ front)
    (text : Bytes) :
    gmatchUpTo delimiter front (text ++ [delimiter]) = (front ++ text).splitOn delimiter := by
  induction text generalizing front with
  | nil => simp [gmatchUpTo, splitOn_eq_singleton hfront]
  | cons b text ih =>
    rw [cons_append, gmatchUpTo]
    simp_all [splitOn_append_cons_self_of_not_mem, Ne.symm]

theorem mergeParms_eq (argsStr : Bytes) :
    mergeParms argsStr noArgs = argsOf (arguments argsStr) := by
  rw [mergeParms, split]
  split_ifs with hnil
  · subst hnil
    rfl
  · rw [gmatchUpTo_eq not_mem_nil]
    exact foldl_mergeParm (argsStr.splitOn 38) []

theorem mergeParmsByGet_of_not_mem {uri : Bytes} (huri : 63 ∉ uri) (args : Args) :
    mergeParmsByGet uri args = (uri, args) := by
  have hfind : findText (ascii "?") uri = none :=
    findText_eq_none_iff.mpr fun hoccurs => huri (hoccurs.subset (by decide))
  rw [mergeParmsByGet, hfind]

theorem mergeParmsByGet_append_cons {front : Bytes} (hfront : 63 ∉ front) (text : Bytes) :
    mergeParmsByGet (front ++ 63 :: text) noArgs = (front, argsOf (arguments text)) := by
  have hfind : findText (ascii "?") (front ++ 63 :: text) = some front.length :=
    @findText_first [] front text 63 hfront
  rw [mergeParmsByGet, hfind, ← mergeParms_eq]
  simp

theorem mergeParmsByGet_fst (uri : Bytes) :
    (mergeParmsByGet uri noArgs).1 = uri.takeWhile fun b => b ≠ 63 := by
  by_cases hmark : 63 ∈ uri
  · obtain ⟨front, text, rfl, hfront⟩ := eq_append_cons_of_mem hmark
    rw [mergeParmsByGet_append_cons hfront, takeWhile_append_of_pos]
    · simp
    · intro b hb
      simpa using ne_of_mem_of_not_mem hb hfront
  · rw [mergeParmsByGet_of_not_mem hmark, takeWhile_eq_self_iff.mpr]
    intro b hb
    simpa using ne_of_mem_of_not_mem hb hmark

/-- The line is that of the parser without the arguments. -/
theorem phraseRequestLineArgs_line (data : Bytes) :
    (phraseRequestLineArgs data).map (Option.map Prod.fst) = phraseRequestLine data := by
  rw [phraseRequestLineArgs, phraseRequestLine]
  cases findText crlf data with
  | none => rfl
  | some eof =>
    dsimp only
    cases findText (ascii "/") (data.take (eof + 1)) with
    | none => rfl
    | some firstSlash =>
      cases findText (ascii "HTTP") (data.take (eof + 1)) with
      | none => rfl
      | some lastSlash =>
        grind [cutQuery.eq_1, mergeParmsByGet_fst]

end Merging

section Line

/-- The text before the first `HTTP`. -/
def beforeHttp (text : Bytes) : Bytes :=
  match findText (ascii "HTTP") text with
  | none => text
  | some index => text.take index

theorem beforeHttp_of_absent {text : Bytes} (htext : ¬ ascii "HTTP" <:+: text) :
    beforeHttp text = text := by
  rw [beforeHttp, findText_eq_none_iff.mpr htext]

theorem eq_beforeHttp_append {text : Bytes} (htext : ascii "HTTP" <:+: text) :
    ∃ rest, text = beforeHttp text ++ (ascii "HTTP" ++ rest) := by
  grind [findText_eq_none_iff, findText_eq_some, beforeHttp.eq_1]

theorem beforeHttp_append_cons {front rest : Bytes} {c : Byte} (hc : c ∉ ascii "HTTP") :
    beforeHttp (front ++ c :: rest) =
      if ascii "HTTP" <:+: front then beforeHttp front else front ++ c :: beforeHttp rest := by
  rw [beforeHttp, findText_append_cons hc (by decide)]
  split_ifs with hfront
  · grind [findText_eq_none_iff, findText_eq_some, beforeHttp.eq_1]
  · rw [findText_eq_none_iff.mpr hfront, none_or, beforeHttp]
    cases findText (ascii "HTTP") rest with
    | none => rfl
    | some index =>
      change (front ++ c :: rest).take (index + (front.length + 1)) = _
      rw [take_append, take_of_length_le (by omega)]
      congr 1
      rw [show index + (front.length + 1) - front.length = index + 1 by omega]
      rfl

/-- The target of a request: the path and, behind a question mark, the query. -/
def target (path : Bytes) : Option Bytes → Bytes
  | none => path
  | some query => path ++ 63 :: query

/-- What the method and the target are read as. -/
def readTarget (methed target : Bytes) : Bytes × Args :=
  let uri := if ascii "HTTP" <:+: methed then [] else beforeHttp target
  if methed = ascii "GET" then mergeParmsByGet uri noArgs else (uri, noArgs)

theorem removeBlanks_of_not_mem {text : Bytes} (htext : 32 ∉ text) :
    removeBlanks text = text := by
  rw [removeBlanks, filter_eq_self]
  intro b hb
  simpa using ne_of_mem_of_not_mem hb htext

theorem removeBlanks_append_blank {text : Bytes} (htext : 32 ∉ text) :
    removeBlanks (text ++ [32]) = text := by
  calc
    removeBlanks (text ++ [32]) = removeBlanks text ++ removeBlanks [32] :=
      filter_append text [32]
    _ = text := by
      rw [removeBlanks_of_not_mem htext]
      exact append_nil text

variable {methed text tail : Bytes}

theorem uri_eq (htext : 32 ∉ text) :
    ∃ lastSlash, findText (ascii "HTTP")
        (methed ++ 32 :: (text ++ 32 :: (ascii "HTTP" ++ tail))) = some lastSlash ∧
      removeBlanks (((methed ++ 32 :: (text ++ 32 :: (ascii "HTTP" ++ tail))).take lastSlash).drop
        (methed.length + 1)) = if ascii "HTTP" <:+: methed then [] else beforeHttp text := by
  have hblank : (32 : Byte) ∉ ascii "HTTP" := by
    decide
  have hversion : findText (ascii "HTTP") (ascii "HTTP" ++ tail) = some 0 := by
    exact @findText_first (ascii "TTP") [] tail 72 not_mem_nil
  rw [findText_append_cons hblank (by decide), findText_append_cons hblank (by decide), hversion]
  split_ifs with hmethed
  · cases hfind : findText (ascii "HTTP") methed with
    | none => exact absurd hmethed (findText_eq_none_iff.mp hfind)
    | some index =>
      obtain ⟨-, -, hlength⟩ := findText_eq_some hfind
      have hle : index ≤ methed.length := by
        simpa using hlength
      refine ⟨index, rfl, ?_⟩
      rw [take_append_of_le_length hle, drop_eq_nil_of_le (by simp)]
      rfl
  · rw [findText_eq_none_iff.mpr hmethed, none_or, beforeHttp]
    have hdrop (count : Nat) :
        ((methed ++ 32 :: (text ++ 32 :: (ascii "HTTP" ++ tail))).take
          (count + (methed.length + 1))).drop (methed.length + 1) =
        (text ++ 32 :: (ascii "HTTP" ++ tail)).take count := by
      rw [drop_take, append_cons, drop_left' (by simp)]
      congr 1
      omega
    cases hfind : findText (ascii "HTTP") text with
    | none =>
      refine ⟨_, rfl, ?_⟩
      rw [hdrop, append_cons, take_left' (by simp)]
      exact removeBlanks_append_blank htext
    | some index =>
      obtain ⟨-, -, hlength⟩ := findText_eq_some hfind
      have hle : index ≤ text.length := by
        simpa using hlength
      refine ⟨_, rfl, ?_⟩
      rw [hdrop, take_append_of_le_length hle]
      exact removeBlanks_of_not_mem fun hmem => htext (mem_of_mem_take hmem)

theorem phraseRequestLineArgs_eq (header : Bytes)
    (hmethed : 47 ∉ methed ∧ 32 ∉ methed ∧ 13 ∉ methed)
    (htext : 32 ∉ text ∧ 13 ∉ text) (hslash : ∃ more, text = 47 :: more) (htail : 13 ∉ tail) :
    ∃ version, phraseRequestLineArgs
        (methed ++ 32 :: (text ++ 32 :: (ascii "HTTP" ++ tail)) ++ (crlf ++ header)) =
      some (some (⟨methed, (readTarget methed text).1, version⟩,
        (readTarget methed text).2)) := by
  obtain ⟨more, hmore⟩ := hslash
  have hline : (13 : Byte) ∉ methed ++ 32 :: (text ++ 32 :: (ascii "HTTP" ++ tail)) := by
    have hhttp : (13 : Byte) ∉ ascii "HTTP" := by
      decide
    simp [hmethed.2.2, htext.2, htail, hhttp]
  have heof : findText crlf
      (methed ++ 32 :: (text ++ 32 :: (ascii "HTTP" ++ tail)) ++ (crlf ++ header)) =
        some (methed ++ 32 :: (text ++ 32 :: (ascii "HTTP" ++ tail))).length :=
    @findText_first [10] _ header 13 hline
  obtain ⟨lastSlash, hlast, huri⟩ := @uri_eq methed text (tail ++ [13]) htext.1
  rw [phraseRequestLineArgs, heof]
  set line := methed ++ 32 :: (text ++ 32 :: (ascii "HTTP" ++ (tail ++ [13]))) with hdef
  have htake : (methed ++ 32 :: (text ++ 32 :: (ascii "HTTP" ++ tail)) ++ (crlf ++ header)).take
      ((methed ++ 32 :: (text ++ 32 :: (ascii "HTTP" ++ tail))).length + 1) = line := by
    rw [take_length_add_append]
    simp [crlf, hdef]
  have hfirst : findText (ascii "/") line = some (methed.length + 1) := by
    have hat := @findText_first [] (methed ++ [32])
      (more ++ 32 :: (ascii "HTTP" ++ (tail ++ [13]))) 47 (by simp [hmethed.1])
    rw [length_append] at hat
    rw [hdef, hmore, append_cons]
    exact hat
  have hmethed' : removeBlanks (line.take (methed.length + 1)) = methed := by
    rw [hdef, append_cons, take_left' (by simp)]
    exact removeBlanks_append_blank hmethed.2.1
  refine ⟨line.drop lastSlash, ?_⟩
  dsimp only
  rw [htake, hfirst, bind_eq_bind, bind_some, hlast, bind_some,
    hmethed', huri]
  rfl

end Line

section Cut

variable {query part rest : Bytes}

theorem arguments_append_cons (first second : Bytes) :
    arguments (first ++ 38 :: second) = arguments first ++ arguments second := by
  rw [arguments, splitOn_append_cons_self, filterMap_append]
  rfl

theorem arguments_of_not_mem (hpart : 38 ∉ part) : arguments part = (argument part).toList := by
  rw [arguments, splitOn_eq_singleton hpart]
  cases hargument : argument part <;> simp [hargument]

theorem arguments_eq_nil_iff (query : Bytes) : arguments query = [] ↔ 61 ∉ query := by
  induction hlength : query.length using Nat.strong_induction_on generalizing query with
  | h length ih =>
    by_cases hmem : 38 ∈ query
    · obtain ⟨first, second, rfl, -⟩ := eq_append_cons_of_mem hmem
      rw [length_append, length_cons] at hlength
      rw [arguments_append_cons, append_eq_nil_iff, ih _ (by omega) first rfl,
        ih _ (by omega) second rfl]
      simp
    grind [arguments_of_not_mem, argument.eq_1]

theorem exists_arguments_append (front : Bytes) : ∃ before, ∀ tail,
    arguments (front ++ tail) = before ++ arguments (front.rtakeWhile (· ≠ 38) ++ tail) := by
  obtain hnil | ⟨init, last, hconcat⟩ := eq_nil_or_concat (front.rdropWhile (· ≠ 38))
  · refine ⟨[], fun tail => ?_⟩
    have hall := rdropWhile_eq_nil_iff.mp hnil
    rw [rtakeWhile_eq_self_iff.mpr hall, nil_append]
  · refine ⟨arguments init, fun tail => ?_⟩
    rw [concat_eq_append] at hconcat
    have hlast : last = 38 := by
      have hnot := rdropWhile_last_not (· ≠ 38) front
      rw [hconcat] at hnot
      simpa using hnot (concat_ne_nil last init)
    have hsplit := @List.rdropWhile_append_rtakeWhile Byte (· ≠ 38) front
    rw [hconcat, hlast] at hsplit
    rw [← arguments_append_cons]
    conv_lhs => rw [← hsplit]
    simp

theorem argsOf_append_iff (before first second : List (Bytes × Bytes)) :
    argsOf (before ++ first) = argsOf (before ++ second) ↔ values first = values second := by
  constructor
  · intro hsame
    funext name
    have hvalues := entry_injective (congrFun hsame name)
    rw [values_append, values_append] at hvalues
    exact append_cancel_left hvalues
  · intro hsame
    funext name
    rw [argsOf, argsOf, values_append, values_append, hsame]

theorem values_eq_nil {pairs : List (Bytes × Bytes)} (hvalues : values pairs = values []) :
    pairs = [] := by
  cases pairs with
  | nil => rfl
  | cons pair pairs =>
    have hname := congrFun hvalues pair.1
    simp [values] at hname

/-- From the parameter on in which `HTTP` first stands there is no equals sign. -/
def KeepsArguments (query : Bytes) : Prop :=
  ∀ rest, query = beforeHttp query ++ (ascii "HTTP" ++ rest) →
    61 ∉ (beforeHttp query).rtakeWhile (· ≠ 38) ∧ 61 ∉ rest

theorem values_cut_ne (hpart : 38 ∉ part) (hequals : 61 ∈ part) (rest : Bytes) :
    values (arguments part) ≠ values (arguments (part ++ (ascii "HTTP" ++ rest))) := by
  obtain ⟨name, value, rfl, hname⟩ := eq_append_cons_of_mem hequals
  have hwhole : ∃ more others, arguments (name ++ 61 :: value ++ (ascii "HTTP" ++ rest)) =
      (name, value ++ (ascii "HTTP" ++ more)) :: others := by
    have hplain {more : Bytes} (hmore : 38 ∉ more) :
        arguments (name ++ 61 :: value ++ (ascii "HTTP" ++ more)) =
          [(name, value ++ (ascii "HTTP" ++ more))] := by
      simp_all [ascii, arguments_of_not_mem, argument_append_cons]
    by_cases hmem : 38 ∈ rest
    · obtain ⟨more, others, rfl, hmore⟩ := eq_append_cons_of_mem hmem
      refine ⟨more, arguments others, ?_⟩
      rw [← append_assoc (ascii "HTTP"), ← append_assoc _ _ (38 :: others),
        arguments_append_cons, hplain hmore]
      rfl
    · exact ⟨rest, [], hplain hmem⟩
  obtain ⟨more, others, hwhole⟩ := hwhole
  rw [hwhole, arguments_of_not_mem hpart, argument_append_cons hname]
  intro hsame
  have hvalue := congrFun hsame name
  simp [values, ascii] at hvalue

theorem argsOf_beforeHttp_iff (query : Bytes) :
    argsOf (arguments (beforeHttp query)) = argsOf (arguments query) ↔ KeepsArguments query := by
  by_cases hoccurs : ascii "HTTP" <:+: query
  · obtain ⟨rest, hrest⟩ := eq_beforeHttp_append hoccurs
    obtain ⟨before, hbefore⟩ := exists_arguments_append (beforeHttp query)
    set part := (beforeHttp query).rtakeWhile (· ≠ 38) with hpart
    have hplain : 38 ∉ part := fun hmem => by
      simpa using mem_rtakeWhile_imp hmem
    have hcut := hbefore []
    rw [append_nil, append_nil] at hcut
    have hwhole := hbefore (ascii "HTTP" ++ rest)
    rw [← hrest] at hwhole
    rw [hcut, hwhole, argsOf_append_iff]
    constructor
    · intro hsame rest' hrest'
      obtain rfl : rest = rest' := by
        simpa using hrest.symm.trans hrest'
      rw [← hpart]
      have hno : 61 ∉ part := fun hequals => values_cut_ne hplain hequals rest hsame
      refine ⟨hno, fun hmem => ?_⟩
      rw [(arguments_eq_nil_iff part).mpr hno] at hsame
      have hnil := (arguments_eq_nil_iff _).mp (values_eq_nil hsame.symm)
      simp [hmem] at hnil
    · intro hkeeps
      obtain ⟨hno, hnone⟩ := hkeeps rest hrest
      have hhttp : (61 : Byte) ∉ ascii "HTTP" := by
        decide
      rw [(arguments_eq_nil_iff part).mpr hno, (arguments_eq_nil_iff _).mpr]
      simp only [mem_append, not_or]
      exact ⟨hno, hhttp, hnone⟩
  · rw [beforeHttp_of_absent hoccurs]
    refine iff_of_true rfl fun rest hrest => absurd ?_ hoccurs
    rw [hrest]
    exact ⟨beforeHttp query, rest, by simp⟩

end Cut

/-- A request line and what follows it. -/
def requestData (methed path : Bytes) (query : Option Bytes) (major minor : Byte)
    (header : Bytes) : Bytes :=
  methed ++ 32 :: (target path query ++ 32 :: (ascii "HTTP" ++ [47, major, 46, minor])) ++
    (crlf ++ header)

/-- The parts of a request line: a method of capitals, a path that starts with a slash, a query
and a version. -/
structure RequestParts (methed path : Bytes) (query : Option Bytes) (major minor : Byte) :
    Prop where
  methed : ∀ b ∈ methed, 65 ≤ b ∧ b ≤ 90
  slash : ∃ more, path = 47 :: more
  path : ∀ b ∈ path, b ≠ 32 ∧ b ≠ 13 ∧ b ≠ 10 ∧ b ≠ 63
  query : ∀ text, query = some text → ∀ b ∈ text, b ≠ 32 ∧ b ≠ 13 ∧ b ≠ 10
  version : (48 ≤ major ∧ major ≤ 57) ∧ 48 ≤ minor ∧ minor ≤ 57

/-- The line is read as it was written; without a query there are no arguments. -/
def ReadsLine (methed path : Bytes) (query : Option Bytes) (data : Bytes) : Prop :=
  ∃ line args, phraseRequestLineArgs data = some (some (line, args)) ∧
    line.methed = methed ∧ line.uri = path ∧
    (methed = ascii "GET" → args = argsOf (arguments (query.getD [])))

section Reading

variable {methed path header : Bytes} {query : Option Bytes} {major minor : Byte}

theorem RequestParts.reads_iff (hparts : RequestParts methed path query major minor) :
    ReadsLine methed path query (requestData methed path query major minor header) ↔
      (readTarget methed (target path query)).1 = path ∧
        (methed = ascii "GET" → (readTarget methed (target path query)).2 =
          argsOf (arguments (query.getD []))) := by
  have hmethed {b : Byte} (hb : b < 65) : b ∉ methed := fun hmem =>
    absurd (hparts.methed b hmem).1 (UInt8.not_le.mpr hb)
  have htarget {b : Byte} (hb : b = 32 ∨ b = 13) : b ∉ target path query := by
    have hpath : b ∉ path := fun hmem => by
      have := hparts.path b hmem
      tauto
    cases query with
    | none => exact hpath
    | some text =>
      have htext : b ∉ text := fun hmem => by
        have := hparts.query text rfl b hmem
        tauto
      grind [target]
  have hslash : ∃ more, target path query = 47 :: more := by
    obtain ⟨more, rfl⟩ := hparts.slash
    cases query with
    | none => exact ⟨more, rfl⟩
    | some text => exact ⟨more ++ 63 :: text, rfl⟩
  have hversion : (13 : Byte) ∉ [47, major, 46, minor] := by
    obtain ⟨⟨hmajor, -⟩, hminor, -⟩ := hparts.version
    grind
  obtain ⟨version, hread⟩ := phraseRequestLineArgs_eq header
    ⟨hmethed (by decide), hmethed (by decide), hmethed (by decide)⟩
    ⟨htarget (.inl rfl), htarget (.inr rfl)⟩ hslash hversion
  rw [ReadsLine, requestData, hread]
  simp

theorem beforeHttp_ne {text : Bytes} (htext : ascii "HTTP" <:+: text) :
    beforeHttp text ≠ text := by
  obtain ⟨rest, hrest⟩ := eq_beforeHttp_append htext
  intro hsame
  have hlength := congrArg List.length hrest
  rw [hsame, length_append, length_append] at hlength
  simp [ascii] at hlength

theorem not_mem_beforeHttp {text : Bytes} {b : Byte} (hb : b ∉ text) : b ∉ beforeHttp text := by
  rw [beforeHttp]
  split
  · exact hb
  · exact fun hmem => hb (mem_of_mem_take hmem)

theorem readTarget_fst {text : Bytes} (hmethed : ¬ ascii "HTTP" <:+: methed)
    (htext : 63 ∉ beforeHttp text) : readTarget methed text = (beforeHttp text, noArgs) := by
  rw [readTarget, if_neg hmethed]
  split_ifs
  · exact mergeParmsByGet_of_not_mem htext noArgs
  · rfl

end Reading

/-- A request line is read as it was written exactly when `HTTP` stands neither in the method
nor in the path, and a query comes with GET and keeps its arguments. -/
theorem phraseRequestLineArgs_reads_iff (methed path : Bytes) (query : Option Bytes)
    (major minor : Byte) (header : Bytes)
    (hparts : RequestParts methed path query major minor) :
    ReadsLine methed path query (requestData methed path query major minor header) ↔
      ¬ ascii "HTTP" <:+: methed ∧ ¬ ascii "HTTP" <:+: path ∧
        ∀ text, query = some text → methed = ascii "GET" ∧ KeepsArguments text := by
  rw [hparts.reads_iff]
  have hmark : 63 ∉ path := fun hmem => (hparts.path 63 hmem).2.2.2 rfl
  by_cases hmethed : ascii "HTTP" <:+: methed
  · refine iff_of_false (fun hread => ?_) fun hnone => hnone.1 hmethed
    have hnil : (readTarget methed (target path query)).1 = [] := by
      rw [readTarget, if_pos hmethed]
      split_ifs <;> rfl
    obtain ⟨more, rfl⟩ := hparts.slash
    exact absurd (hnil.symm.trans hread.1) (cons_ne_nil 47 more).symm
  by_cases hpath : ascii "HTTP" <:+: path
  · refine iff_of_false (fun hread => ?_) fun hnone => hnone.2.1 hpath
    have hcut : beforeHttp (target path query) = beforeHttp path := by
      cases query with
      | none => rfl
      | some text => rw [target, beforeHttp_append_cons (by decide), if_pos hpath]
    rw [readTarget_fst hmethed (hcut ▸ not_mem_beforeHttp hmark), hcut] at hread
    exact beforeHttp_ne hpath hread.1
  have hwhole := beforeHttp_of_absent hpath
  cases query with
  | none =>
    rw [target, readTarget_fst hmethed (hwhole.symm ▸ hmark), hwhole]
    refine iff_of_true ⟨rfl, fun _ => rfl⟩ ⟨hmethed, hpath, fun text heq => nomatch heq⟩
  | some text =>
    rw [readTarget, if_neg hmethed, target, beforeHttp_append_cons (by decide), if_neg hpath]
    by_cases hget : methed = ascii "GET"
    · rw [if_pos hget, mergeParmsByGet_append_cons hmark, getD_some,
        argsOf_beforeHttp_iff]
      simp [hget ▸ hmethed, hpath, hget]
    grind

namespace LineWitness

theorem parts_query {methed : Bytes} (hmethed : ∀ b ∈ methed, 65 ≤ b ∧ b ≤ 90) :
    RequestParts methed (ascii "/a") (some (ascii "k=v")) 49 49 where
  methed := hmethed
  slash := ⟨ascii "a", rfl⟩
  path := by decide +kernel
  query text htext := by
    obtain rfl := Option.some.inj htext
    decide +kernel
  version := by decide

theorem parts_http : RequestParts (ascii "GET") (ascii "/HTTP") none 49 49 where
  methed := by decide +kernel
  slash := ⟨ascii "HTTP", rfl⟩
  path := by decide +kernel
  query _ htext := nomatch htext
  version := by decide

theorem keepsArguments_query : KeepsArguments (ascii "k=v") := by
  intro rest hrest
  have hoccurs : ascii "HTTP" <:+: ascii "k=v" := ⟨_, rest, by rw [append_assoc, ← hrest]⟩
  exact absurd hoccurs (by decide)

/-- `GET /a?k=v HTTP/1.1`. -/
theorem reads_get : ReadsLine (ascii "GET") (ascii "/a") (some (ascii "k=v"))
    (requestData (ascii "GET") (ascii "/a") (some (ascii "k=v")) 49 49 []) := by
  refine (phraseRequestLineArgs_reads_iff _ _ _ 49 49 [] (parts_query (by decide +kernel))).mpr
    ⟨by decide, by decide, fun text htext => ?_⟩
  obtain rfl := Option.some.inj htext
  exact ⟨rfl, keepsArguments_query⟩

/-- `GET /HTTP HTTP/1.1` is read with the URI `/`, and `POST /a?k=v HTTP/1.1` with the query. -/
theorem not_reads_http :
    ¬ ReadsLine (ascii "GET") (ascii "/HTTP") none
      (requestData (ascii "GET") (ascii "/HTTP") none 49 49 []) ∧
    ¬ ReadsLine (ascii "POST") (ascii "/a") (some (ascii "k=v"))
      (requestData (ascii "POST") (ascii "/a") (some (ascii "k=v")) 49 49 []) := by
  constructor
  · rw [parts_http.reads_iff]
    exact fun hread => absurd hread.1 (by decide)
  · rw [(parts_query (by decide +kernel)).reads_iff]
    exact fun hread => absurd hread.1 (by decide)

end LineWitness

end Http

end WaterWall
