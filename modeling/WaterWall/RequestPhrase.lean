/-
The request parser of phrase.lua.  An error that a Lua function raises is `none`; a request that
`phrase` does not accept is `some none`.
-/
import WaterWall.AccessDispatch

namespace WaterWall

namespace Http

open ByteText

/-- `text:find(pattern)` for a pattern without special characters, counted from 0. -/
def findText (pattern : Bytes) : Bytes → Option Nat
  | [] => if pattern = [] then some 0 else none
  | b :: rest =>
    if pattern <+: b :: rest then some 0 else (findText pattern rest).map (· + 1)

/-- `gsub(' ', '')`. -/
def removeBlanks (text : Bytes) : Bytes :=
  text.filter fun b => b ≠ 32

def toLower (b : Byte) : Byte :=
  if 65 ≤ b ∧ b ≤ 90 then b + 32 else b

def crlf : Bytes := [13, 10]

structure RequestLine where
  methed : Bytes
  uri : Bytes
  version : Bytes
  deriving DecidableEq, Repr

/-- The URI of a GET request ends at its first question mark. -/
def cutQuery (methed uri : Bytes) : Bytes :=
  if methed = ascii "GET" then uri.takeWhile fun b => b ≠ 63 else uri

/-- A line without a slash or without `HTTP` raises an error. -/
def phraseRequestLine (data : Bytes) : Option (Option RequestLine) :=
  match findText crlf data with
  | none => some none
  | some eof => do
      let line := data.take (eof + 1)
      let firstSlash ← findText (ascii "/") line
      let methed := removeBlanks (line.take firstSlash)
      let lastSlash ← findText (ascii "HTTP") line
      let uri := removeBlanks ((line.take lastSlash).drop firstSlash)
      return some ⟨methed, cutQuery methed uri, line.drop lastSlash⟩

/-- The loop over the lines of the header, which a line without a colon ends. -/
def headerLoop : Nat → Bytes → List (Bytes × Bytes) → Option (List (Bytes × Bytes))
  | 0, _, fields => some fields
  | left + 1, header, fields => do
      let offset ← findText crlf header
      let line := header.take (offset + 1)
      match findText (ascii ":") line with
      | none => return fields
      | some colon =>
        let parmName := (removeBlanks ((line.take colon).map fun b =>
          if b = 45 then 95 else b)).map toLower
        let parmValue := (line.drop (colon + 1)).drop 1
        headerLoop left (header.drop (offset + 2))
          ((parmName, parmValue) :: fields.filter fun field => field.1 ≠ parmName)

def phraseRequestHeader (data : Bytes) : Option (Option (List (Bytes × Bytes))) :=
  match findText crlf data with
  | none => some none
  | some start =>
    match findText (crlf ++ crlf) data with
    | none => some none
    | some eof =>
      let header := (data.take (eof + 4)).drop (start + 2)
      (headerLoop header.length header []).map some

/-- The request line, the header and, for a positive content length, the body. -/
structure Phrased where
  line : RequestLine
  header : List (Bytes × Bytes)
  content : Option Bytes
  deriving DecidableEq, Repr

/-- What follows the header. -/
def phraseRequestBody (data : Bytes) : Option Bytes :=
  (findText (crlf ++ crlf) data).map fun start => data.drop (start + 4)

/-- `tonumber` is Lua's own; comparing its `nil` with a number raises an error. -/
def phrase (tonumber : Bytes → Option Int) (data : Bytes) : Option (Option Phrased) := do
  match ← phraseRequestLine data with
  | none => return none
  | some line =>
    match ← phraseRequestHeader data with
    | none => return none
    | some header =>
      match header.lookup (ascii "content_length") with
      | none => return some ⟨line, header, none⟩
      | some value =>
        let length ← tonumber value
        return some ⟨line, header, if length > 0 then phraseRequestBody data else none⟩

section Uri

variable {data : Bytes}

theorem findText_single {b : Byte} {text : Bytes} {index : Nat}
    (hfind : findText [b] text = some index) : ∃ rest, text.drop index = b :: rest := by
  induction text generalizing index with
  | nil => simp [findText] at hfind
  | cons first text ih =>
    rw [findText] at hfind
    split_ifs at hfind with hstarts
    · grind
    grind [Option.map_eq_some_iff]

theorem slash_text {line : Bytes} {firstSlash : Nat}
    (hslash : findText (ascii "/") line = some firstSlash) (lastSlash : Nat) :
    (line.take lastSlash).drop firstSlash = [] ∨
      ∃ rest, (line.take lastSlash).drop firstSlash = 47 :: rest := by
  obtain ⟨rest, hrest⟩ := findText_single (b := 47) hslash
  rw [List.drop_take, hrest]
  cases lastSlash - firstSlash with
  | zero => exact .inl rfl
  | succ count => exact .inr ⟨rest.take count, rfl⟩

theorem cutQuery_slash (methed : Bytes) {text : Bytes} (htext : text = [] ∨ ∃ rest, text = 47 :: rest) :
    cutQuery methed (removeBlanks text) = [] ∨
      ∃ rest, cutQuery methed (removeBlanks text) = 47 :: rest := by
  rcases htext with rfl | ⟨rest, rfl⟩
  · left
    rw [cutQuery]
    split_ifs <;> rfl
  · right
    rw [cutQuery]
    split_ifs
    · exact ⟨(removeBlanks rest).takeWhile fun b => b ≠ 63, rfl⟩
    · exact ⟨removeBlanks rest, rfl⟩

theorem phraseRequestLine_uri {line : RequestLine}
    (hline : phraseRequestLine data = some (some line)) :
    line.uri = [] ∨ ∃ rest, line.uri = 47 :: rest := by
  rw [phraseRequestLine] at hline
  cases heof : findText crlf data with
  | none =>
    rw [heof] at hline
    cases hline
  | some eof =>
    rw [heof] at hline
    dsimp only at hline
    cases hfirst : findText (ascii "/") (data.take (eof + 1)) with
    | none =>
      rw [hfirst] at hline
      cases hline
    | some firstSlash =>
      rw [hfirst] at hline
      cases hlast : findText (ascii "HTTP") (data.take (eof + 1)) with
      | none =>
        rw [hlast] at hline
        cases hline
      | some lastSlash =>
        rw [hlast] at hline
        cases hline
        exact cutQuery_slash _ (slash_text hfirst lastSlash)

theorem phrase_uri {tonumber : Bytes → Option Int} {request : Phrased}
    (haccepted : phrase tonumber data = some (some request)) :
    request.line.uri = [] ∨ ∃ rest, request.line.uri = 47 :: rest := by
  rw [phrase] at haccepted
  obtain ⟨line, hline, haccepted⟩ := Option.bind_eq_some_iff.mp haccepted
  cases line with
  | none => cases haccepted
  | some line =>
    obtain ⟨header, -, haccepted⟩ := Option.bind_eq_some_iff.mp haccepted
    have hsame : request.line = line := by
      grind [Option.bind_eq_some_iff]
    rw [hsame]
    exact phraseRequestLine_uri hline

end Uri

end Http

end WaterWall
