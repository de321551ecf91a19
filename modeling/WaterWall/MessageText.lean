/-
The text of an HTTP message: a first line and header fields, each ended by CR LF, then an
empty line and the body.  Nothing here knows about a particular server.
-/
import WaterWall.ByteText

namespace MessageText

open ByteText List

/-- The lines up to the empty one and what follows it, with the line that is being read. -/
def readHead (current : Bytes) : Bytes → Option (List Bytes × Bytes)
  | 13 :: 10 :: rest =>
    if current = [] then some ([], rest)
    else (readHead [] rest).map fun head => (current :: head.1, head.2)
  | byte :: rest => readHead (current ++ [byte]) rest
  | [] => none

def render (lines : List Bytes) (body : Bytes) : Bytes :=
  lines.flatMap (fun line => line ++ [13, 10]) ++ ([13, 10] ++ body)

section Lines

variable {current line rest : Bytes}

theorem readHead_cons {byte : Byte} (hrest : rest.head? ≠ some 10) :
    readHead current (byte :: rest) = readHead (current ++ [byte]) rest := by
  cases rest with
  | nil =>
    rw [readHead]
    rintro tail - ⟨⟩
  | cons second rest =>
    rw [readHead]
    rintro tail - ⟨⟩
    exact hrest rfl

theorem readHead_line (hline : (10 : Byte) ∉ line) (hne : current ++ line ≠ []) :
    readHead current (line ++ 13 :: 10 :: rest) =
      (readHead [] rest).map fun head => ((current ++ line) :: head.1, head.2) := by
  induction line generalizing current with
  | nil =>
    rw [append_nil] at hne ⊢
    rw [nil_append, readHead, if_neg hne]
  | cons byte line ih =>
    have hline : (10 : Byte) ∉ line := fun hmem => hline (mem_cons_of_mem byte hmem)
    have hhead : (line ++ 13 :: 10 :: rest).head? ≠ some 10 := by
      cases line with
      | nil => simp
      | cons second line =>
        grind
    rw [cons_append, readHead_cons hhead, ih hline (by simp), append_assoc,
      singleton_append]

theorem readHead_render {lines : List Bytes} (body : Bytes)
    (hlines : ∀ line ∈ lines, line ≠ [] ∧ (10 : Byte) ∉ line) :
    readHead [] (render lines body) = some (lines, body) := by
  induction lines with
  | nil =>
    change readHead [] (13 :: 10 :: body) = _
    rw [readHead, if_pos rfl]
  | cons line lines ih =>
    simp_all [render, readHead_line]

end Lines

/-- A header field. -/
def field (entry : Bytes × Bytes) : Bytes :=
  entry.1 ++ 58 :: 32 :: entry.2

/-- The name and the value of a header field. -/
def readField (line : Bytes) : Bytes × Bytes :=
  (line.takeWhile (· ≠ 58), (line.dropWhile (· ≠ 58)).drop 2)

theorem readField_field {entry : Bytes × Bytes} (hname : (58 : Byte) ∉ entry.1) :
    readField (field entry) = entry := by
  have hall : ∀ byte ∈ entry.1, decide (byte ≠ (58 : Byte)) = true := by
    grind
  rw [readField, field, takeWhile_append_of_pos hall, dropWhile_append_of_pos hall]
  simp

def lower (byte : Byte) : Byte :=
  if 65 ≤ byte ∧ byte ≤ 90 then byte + 32 else byte

/-- The names of header fields are compared without regard to case. -/
def SameName (name other : Bytes) : Prop :=
  name.map lower = other.map lower

instance (name other : Bytes) : Decidable (SameName name other) :=
  inferInstanceAs (Decidable (_ = _))

/-- The code of a status line that starts with a version of eight bytes. -/
def statusCode (line : Bytes) : Nat :=
  numeralValue ((line.drop 9).take 3)

def lengthName : Bytes := ascii "Content-Length"

/-- The status line has this code, and every content length is that of the body. -/
def Truthful (status : Nat) (message : Bytes) : Prop :=
  match readHead [] message with
  | some (first :: lines, body) => statusCode first = status ∧
      ∀ line ∈ lines, SameName (readField line).1 lengthName →
        (readField line).2 = decimal body.length
  | _ => False

/-- A header field that keeps to its line. -/
structure CleanField (entry : Bytes × Bytes) : Prop where
  name : (10 : Byte) ∉ entry.1
  colon : (58 : Byte) ∉ entry.1
  value : (10 : Byte) ∉ entry.2

theorem truthful_render_iff {status : Nat} {first body : Bytes} {entries : List (Bytes × Bytes)}
    (hfirst : first ≠ []) (hline : (10 : Byte) ∉ first)
    (hentries : ∀ entry ∈ entries, CleanField entry) :
    Truthful status (render (first :: entries.map field) body) ↔ statusCode first = status ∧
      ∀ entry ∈ entries, SameName entry.1 lengthName → entry.2 = decimal body.length := by
  have hread : readHead [] (render (first :: entries.map field) body) =
      some (first :: entries.map field, body) := by
    apply readHead_render
    refine forall_mem_cons.mpr ⟨⟨hfirst, hline⟩, forall_mem_map.mpr ?_⟩
    simp_all [field, CleanField.name, CleanField.value]
  rw [Truthful, hread]
  refine and_congr_right' ?_
  rw [forall_mem_map]
  refine forall₂_congr fun entry hentry => ?_
  rw [readField_field (hentries entry hentry).colon]

end MessageText
