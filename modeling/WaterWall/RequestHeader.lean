/-
phraseRequestHeader of phrase.lua on a block of header lines.  A line is cut behind its CR,
which stays in the value, and the first byte behind the colon is dropped whether or not it
is a blank.  So a value comes back as it was sent only where it is empty and the colon is
the end of the line.
-/
import WaterWall.RequestArguments

namespace WaterWall

namespace Http

open ByteText List Option

/-- A header line, with or without a blank behind its colon. -/
structure Field where
  name : Bytes
  space : Bool
  value : Bytes
  deriving DecidableEq, Repr

/-- A letter, a digit or a dash. -/
def IsNameByte (b : Byte) : Prop :=
  48 ≤ b ∧ b ≤ 57 ∨ 65 ≤ b ∧ b ≤ 90 ∨ 97 ≤ b ∧ b ≤ 122 ∨ b = 45

instance (b : Byte) : Decidable (IsNameByte b) :=
  inferInstanceAs (Decidable (_ ∨ _))

namespace Field

/-- What stands behind the colon. -/
def rest (field : Field) : Bytes :=
  if field.space then 32 :: field.value else field.value

def line (field : Field) : Bytes :=
  field.name ++ 58 :: field.rest

/-- The key of the field's accessor. -/
def accessor (field : Field) : Bytes :=
  field.name.map fun b => toLower (if b = 45 then 95 else b)

/-- What the accessor returns. -/
def read (field : Field) : Bytes :=
  (field.rest ++ [13]).drop 1

structure Plain (field : Field) : Prop where
  name : ∀ b ∈ field.name, IsNameByte b
  value : 13 ∉ field.value ∧ 10 ∉ field.value

/-- `info.header[parmName] = function() return parmValue end`. -/
def enter (table : List (Bytes × Bytes)) (field : Field) : List (Bytes × Bytes) :=
  (field.accessor, field.read) :: table.filter fun entry => entry.1 ≠ field.accessor

end Field

def block (fields : List Field) : Bytes :=
  fields.flatMap fun field => field.line ++ crlf

/-- A request with its request line, its header lines and what follows the empty line. -/
def request (line : Bytes) (fields : List Field) (body : Bytes) : Bytes :=
  line ++ (crlf ++ (block fields ++ (crlf ++ body)))

section Lines

variable {line rest : Bytes}

theorem findText_crlf (hline : ¬ crlf <:+: line) (rest : Bytes) :
    findText crlf (line ++ (crlf ++ rest)) = some line.length := by
  induction line with
  | nil =>
    rw [nil_append]
    exact @findText_first [10] [] rest 13 not_mem_nil
  | cons b line ih =>
    rw [infix_cons_iff, not_or] at hline
    have hstarts : ¬ crlf <+: b :: (line ++ (crlf ++ rest)) := by
      intro hstarts
      obtain ⟨rfl, hnext⟩ := cons_prefix_cons.mp hstarts
      cases line with
      | nil => simp [crlf] at hnext
      | cons c line =>
        rw [cons_append, cons_prefix_cons] at hnext
        exact hline.1 (cons_prefix_cons.mpr
          ⟨rfl, cons_prefix_cons.mpr ⟨hnext.1, nil_prefix⟩⟩)
    rw [cons_append, findText, if_neg hstarts, ih hline.2]
    rfl

theorem findText_emptyLine_append (hline : ¬ crlf <:+: line) (hrest : ¬ crlf <+: rest) :
    findText (crlf ++ crlf) (line ++ (crlf ++ rest)) =
      (findText (crlf ++ crlf) rest).map (· + (line.length + 2)) := by
  induction line with
  | nil =>
    have hhere : ¬ crlf ++ crlf <+: 13 :: 10 :: rest := fun hstarts =>
      hrest ((prefix_append_right_inj crlf).mp hstarts)
    have hnext : ¬ crlf ++ crlf <+: 10 :: rest := by
      simp [crlf]
    change findText (crlf ++ crlf) (13 :: 10 :: rest) = _
    rw [findText, if_neg hhere, findText, if_neg hnext, Option.map_map]
    rfl
  | cons b line ih =>
    have hstarts : ¬ crlf ++ crlf <+: b :: (line ++ (crlf ++ rest)) := by
      intro hstarts
      have hfind := findText_crlf hline rest
      rw [cons_append, findText,
        if_pos ((prefix_append crlf crlf).trans hstarts)] at hfind
      simp at hfind
    rw [infix_cons_iff, not_or] at hline
    rw [List.cons_append, findText, if_neg hstarts, ih hline.2, Option.map_map]
    rfl

theorem findText_emptyLine (hline : ¬ crlf <:+: line) (rest : Bytes) :
    findText (crlf ++ crlf) (line ++ (crlf ++ (crlf ++ rest))) = some line.length := by
  induction line with
  | nil =>
    rw [nil_append, ← append_assoc]
    exact @findText_first [10, 13, 10] [] rest 13 not_mem_nil
  | cons b line ih =>
    have hstarts : ¬ crlf ++ crlf <+: b :: (line ++ (crlf ++ (crlf ++ rest))) := by
      intro hstarts
      have hfind := findText_crlf hline (crlf ++ rest)
      rw [cons_append, findText,
        if_pos ((prefix_append crlf crlf).trans hstarts)] at hfind
      simp at hfind
    rw [infix_cons_iff, not_or] at hline
    rw [cons_append, findText, if_neg hstarts, ih hline.2]
    rfl

theorem not_crlf_of_not_mem (hline : 13 ∉ line) : ¬ crlf <:+: line :=
  fun hoccurs => hline (hoccurs.subset mem_cons_self)

end Lines

namespace Field

variable {field : Field}

theorem Plain.not_mem_name (hplain : field.Plain) {b : Byte} (hb : ¬ IsNameByte b) :
    b ∉ field.name :=
  fun hmem => hb (hplain.name b hmem)

theorem Plain.not_mem_line (hplain : field.Plain) : 13 ∉ field.line := by
  have hname := hplain.not_mem_name (b := 13) (by decide)
  have hvalue := hplain.value.1
  rw [line, rest]
  split_ifs <;> simp_all

theorem Plain.accessor_eq (hplain : field.Plain) :
    (removeBlanks (field.name.map fun b => if b = 45 then 95 else b)).map toLower =
      field.accessor := by
  rw [removeBlanks_of_not_mem, List.map_map]
  · rfl
  · intro hmem
    obtain ⟨b, hb, hblank⟩ := mem_map.mp hmem
    split_ifs at hblank
    · exact absurd hblank (by decide)
    · exact hplain.not_mem_name (by decide) (hblank ▸ hb)

theorem Plain.headerLoop (hplain : field.Plain) (left : Nat) (rest : Bytes)
    (table : List (Bytes × Bytes)) :
    headerLoop (left + 1) (field.line ++ (crlf ++ rest)) table =
      Http.headerLoop left rest (field.enter table) := by
  have hcolon : findText (ascii ":") (field.line ++ [13]) = some field.name.length := by
    rw [line, append_assoc]
    exact @findText_first [] field.name (field.rest ++ [13]) 58
      (hplain.not_mem_name (by decide))
  have hline : (field.line ++ (crlf ++ rest)).take (field.line.length + 1) =
      field.line ++ [13] := by
    rw [show crlf ++ rest = [13] ++ 10 :: rest from rfl, ← append_assoc]
    exact take_left' (by simp)
  have hname : (field.line ++ [13]).take field.name.length = field.name := by
    rw [line, append_assoc]
    exact take_left' rfl
  have hvalue : (field.line ++ [13]).drop (field.name.length + 1) = field.rest ++ [13] := by
    rw [line, append_assoc, cons_append, append_cons]
    exact drop_left' (by simp)
  have hbehind : (field.line ++ (crlf ++ rest)).drop (field.line.length + 2) = rest := by
    rw [← append_assoc]
    exact drop_left' (by simp [crlf])
  rw [Http.headerLoop, findText_crlf (not_crlf_of_not_mem hplain.not_mem_line)]
  simp only [bind_eq_bind, bind_some, hline, hcolon, hname, hvalue, hbehind,
    hplain.accessor_eq]
  rfl

theorem lookup_enter (table : List (Bytes × Bytes)) (field : Field) (key : Bytes) :
    (field.enter table).lookup key =
      if field.accessor = key then some field.read else table.lookup key := by
  split_ifs with hkey
  · simp [enter, hkey]
  · rw [enter, lookup_cons, beq_eq_false_iff_ne.mpr (Ne.symm hkey)]
    induction table with
    | nil => rfl
    | cons entry table ih => grind

theorem lookup_foldl_enter (fields : List Field) (key : Bytes) :
    (fields.foldl enter []).lookup key =
      (fields.reverse.find? fun field => field.accessor = key).map read := by
  induction fields using List.reverseRecOn with
  | nil => rfl
  | append_singleton fields field ih =>
    rw [foldl_append, reverse_append, foldl_cons, foldl_nil, lookup_enter,
      ih]
    by_cases hkey : field.accessor = key <;> simp [hkey]

theorem read_eq_iff {value : Bytes} (hvalue : 13 ∉ value) (field : Field) :
    field.read = value ↔ value = [] ∧ field.value = [] ∧ field.space = false := by
  obtain ⟨name, space, sent⟩ := field
  cases space with
  | true => grind [read, rest]
  | false =>
    cases sent with
    | nil => grind [read, rest]
    | cons b sent => grind [read, rest]

end Field

section Block

variable {fields : List Field}

theorem headerLoop_block (hplain : ∀ field ∈ fields, field.Plain) {left : Nat}
    (hleft : fields.length < left) (table : List (Bytes × Bytes)) :
    headerLoop left (block fields ++ crlf) table = some (fields.foldl Field.enter table) := by
  induction fields generalizing left table with
  | nil =>
    obtain ⟨left, rfl⟩ := Nat.exists_eq_succ_of_ne_zero (Nat.ne_zero_of_lt hleft)
    rfl
  | cons field fields ih =>
    obtain ⟨left, rfl⟩ := Nat.exists_eq_succ_of_ne_zero (Nat.ne_zero_of_lt hleft)
    rw [forall_mem_cons] at hplain
    rw [block, flatMap_cons, append_assoc, append_assoc,
      hplain.1.headerLoop, ← block]
    exact ih hplain.2 (Nat.lt_of_succ_lt_succ hleft) _

theorem findText_request (hplain : ∀ field ∈ fields, field.Plain) {line : Bytes}
    (hline : ¬ crlf <:+: line) (body : Bytes) :
    findText (crlf ++ crlf) (request line fields body) =
      some (line.length + (block fields).length) := by
  induction fields generalizing line with
  | nil => exact findText_emptyLine hline body
  | cons field fields ih =>
    rw [forall_mem_cons] at hplain
    have hfield := not_crlf_of_not_mem hplain.1.not_mem_line
    have hrest : request line (field :: fields) body =
        line ++ (crlf ++ request field.line fields body) := by
      simp [request, block]
    have hstarts : ¬ crlf <+: request field.line fields body := by
      intro hstarts
      have hmem := hplain.1.not_mem_line
      rw [request, Field.line] at hstarts
      rw [Field.line] at hmem
      cases hname : field.name with
      | nil => simp [hname, crlf] at hstarts
      | cons b name =>
        rw [hname, cons_append, cons_append] at hstarts
        simp [hname, (cons_prefix_cons.mp hstarts).1] at hmem
    rw [hrest, findText_emptyLine_append hline hstarts, ih hplain.2 hfield]
    simp [block, crlf]
    omega

theorem phraseRequestHeader_request (hplain : ∀ field ∈ fields, field.Plain) {line : Bytes}
    (hline : ¬ crlf <:+: line) (body : Bytes) :
    phraseRequestHeader (request line fields body) =
      some (some (fields.foldl Field.enter [])) := by
  have hstart : findText crlf (request line fields body) = some line.length :=
    findText_crlf hline _
  have hheader : ((request line fields body).take
      (line.length + (block fields).length + 4)).drop (line.length + 2) =
        block fields ++ crlf := by
    have hsplit : request line fields body =
        (line ++ crlf) ++ ((block fields ++ crlf) ++ body) := by
      simp [request]
    rw [hsplit, drop_take, drop_left' (by simp [crlf])]
    exact take_left' (by simp [crlf]; omega)
  have hlength : fields.length < (block fields ++ crlf).length := by
    have hle : fields.length ≤ (block fields).length := by
      rw [block, length_flatMap]
      exact length_le_sum_of_one_le _ (by simp [crlf]) |>.trans' (by simp)
    simp [crlf]
    omega
  rw [phraseRequestHeader, hstart, findText_request hplain hline]
  dsimp only
  rw [hheader, headerLoop_block hplain hlength]
  rfl

end Block

/-- Every field has an accessor that returns its value, and there are no other accessors. -/
def HeadersRoundTrip (line : Bytes) (fields : List Field) (body : Bytes) : Prop :=
  ∃ header, phraseRequestHeader (request line fields body) = some (some header) ∧
    (∀ field ∈ fields, header.lookup field.accessor = some field.value) ∧
    ∀ key value, header.lookup key = some value → ∃ field ∈ fields, field.accessor = key

/-- The values come back if and only if all of them are empty and of the fields with one
accessor the last has nothing behind its colon. -/
theorem headersRoundTrip_iff (line : Bytes) (hline : ¬ crlf <:+: line) (fields : List Field)
    (hplain : ∀ field ∈ fields, field.Plain) (body : Bytes) :
    HeadersRoundTrip line fields body ↔ ∀ field ∈ fields, field.value = [] ∧
      ∀ last ∈ fields.reverse.find? fun other => other.accessor = field.accessor,
        last.space = false := by
  have hphrase := phraseRequestHeader_request hplain hline body
  have hkey (field) (hfield : field ∈ fields) : ∃ last ∈ fields,
      fields.reverse.find? (fun other => other.accessor = field.accessor) = some last := by
    cases hfind : fields.reverse.find? fun other => other.accessor = field.accessor with
    | none => simpa using List.find?_eq_none.mp hfind field (mem_reverse.mpr hfield)
    | some last => exact ⟨last, mem_reverse.mp (mem_of_find?_eq_some hfind), rfl⟩
  constructor
  · rintro ⟨header, hheader, hvalues, -⟩ field hfield
    obtain rfl := Option.some.inj (Option.some.inj (hphrase.symm.trans hheader))
    obtain ⟨last, -, hlast⟩ := hkey field hfield
    have hread := hvalues field hfield
    rw [Field.lookup_foldl_enter, hlast, map_some, Option.some.injEq,
      Field.read_eq_iff (hplain field hfield).value.1] at hread
    simp [hlast, hread]
  · intro hempty
    refine ⟨_, hphrase, ?_, ?_⟩
    · intro field hfield
      obtain ⟨last, hmem, hlast⟩ := hkey field hfield
      rw [Field.lookup_foldl_enter, hlast, map_some, Option.some.injEq,
        Field.read_eq_iff (hplain field hfield).value.1]
      exact ⟨(hempty field hfield).1, (hempty last hmem).1, (hempty field hfield).2 last hlast⟩
    · intro key value hvalue
      rw [Field.lookup_foldl_enter, map_eq_some_iff] at hvalue
      obtain ⟨field, hfind, -⟩ := hvalue
      exact ⟨field, mem_reverse.mp (mem_of_find?_eq_some hfind),
        by simpa using List.find?_some hfind⟩

namespace HeaderWitness

def line : Bytes := ascii "GET / HTTP/1.1"

def empty : List Field := [⟨ascii "Accept-Encoding", false, []⟩, ⟨ascii "Cookie", false, []⟩]

theorem roundTrip_empty : HeadersRoundTrip line empty (ascii "body") :=
  (headersRoundTrip_iff line (by decide) empty
    (fun field hfield => by
      simp only [empty, mem_cons, not_mem_nil, or_false] at hfield
      rcases hfield with rfl | rfl <;> exact ⟨by decide +kernel, by decide⟩) _).mpr (by decide)

def host : List Field := [⟨ascii "Host", true, ascii "a"⟩]

/-- The accessor of `Host: a` returns the value with a CR. -/
theorem not_roundTrip_host :
    phraseRequestHeader (request line host []) =
        some (some [(ascii "host", ascii "a\r")]) ∧
      ¬ HeadersRoundTrip line host [] := by
  have hphrase : phraseRequestHeader (request line host []) =
      some (some [(ascii "host", ascii "a\r")]) := by
    decide
  refine ⟨hphrase, ?_⟩
  rintro ⟨header, hheader, hvalues, -⟩
  obtain rfl := Option.some.inj (Option.some.inj (hphrase.symm.trans hheader))
  exact absurd (hvalues _ mem_cons_self) (by decide)

end HeaderWitness

end Http

end WaterWall
