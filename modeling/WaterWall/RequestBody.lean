/-
The body of a POST request: _read_body_part, _mergeParmsByPost and read_body of phrase.lua.
A form is merged by a copy of the loop of _mergeParms.  In an upload the end of the file is
looked for with the boundary as a pattern, behind which the CR of its header line still
stands; so `-` is a repetition in it, the CR is optional, and what is found is the boundary
with one dash behind it, wherever that first stands.
-/
import WaterWall.RequestHeader
import WaterWall.LuaPattern

namespace WaterWall

namespace Http

open ByteText LuaPattern List Option

def readBodyPart (content : Bytes) : Option Bytes :=
  (findText (crlf ++ crlf) content).map fun start => content.drop (start + 4)

/-- `match("%s*filename=\"([^\"]+)\"")`. -/
def matchFilename : Bytes → Option Bytes
  | [] => none
  | b :: rest =>
    let behind := (b :: rest).drop 10
    let filename := behind.takeWhile (· ≠ 34)
    if ascii "filename=\"" <+: b :: rest ∧ filename ≠ [] ∧ filename ≠ behind then some filename
    else matchFilename rest

/-- `file:sub(1, eof - 3)`, where `eof` is counted from 0 here; an end below 0 is counted from
the end of the file. -/
def cutFile (file : Bytes) : Nat → Bytes
  | 0 => file.dropLast
  | 1 => file
  | eof + 2 => file.take eof

/-- A file whose end is not found is kept as it is. -/
def fileUpTo (file : Bytes) : Option Nat → Bytes
  | none => file
  | some eof => cutFile file eof

/-- The body of the loop over the parameters of a form. -/
def mergePostParm (args : Args) (v : Bytes) : Args :=
  match findText (ascii "=") v with
  | none => args
  | some sign =>
    let parmName := v.take sign
    let parmValue := v.drop (sign + 1)
    Function.update args parmName (some (match args parmName with
      | none => .single parmValue
      | some (.many arrVal) => .many (arrVal ++ [parmValue])
      | some (.single arrVal) => .many [arrVal, parmValue]))

/-- A request without a content type raises an error. -/
def mergeParmsByPost (header : List (Bytes × Bytes)) (content : Bytes) : Option Args := do
  let headers ← header.lookup (ascii "content_type")
  match findText (ascii "boundary=") headers with
  | some start =>
    let boundary := headers.drop (start + 9)
    match readBodyPart content with
    | none => return noArgs
    | some file =>
      let eof ← find (parse (ascii "--" ++ (boundary ++ ascii "--"))) file
      return Function.update
        (Function.update noArgs (ascii "filename") ((matchFilename content).map .single))
        (ascii "file") (some (.single (fileUpTo file eof)))
  | none =>
    match split content 38 with
    | none => return noArgs
    | some argsTab => return argsTab.foldl mergePostParm noArgs

/-- A request without a body has no `read_body`. -/
def readBody (info : Phrased) : Option Args := do
  mergeParmsByPost info.header (← info.content)

/-- `get_post_args` after `phrase` and `read_body`. -/
def postArgs (tonumber : Bytes → Option Int) (data : Bytes) : Option Args := do
  readBody (← ← phrase tonumber data)

section Form

theorem mergePostParm_eq : mergePostParm = mergeParm := by
  funext args v
  rw [mergePostParm, mergeParm]
  cases findText (ascii "=") v <;> rfl

/-- Both loops leave the same table: a name that one parameter has gets its value, a name that
several have the list of their values in order, and no other name has an entry. -/
theorem mergeParms_groups (s : Bytes) (hs : s ≠ []) (header : List (Bytes × Bytes))
    (headers : Bytes) (htype : header.lookup (ascii "content_type") = some headers)
    (hform : ¬ ascii "boundary=" <:+: headers) :
    mergeParmsByPost header s = some (mergeParms s noArgs) ∧
      ∀ name, mergeParms s noArgs name = entry (values (arguments s) name) := by
  constructor
  · rw [mergeParmsByPost, htype, mergeParms, split, if_neg hs]
    simp [findText_eq_none_iff.mpr hform, mergePostParm_eq]
  · intro name
    rw [mergeParms_eq]
    rfl

end Form

section Upload

/-- Dashes and a text without pattern characters. -/
def dashed (dashes : Nat) (word : Bytes) : Bytes :=
  List.replicate dashes 45 ++ word

/-- An odd number of dashes leaves one for itself. -/
def lastDash (dashes : Nat) : Bytes :=
  if dashes % 2 = 1 then [45] else []

/-- What ends a file: the boundary, any number of CRs and a dash. -/
def ending (dashes : Nat) (word : Bytes) (count : Nat) : Bytes :=
  lastDash dashes ++ (word ++ (List.replicate count 13 ++ [45]))

/-- The pattern made of a boundary, as the header reader leaves it. -/
def endPattern (boundary : Bytes) : List Item :=
  parse (ascii "--" ++ (boundary ++ [13] ++ ascii "--"))

variable {dashes : Nat} {word : Bytes}

theorem replicate_dashes (dashes : Nat) :
    List.replicate dashes (45 : Byte) =
      List.replicate (2 * (dashes / 2)) 45 ++ lastDash dashes := by
  have hdiv := Nat.div_add_mod dashes 2
  rw [lastDash]
  split_ifs with hodd
  · rw [← replicate_one, ← replicate_add]
    congr 1
    omega
  · rw [append_nil]
    congr 1
    omega

theorem endPattern_dashed (hword : ∀ b ∈ word, IsLiteral b) :
    endPattern (dashed dashes word) =
      List.replicate (dashes / 2 + 1) (.lazy (.char 45)) ++
        ((lastDash dashes ++ word).map (fun b => .one (.char b)) ++
          [.lazy (.char 13), .one (.char 45)]) := by
  have hpattern : ascii "--" ++ (dashed dashes word ++ [13] ++ ascii "--") =
      List.replicate (2 * (dashes / 2 + 1)) 45 ++
        (lastDash dashes ++ (word ++ 13 :: [45, 45])) := by
    rw [dashed, replicate_dashes, Nat.mul_succ, Nat.add_comm, replicate_add]
    simp [ascii, List.replicate]
  have hrest : parse (word ++ 13 :: [45, 45]) =
      word.map (fun b => .one (.char b)) ++ [.lazy (.char 13), .one (.char 45)] :=
    parse_literal hword 13 (by decide) [45, 45]
  rw [endPattern, hpattern, parse_pairs, map_append, append_assoc, ← hrest]
  congr 1
  rw [lastDash]
  split_ifs with hodd
  · cases word with
    | nil => exact parse_cons (by decide) (by decide) _
    | cons b word =>
      refine parse_cons (by decide) ?_ _
      have hliteral := hword b mem_cons_self
      simp [IsLiteral, ascii] at hliteral ⊢
      grind
  · rfl

theorem decides_endPattern (hword : ∀ b ∈ word, IsLiteral b) :
    Decides (here (endPattern (dashed dashes word)) 0 0) fun text =>
      ∃ more count rest,
        text = List.replicate more 45 ++ (ending dashes word count ++ rest) := by
  rw [endPattern_dashed hword]
  refine (((Decides.nil.one 45).lazy 13).literal (lastDash dashes ++ word)).lazies 45
    (dashes / 2) |>.congr fun text => ?_
  constructor
  · rintro ⟨more, _, rfl, _, rfl, count, _, rfl, rest, rfl, -⟩
    exact ⟨more, count, rest, by simp [ending]⟩
  · rintro ⟨more, count, rest, rfl⟩
    exact ⟨more, _, rfl, _, by simp [ending], count, _, rfl, rest, rfl, trivial⟩

theorem not_mem_ending (hline : 10 ∉ word) (count : Nat) : 10 ∉ ending dashes word count := by
  have hdash : 10 ∉ lastDash dashes := by
    rw [lastDash]
    split_ifs <;> decide
  simp [ending, hdash, hline, mem_replicate]

theorem find_endPattern_iff (hword : ∀ b ∈ word, IsLiteral b) (hline : 10 ∉ word)
    (content rest : Bytes) :
    find (endPattern (dashed dashes word))
        (content ++ (crlf ++ (45 :: 45 :: (dashed dashes word ++ 45 :: rest)))) =
      some (some (content.length + 2)) ↔
      ∀ count, ¬ ending dashes word count <:+: content := by
  have hend : 45 :: 45 :: (dashed dashes word ++ 45 :: rest) =
      List.replicate (2 + 2 * (dashes / 2)) 45 ++ (ending dashes word 0 ++ rest) := by
    rw [dashed, replicate_dashes, replicate_add]
    simp [ending, List.replicate]
  generalize 45 :: 45 :: (dashed dashes word ++ 45 :: rest) = tail at hend
  have hdrop : (content ++ (crlf ++ tail)).drop (content.length + 2) = tail := by
    rw [← append_assoc]
    exact drop_left' (by simp [crlf])
  rw [(decides_endPattern hword).find_eq_some_iff, hdrop]
  constructor
  · rintro ⟨-, -, hfirst⟩ count ⟨front, behind, rfl⟩
    refine hfirst front.length (by simp; omega) ⟨0, count, behind ++ (crlf ++ tail), ?_⟩
    rw [append_assoc, append_assoc, drop_left' rfl]
    rfl
  · intro hnone
    refine ⟨by simp [crlf], ⟨_, 0, rest, hend⟩, ?_⟩
    rintro before hbefore ⟨more, count, behind, htext⟩
    -- The match holds no LF, so it ends before the one behind the file, and then before the CR.
    have hlf : 10 ∉ List.replicate more 45 ++ ending dashes word count := by
      simp [mem_replicate, not_mem_ending hline count]
    rw [show content ++ (crlf ++ tail) = (content ++ [13]) ++ 10 :: tail by simp [crlf],
      drop_append_of_le_length (by simp; omega), ← append_assoc] at htext
    have hstarts := (starts_append_iff hlf).mp ⟨behind, htext.symm⟩
    have hinside : ending dashes word count <:+: content ++ [13] :=
      (suffix_append _ _).isInfix.trans
        (hstarts.isInfix.trans (drop_suffix before _).isInfix)
    obtain ⟨front, behind, hcontent⟩ := hinside
    cases behind using List.reverseRecOn with
    | nil => simp [ending, ← append_assoc] at hcontent
    | append_singleton behind c =>
      rw [← append_assoc] at hcontent
      exact hnone count ⟨front, behind, (append_inj' hcontent rfl).1⟩

/-- A body with one file. -/
def uploadBody (boundary : Bytes) (part : List Field) (content epilogue : Bytes) : Bytes :=
  request (45 :: 45 :: boundary) part
    (content ++ (crlf ++ (45 :: 45 :: (boundary ++ 45 :: 45 :: epilogue))))

def uploadType (boundary : Bytes) : Field :=
  ⟨ascii "Content-Type", true, ascii "multipart/form-data; boundary=" ++ boundary⟩

theorem cutFile_eq_iff {content rest : Bytes} (hrest : 2 ≤ rest.length) {eof : Nat}
    (heof : eof ≤ (content ++ rest).length) :
    cutFile (content ++ rest) eof = content ↔ eof = content.length + 2 := by
  constructor
  · intro hcut
    have hlength := congrArg List.length hcut
    rw [length_append] at heof
    match eof with
    | 0 =>
      simp [cutFile] at hlength
      omega
    | 1 =>
      simp [cutFile] at hlength
      simp [hlength] at hrest
    | eof + 2 =>
      simp [cutFile] at hlength
      omega
  · rintro rfl
    exact take_left' rfl

theorem uploadType_boundary (boundary : Bytes) :
    findText (ascii "boundary=") (uploadType boundary).read = some 21 ∧
      (uploadType boundary).read.drop 30 = boundary ++ [13] := by
  have hread : (uploadType boundary).read =
      ascii "multipart/form-data; " ++ (ascii "boundary=" ++ (boundary ++ [13])) :=
    append_assoc (ascii "multipart/form-data; boundary=") boundary [13]
  rw [hread]
  exact ⟨@findText_first (ascii "oundary=") (ascii "multipart/form-data; ") _ 98 (by decide), rfl⟩

variable {boundary : Bytes} {header : List (Bytes × Bytes)} {part : List Field}

theorem readBodyPart_uploadBody (hboundary : 13 ∉ boundary)
    (hpart : ∀ field ∈ part, field.Plain) (content epilogue : Bytes) :
    readBodyPart (uploadBody boundary part content epilogue) =
      some (content ++ (crlf ++ (45 :: 45 :: (boundary ++ 45 :: 45 :: epilogue)))) := by
  have hline : ¬ crlf <:+: 45 :: 45 :: boundary :=
    not_crlf_of_not_mem (by simp [hboundary])
  rw [readBodyPart, uploadBody, findText_request hpart hline, map_some, request,
    ← append_assoc, ← append_assoc, ← append_assoc]
  exact congrArg some (drop_left' (by simp [crlf]; omega))

theorem mergeParmsByPost_upload_iff (hboundary : 13 ∉ boundary)
    (hpart : ∀ field ∈ part, field.Plain)
    (htype : header.lookup (ascii "content_type") = some (uploadType boundary).read)
    {P : Bytes → Prop} (hdecides : Decides (here (endPattern boundary) 0 0) P)
    (content epilogue : Bytes) :
    (∃ args, mergeParmsByPost header (uploadBody boundary part content epilogue) = some args ∧
      args (ascii "file") = some (.single content)) ↔
    find (endPattern boundary)
        (content ++ (crlf ++ (45 :: 45 :: (boundary ++ 45 :: 45 :: epilogue)))) =
      some (some (content.length + 2)) := by
  obtain ⟨hstart, hrest⟩ := uploadType_boundary boundary
  have hpart := readBodyPart_uploadBody hboundary hpart content epilogue
  have hlong : 2 ≤ (crlf ++ (45 :: 45 :: (boundary ++ 45 :: 45 :: epilogue))).length := by
    simp [crlf]
  generalize crlf ++ (45 :: 45 :: (boundary ++ 45 :: 45 :: epilogue)) = tail at hpart hlong ⊢
  obtain ⟨found, hfound⟩ := ne_none_iff_exists'.mp (hdecides.find_ne_none (content ++ tail))
  have hmerge : mergeParmsByPost header (uploadBody boundary part content epilogue) =
      some (Function.update (Function.update noArgs (ascii "filename")
        ((matchFilename (uploadBody boundary part content epilogue)).map .single))
        (ascii "file") (some (.single (fileUpTo (content ++ tail) found)))) := by
    rw [mergeParmsByPost, htype]
    dsimp only [bind_eq_bind, bind_some]
    rw [hstart, hpart]
    dsimp only
    rw [hrest, ← endPattern, hfound]
    rfl
  simp only [hmerge, Option.some.injEq, exists_eq_left', Function.update_self,
    ArgValue.single.injEq, hfound]
  cases found with
  | none =>
    have hne : tail ≠ [] := by
      rintro rfl
      simp at hlong
    simp [fileUpTo, hne]
  | some eof =>
    have heof := (hdecides.find_eq_some_iff.mp hfound).1
    rw [fileUpTo, cutFile_eq_iff hlong heof, Option.some.injEq]

end Upload

theorem lookup_of_mem {fields : List Field} (hnodup : (fields.map Field.accessor).Nodup)
    {field : Field} (hfield : field ∈ fields) :
    (fields.foldl Field.enter []).lookup field.accessor = some field.read := by
  rw [Field.lookup_foldl_enter]
  have hfind : fields.reverse.find? (fun other => other.accessor = field.accessor) =
      some field := by
    cases hlast : fields.reverse.find? fun other => other.accessor = field.accessor with
    | none => simpa using List.find?_eq_none.mp hlast field (mem_reverse.mpr hfield)
    | some last =>
      have hmem := mem_reverse.mp (mem_of_find?_eq_some hlast)
      have hkey : last.accessor = field.accessor := by simpa using List.find?_some hlast
      rw [inj_on_of_nodup_map hnodup hmem hfield hkey]
  rw [hfind, map_some]

theorem phraseRequestLine_request {line : Bytes} (hline : ¬ crlf <:+: line)
    (hslash : 47 ∈ line) (hhttp : ascii "HTTP" <:+: line) (fields : List Field) (body : Bytes) :
    ∃ requestLine, phraseRequestLine (request line fields body) = some (some requestLine) := by
  have htake : (request line fields body).take (line.length + 1) = line ++ [13] := by
    rw [request, show crlf ++ (block fields ++ (crlf ++ body)) =
      [13] ++ 10 :: (block fields ++ (crlf ++ body)) from rfl, ← append_assoc]
    exact take_left' (by simp)
  have hfound {pattern : Bytes} (hoccurs : pattern <:+: line) :
      ∃ index, findText pattern (line ++ [13]) = some index := by
    refine ne_none_iff_exists'.mp fun hnone => findText_eq_none_iff.mp hnone ?_
    exact hoccurs.trans (prefix_append line [13]).isInfix
  have hcontains : [47] <:+: line := by
    obtain ⟨front, rest, rfl⟩ := append_of_mem hslash
    exact ⟨front, rest, by simp⟩
  obtain ⟨firstSlash, hfirst⟩ := hfound hcontains
  obtain ⟨lastSlash, hlast⟩ := hfound hhttp
  rw [phraseRequestLine, request, findText_crlf hline, ← request]
  dsimp only
  rw [htake, show ascii "/" = [47] from rfl, hfirst, hlast]
  exact ⟨_, rfl⟩

/-- The length line of a request with a body. -/
def lengthField (length : Bytes) : Field :=
  ⟨ascii "Content-Length", true, length⟩

namespace BodyWitness

/-- `a=1&b=2&a=3&c`, in which `c` has no value. -/
theorem groups_twice : mergeParmsByPost [(ascii "content_type", [])] (ascii "a=1&b=2&a=3&c") =
      some (mergeParms (ascii "a=1&b=2&a=3&c") noArgs) ∧
    mergeParms (ascii "a=1&b=2&a=3&c") noArgs (ascii "a") =
      some (.many [ascii "1", ascii "3"]) := by
  have hgroups := mergeParms_groups (ascii "a=1&b=2&a=3&c") (by decide)
    [(ascii "content_type", [])] [] rfl (by decide)
  exact ⟨hgroups.1, (hgroups.2 _).trans (by decide +kernel)⟩

def line : Bytes := ascii "POST /up HTTP/1.1"

def fields (boundary : Bytes) : List Field :=
  [lengthField (ascii "99"), uploadType boundary]

def part : List Field :=
  [⟨ascii "Content-Disposition", true, ascii "form-data; filename=\"x\""⟩]

theorem part_plain : ∀ field ∈ part, field.Plain := by
  intro field hfield
  rw [mem_singleton.mp hfield]
  exact ⟨by decide +kernel, by decide +kernel⟩

end BodyWitness

end Http

end WaterWall
