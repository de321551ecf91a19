/-
The part of allocator.c that turns a JSON object into a task.  Every field goes the same way: the
first member of its name is looked up, and its text is converted without a look at its kind.  A
value that is no string has no text, and passing the null pointer on is a fault.
-/
import WaterWall.CJson
import WaterWall.PercentDecoding
import WaterWall.Atoull
import WaterWall.ActionTable
import WaterWall.RetentionDelete

namespace WaterWall

/-- GMT_REVERS_MASK. -/
def gmtReversMask : UInt64 := 0xffffffff

namespace Allocator

open ByteText PercentText CJson List Option

section Numbers

def isBlank (c : Byte) : Bool :=
  c = 32 || (9 ≤ c && c ≤ 13)

/-- The number that the digits at the front make. -/
def leadingNumber (text : Bytes) : Int :=
  numeralValue (text.takeWhile fun c => decide (IsDigit c))

/-- `strtol` with base 10, which saturates. -/
def strtol (text : Bytes) : Int :=
  match text.dropWhile isBlank with
  | 45 :: rest => max (-2 ^ 63) (-leadingNumber rest)
  | 43 :: rest => min (2 ^ 63 - 1) (leadingNumber rest)
  | rest => min (2 ^ 63 - 1) (leadingNumber rest)

def atoi (text : Bytes) : Int32 :=
  Int32.ofInt (strtol text)

def atoll (text : Bytes) : Int64 :=
  Int64.ofInt (strtol text)

/-- `htonl` and `ntohl` on a little-endian machine. -/
def htonl (n : UInt32) : UInt32 :=
  let outer := (n <<< (24 : UInt32)) ||| (n >>> (24 : UInt32))
  let inner := ((n <<< (8 : UInt32)) &&& (0x00FF0000 : UInt32)) |||
    ((n >>> (8 : UInt32)) &&& (0x0000FF00 : UInt32))
  outer ||| inner

end Numbers

/-- `nullText` is a null `valuestring` where a text is expected; `counter` is the overflow of a
loop counter; `nullField` is a null pointer of `split_string` where a number is expected. -/
inductive TaskFault where
  | nullText
  | counter
  | nullField
  deriving DecidableEq, Repr

inductive Stored where
  | s32 (value : Int32)
  | u32 (value : UInt32)
  | u16 (value : UInt16)
  | u8 (value : UInt8)
  | u64 (value : UInt64)
  | text (value : Bytes)
  deriving DecidableEq

/-- How the text of a member is stored in its field. -/
inductive Conv where
  | s32
  | u32
  | u16
  | u8
  | u64
  | reversed
  | decoded (size : Nat)
  deriving DecidableEq

/-- `snprintf_decodeURI` with the format `%s`; the text is decoded where it stands. -/
def snprintfDecodeURI (size : Nat) (text : Bytes) : Bytes :=
  match httpdParmDo (text ++ [0]) with
  | some buffer => (snprintf size (cstr buffer)).1
  | none => []

theorem cstr_append_zero (text rest : Bytes) : cstr (text ++ 0 :: rest) = cstr text := by
  induction text with
  | nil => simp [cstr]
  | cons c text ih =>
    rw [cstr, cstr] at ih
    simp only [cstr, cons_append, takeWhile_cons, ih]

theorem snprintfDecodeURI_eq (size : Nat) (text : CString) :
    snprintfDecodeURI size text.text = (cstr (decode text.text)).take (size - 1) := by
  obtain ⟨tail, htail⟩ := httpdParmFrom_append [] text.noNul []
  rw [snprintfDecodeURI, httpdParmDo]
  grind [cstr_append_zero, snprintf]

def Conv.store (text : Bytes) : Conv → Stored
  | .s32 => .s32 (atoi text)
  | .u32 => .u32 (atoi text).toUInt32
  | .u16 => .u16 (atoi text).toUInt32.toUInt16
  | .u8 => .u8 (atoi text).toUInt32.toUInt8
  | .u64 => .u64 (atoll text).toUInt64
  | .reversed => .u64 (gmtReversMask - UInt64.ofNat (atoull text))
  | .decoded size => .text (snprintfDecodeURI size text)

/-- A member of the object and the member of the structure that it goes to. -/
structure Field where
  key : String
  member : String
  conv : Conv

/-- The fields that have been stored; the rest of the block is zero. -/
abbrev Record := List (String × Stored)

/-- The text behind `json_value->valuestring`; an absent member is passed over. -/
def readText (root : Value) (key : Bytes) : Except TaskFault (Option Bytes) :=
  match getObjectItem root key with
  | none => .ok none
  | some value =>
    match value.valuestring with
    | none => .error .nullText
    | some text => .ok (some text.text)

def parseField (root : Value) (record : Record) (field : Field) : Except TaskFault Record := do
  match ← readText root (ascii field.key) with
  | none => return record
  | some text => return record ++ [(field.member, field.conv.store text)]

def parseFields (root : Value) (fields : List Field) : Except TaskFault Record :=
  fields.foldlM (parseField root) []

/-- A number that is stored in an `int`; the block is zero where the member is absent. -/
def intMember (root : Value) (key : String) : Except TaskFault Int32 := do
  match ← readText root (ascii key) with
  | some text => return atoi text
  | none => return 0

section Parsers

def userFields : List Field :=
  [⟨"uid", "uid", .u32⟩, ⟨"remark", "remark", .decoded 64⟩, ⟨"account", "account", .decoded 32⟩,
    ⟨"password", "password", .decoded 16⟩, ⟨"old_gid", "old_gid", .s32⟩,
    ⟨"new_gid", "new_gid", .s32⟩, ⟨"bind", "bind", .u8⟩]

def alParseUserData (root : Value) : Except TaskFault Record :=
  parseFields root userFields

def groupFields : List Field :=
  [⟨"gid", "gid", .s32⟩, ⟨"group_name", "group_name", .decoded 32⟩, ⟨"chart", "chat", .u8⟩,
    ⟨"record", "record", .u8⟩, ⟨"control", "control", .u8⟩, ⟨"usb_auth", "usb_auth", .u8⟩,
    ⟨"cd_auth", "cd_auth", .u8⟩]

def alParseGroupData (root : Value) : Except TaskFault Record :=
  parseFields root groupFields

def fileFields : List Field :=
  [⟨"old_gid", "old_gid", .s32⟩, ⟨"old_filename", "old_filename", .decoded 256⟩,
    ⟨"new_gid", "new_gid", .s32⟩, ⟨"new_filename", "new_filename", .decoded 256⟩]

/-- AEFA_ALL. -/
def aefaAll : UInt32 := 127

/-- The access rights are in network order and have a default. -/
def alParseFileData (root : Value) : Except TaskFault Record := do
  let record ← parseFields root fileFields
  let authority := match ← readText root (ascii "authority") with
    | some text => htonl (atoi text).toUInt32
    | none => aefaAll
  parseField root (record ++ [("authority", .u32 authority)]) ⟨"filetype", "filetype", .u8⟩

def qqFields : List Field :=
  [⟨"uid", "uid", .u32⟩, ⟨"gid", "gid", .s32⟩, ⟨"qq_id", "qq_id", .s32⟩,
    ⟨"start_time", "start_time", .reversed⟩, ⟨"end_time", "end_time", .reversed⟩,
    ⟨"page_flag", "page_flag", .s32⟩, ⟨"keyword", "keyword", .decoded 16⟩]

def alParseQqMsgData (root : Value) : Except TaskFault Record :=
  parseFields root qqFields

def processFields : List Field :=
  [⟨"uid", "uid", .u32⟩]

def alParseProcessData (root : Value) : Except TaskFault Record :=
  parseFields root processFields

def detailFields : List Field :=
  [⟨"uid", "uid", .s32⟩, ⟨"gid", "gid", .s32⟩, ⟨"act_type", "act_type", .u32⟩,
    ⟨"start_time", "start_time", .reversed⟩, ⟨"end_time", "end_time", .reversed⟩,
    ⟨"page_flag", "page_flag", .s32⟩]

def alParseDetailData (root : Value) : Except TaskFault Record :=
  parseFields root detailFields

def calcFields : List Field :=
  [⟨"uid", "uid", .u32⟩, ⟨"gid", "gid", .s32⟩, ⟨"start_time", "start_time", .reversed⟩,
    ⟨"end_time", "end_time", .reversed⟩, ⟨"page_flag", "page_flag", .s32⟩]

def alParseCalcData (root : Value) : Except TaskFault Record :=
  parseFields root calcFields

def forbidFields : List Field :=
  [⟨"old_name", "old_name", .decoded 32⟩, ⟨"new_name", "new_name", .decoded 32⟩,
    ⟨"old_gid", "old_gid", .s32⟩, ⟨"new_gid", "new_gid", .s32⟩, ⟨"act_type", "act_type", .u8⟩,
    ⟨"is_forbid", "is_forbid", .u8⟩, ⟨"search_flag", "search_flag", .u8⟩]

def alParseForbidData (root : Value) : Except TaskFault Record :=
  parseFields root forbidFields

def warningFields : List Field :=
  [⟨"warning_msg", "warning_msg", .decoded 128⟩, ⟨"error_msg", "error_msg", .decoded 128⟩,
    ⟨"warning_en", "warning_en", .u8⟩, ⟨"error_en", "error_en", .u8⟩]

def alParseWaringData (root : Value) : Except TaskFault Record :=
  parseFields root warningFields

def systemFields : List Field :=
  [⟨"breaktime", "breaktime", .decoded 128⟩, ⟨"jumpurl", "jumpurl", .decoded 128⟩,
    ⟨"password", "password", .decoded 16⟩, ⟨"login_bind", "login_bind", .u8⟩,
    ⟨"start_time", "start_time", .u64⟩, ⟨"end_time", "end_time", .u64⟩,
    ⟨"t_start_time", "t_start_time", .u64⟩, ⟨"t_end_time", "t_end_time", .u64⟩,
    ⟨"work_day", "work_day", .u16⟩]

def alParseSystemData (root : Value) : Except TaskFault Record :=
  parseFields root systemFields

/-- `http://ip:port/name` for the names that are present. -/
def clientUrl (ip port : Option Bytes) (member : String) : Option Bytes → Record
  | none => []
  | some name =>
    let host := (snprintf 64 (ip.getD [])).1
    let gate := (snprintf 8 (port.getD [])).1
    [(member, .text (snprintf 1024
      (ascii "http://" ++ host ++ ascii ":" ++ gate ++ ascii "/" ++ name)).1)]

def alParseClientData (root : Value) : Except TaskFault Record := do
  let ip ← readText root (ascii "ip")
  let port ← readText root (ascii "port")
  let txtName ← readText root (ascii "txt_name")
  let rarName ← readText root (ascii "rar_name")
  return clientUrl ip port "version_info" txtName ++ clientUrl ip port "upgrade_url" rarName

/-- The text is stored as it is, with no bound on its length. -/
def alParseImportData (root : Value) : Except TaskFault Record := do
  match ← readText root (ascii "filedata") with
  | none => return []
  | some text => return [("filedata", .text text)]

end Parsers

section Lists

/-- The access rights of a group. -/
structure Encrypt where
  gid : Nat
  authority : UInt32
  deriving DecidableEq

structure Encrypts where
  groupNum : Int32
  entries : List Encrypt

/-- The loop over the numbered members, which ends when `groupNum` of them were found; the
counter has no value behind the largest `int`. -/
def encryptLoop (root : Value) (groupNum : Int) (i count : Nat) :
    Except TaskFault (List Encrypt) :=
  if (count : Int) < groupNum then
    if i < 2 ^ 31 then do
      match ← readText root (decimal i) with
      | none => encryptLoop root groupNum (i + 1) count
      | some text =>
        let entries ← encryptLoop root groupNum (i + 1) (count + 1)
        return ⟨i, htonl (atoi text).toUInt32⟩ :: entries
    else .error .counter
  else .ok []
  termination_by 2 ^ 31 - i

def alParseEncryptData (root : Value) : Except TaskFault Encrypts := do
  let groupNum ← intMember root "group_num"
  return ⟨groupNum, ← encryptLoop root groupNum.toInt 0 0⟩

/-- The loop of `split_string` with room for some more fields; a separator at the end of the text
has an empty field behind it. -/
def splitFrom (ge : Byte) : Nat → Bool → Bytes → List Bytes
  | 0, _, _ => []
  | left + 1, isGe, cp =>
    if cp = [] then if isGe then [[]] else []
    else
      match cp.dropWhile (fun c => c ≠ ge) with
      | [] => [cp]
      | _ :: rest => cp.takeWhile (fun c => c ≠ ge) :: splitFrom ge left true rest

/-- The number of fields, and the array with its null pointers. -/
def splitString (ruleStr : Bytes) (ge : Byte) (max : Nat) : Nat × List (Option Bytes) :=
  let fields := splitFrom ge max false ruleStr
  (fields.length, fields.map some ++ List.replicate (max - fields.length) none)

/-- An entry at its place behind `wk->data`; a text that is none is the null pointer. -/
structure WorkAct where
  offset : Nat
  gid : Int32
  oldGid : UInt32
  worktype : UInt8
  process : Option Bytes
  workname : Option Bytes

structure WorkActs where
  listcount : Int32
  head : Record
  acts : List WorkAct

def workFields : List Field :=
  [⟨"gid", "gid", .s32⟩, ⟨"type", "type", .u8⟩, ⟨"describe", "describe", .decoded 48⟩]

/-- The sizes of `az_task_recv_work_acts_t` and `az_task_recv_work_act_t`, packed to 4. -/
def workActsSize : Nat := 60

def workActSize : Nat := 96

/-- The pointer to a field where a number is expected. -/
def fieldNumber (carg : List (Option Bytes)) (index : Nat) : Except TaskFault Int32 :=
  match carg[index]? with
  | some (some text) => .ok (atoi text)
  | _ => .error .nullField

/-- The entry for the pointers of an item. -/
def workEntry (carg : List (Option Bytes)) (written : Nat) : Except TaskFault WorkAct := do
  let gid ← fieldNumber carg 0
  let oldGid ← fieldNumber carg 1
  let worktype ← fieldNumber carg 2
  return {
    offset := workActsSize + workActSize * written
    gid := gid
    oldGid := oldGid.toUInt32
    worktype := worktype.toUInt32.toUInt8
    process := carg[3]?.join.map fun name => (snprintf 32 name).1
    workname := carg[4]?.join.map fun name => (snprintf 48 name).1 }

/-- An item is cut at its bars; one with four fields or more makes an entry. -/
def workItem (text : Bytes) : Nat × List (Option Bytes) :=
  splitString (snprintfDecodeURI 1024 text) 124 6

def workAct (text : Bytes) (written : Nat) : Except TaskFault (Option WorkAct) :=
  if 4 ≤ (workItem text).1 then some <$> workEntry (workItem text).2 written
  else .ok none

/-- The loop over the numbered members below `listcount`. -/
def workLoop (root : Value) : List Nat → Nat → Except TaskFault (List WorkAct)
  | [], _ => .ok []
  | i :: rest, written => do
      match ← readText root (decimal i) with
      | none => workLoop root rest written
      | some text =>
        match ← workAct text written with
        | none => workLoop root rest written
        | some act => return act :: (← workLoop root rest (written + 1))

def alParseWorkData (root : Value) : Except TaskFault WorkActs := do
  let listcount ← intMember root "listcount"
  let head ← parseFields root workFields
  return ⟨listcount, head, ← workLoop root (List.range listcount.toInt.toNat) 0⟩

end Lists

section Dispatch

/-- The parsers that the commands of cmds.h are handed to. -/
inductive TaskKind where
  | user
  | import
  | group
  | file
  | encrypt
  | qq
  | detail
  | process
  | calc
  | work
  | forbid
  | warning
  | system
  | client
  | other
  deriving DecidableEq, Repr

/-- The `switch` over the command.  Of the commands in between, AZ_USER_EXPORT,
AZ_USER_IMPORT_ERR_CSV, the AZ_DYNAMIC ones, AZ_DETAIL_EXPORT_CSV and AZ_WORK_GETJS have no
case. -/
def taskKind (cmd : UInt32) : TaskKind :=
  if 100 ≤ cmd ∧ cmd ≤ 105 then .user
  else if cmd = 107 then .import
  else if 200 ≤ cmd ∧ cmd ≤ 205 then .group
  else if 300 ≤ cmd ∧ cmd ≤ 304 then .file
  else if cmd = 305 ∨ cmd = 306 then .encrypt
  else if 400 ≤ cmd ∧ cmd ≤ 402 then .qq
  else if 503 ≤ cmd ∧ cmd ≤ 508 then .detail
  else if cmd = 518 ∨ cmd = 519 then .process
  else if 509 ≤ cmd ∧ cmd ≤ 516 then .calc
  else if 600 ≤ cmd ∧ cmd ≤ 605 then .work
  else if 700 ≤ cmd ∧ cmd ≤ 704 then .forbid
  else if cmd = 800 then .warning
  else if cmd = 900 then .system
  else if cmd = 950 then .client
  else .other

/-- What is behind `wk->data`. -/
inductive TaskData where
  | record (record : Record)
  | encrypts (encrypts : Encrypts)
  | works (works : WorkActs)

def parseData (cmd : UInt32) (root : Value) : Except TaskFault TaskData :=
  match taskKind cmd with
  | .user => .record <$> alParseUserData root
  | .import => .record <$> alParseImportData root
  | .group => .record <$> alParseGroupData root
  | .file => .record <$> alParseFileData root
  | .encrypt => .encrypts <$> alParseEncryptData root
  | .qq => .record <$> alParseQqMsgData root
  | .detail => .record <$> alParseDetailData root
  | .process => .record <$> alParseProcessData root
  | .calc => .record <$> alParseCalcData root
  | .work => .works <$> alParseWorkData root
  | .forbid => .record <$> alParseForbidData root
  | .warning => .record <$> alParseWaringData root
  | .system => .record <$> alParseSystemData root
  | .client => .record <$> alParseClientData root
  | .other => .ok (.record [])

/-- The fields of `wk_head_t` that are set from the message. -/
structure Head where
  cmd : UInt32
  token : Int32
  deriving DecidableEq

structure WkTask where
  fdIndex : UInt32
  head : Head
  data : TaskData

def parseHead (root : Value) : Except TaskFault Head := do
  let cmd ← intMember root "cmd"
  let token ← intMember root "token"
  return ⟨cmd.toUInt32, token⟩

/-- `al_parse_value_to_wk_task` from the parsed object on; `cached` tells whether the session of
the token was found or could be made.  A task that is left behind is `none`. -/
def parseTask (root : Value) (cached : Int32 → Bool) (fdIndex : UInt32) :
    Except TaskFault (Option WkTask) := do
  let head ← parseHead root
  if cached head.token then return some ⟨fdIndex, head, ← parseData head.cmd root⟩
  else return none

end Dispatch

section Kinds

/-- The member of this name is absent or a string. -/
def Readable (root : Value) (key : Bytes) : Prop :=
  ∀ value, getObjectItem root key = some value → value.valuestring.isSome

/-- The number in a member, 0 where there is none. -/
def numberAt (root : Value) (key : String) : Int32 :=
  match intMember root key with
  | .ok number => number
  | .error _ => 0

/-- How many of the numbers from `first` up to `last` name a member. -/
def present (root : Value) (first last : Nat) : Nat :=
  ((Finset.Ico first last).filter fun i => (getObjectItem root (decimal i)).isSome).card

/-- The members that each parser looks up, whatever the others hold. -/
def namedKeys : TaskKind → List String
  | .user => userFields.map Field.key
  | .import => ["filedata"]
  | .group => groupFields.map Field.key
  | .file => fileFields.map Field.key ++ ["authority", "filetype"]
  | .encrypt => ["group_num"]
  | .qq => qqFields.map Field.key
  | .detail => detailFields.map Field.key
  | .process => processFields.map Field.key
  | .calc => calcFields.map Field.key
  | .work => "listcount" :: workFields.map Field.key
  | .forbid => forbidFields.map Field.key
  | .warning => warningFields.map Field.key
  | .system => systemFields.map Field.key
  | .client => ["ip", "port", "txt_name", "rar_name"]
  | .other => []

/-- The numbered members that each parser looks up. -/
def LooksUp (root : Value) (i : Nat) : TaskKind → Prop
  | .encrypt => i < 2 ^ 31 ∧ (present root 0 i : Int) < (numberAt root "group_num").toInt
  | .work => i < (numberAt root "listcount").toInt.toNat
  | _ => False

/-- Every member that a message makes the parser look up is absent or a string. -/
structure ReadsTexts (root : Value) (cached : Int32 → Bool) : Prop where
  cmd : Readable root (ascii "cmd")
  token : Readable root (ascii "token")
  named : cached (numberAt root "token") →
    ∀ key ∈ namedKeys (taskKind (numberAt root "cmd").toUInt32), Readable root (ascii key)
  numbered : cached (numberAt root "token") →
    ∀ i, LooksUp root i (taskKind (numberAt root "cmd").toUInt32) → Readable root (decimal i)

/-- No null text was passed on. -/
def NoNull {α : Type} (result : Except TaskFault α) : Prop :=
  result ≠ .error .nullText

variable {α β : Type} {root : Value} {key : Bytes}

theorem noNull_ok (value : α) : NoNull (.ok value : Except TaskFault α) := by
  intro h
  cases h

theorem noNull_map {f : α → β} {result : Except TaskFault α} :
    NoNull (f <$> result) ↔ NoNull result := by
  cases result with
  | error fault =>
    rw [NoNull, NoNull]
    simp [Functor.map, Except.map]
  | ok value => exact iff_of_true (noNull_ok (f value)) (noNull_ok value)

theorem noNull_last {f : α → β} {result : Except TaskFault α} :
    NoNull (result >>= fun value => pure (f value)) ↔ NoNull result :=
  noNull_map

theorem noNull_bind {f : α → Except TaskFault β} {result : Except TaskFault α} :
    NoNull (result >>= f) ↔ NoNull result ∧ ∀ value, result = .ok value → NoNull (f value) := by
  cases result with
  | error fault =>
    rw [NoNull, NoNull]
    simp [bind, Except.bind]
  | ok value =>
    constructor
    · intro h
      exact ⟨noNull_ok value, fun other hother => Except.ok.inj hother ▸ h⟩
    · intro h
      exact h.2 value rfl

theorem noNull_bind_of_sole {f : α → Except TaskFault β} {result : Except TaskFault α} {goal : Prop}
    (hsole : NoNull result → ∃ value, result = .ok value)
    (hf : ∀ value, result = .ok value → (NoNull (f value) ↔ goal)) :
    NoNull (result >>= f) ↔ NoNull result ∧ goal := by
  rw [noNull_bind]
  grind

theorem noNull_readText : NoNull (readText root key) ↔ Readable root key := by
  rw [NoNull, readText, Readable]
  grind

theorem readText_sole (hread : NoNull (readText root key)) :
    ∃ found, readText root key = .ok found := by
  rw [noNull_readText] at hread
  rw [readText]
  cases hvalue : getObjectItem root key with
  | none => exact ⟨none, rfl⟩
  | some value =>
    obtain ⟨text, htext⟩ := isSome_iff_exists.mp (hread value hvalue)
    exact ⟨some text.text, by simp [htext]⟩

theorem noNull_readText_bind {f : Option Bytes → Except TaskFault α} {goal : Prop}
    (hf : ∀ found, readText root key = .ok found → (NoNull (f found) ↔ goal)) :
    NoNull (readText root key >>= f) ↔ Readable root key ∧ goal := by
  rw [noNull_bind_of_sole readText_sole hf, noNull_readText]

theorem noNull_parseField {record : Record} {field : Field} :
    NoNull (parseField root record field) ↔ Readable root (ascii field.key) := by
  rw [parseField, noNull_readText_bind fun found _ => iff_of_true ?_ trivial, and_true]
  cases found <;> exact noNull_ok _

theorem parseField_sole {record : Record} {field : Field}
    (hfield : NoNull (parseField root record field)) :
    ∃ next, parseField root record field = .ok next := by
  rw [noNull_parseField, ← noNull_readText] at hfield
  obtain ⟨found, hfound⟩ := readText_sole hfield
  rw [parseField, hfound]
  cases found <;> exact ⟨_, rfl⟩

theorem noNull_foldlM {fields : List Field} {record : Record} :
    NoNull (fields.foldlM (parseField root) record) ↔
      ∀ field ∈ fields, Readable root (ascii field.key) := by
  induction fields generalizing record with
  | nil => exact iff_of_true (noNull_ok record) (forall_mem_nil _)
  | cons field fields ih =>
    rw [foldlM_cons, noNull_bind_of_sole parseField_sole fun _ _ => ih,
      noNull_parseField, forall_mem_cons]

theorem foldlM_sole {fields : List Field} {record : Record}
    (hfields : NoNull (fields.foldlM (parseField root) record)) :
    ∃ next, fields.foldlM (parseField root) record = .ok next := by
  induction fields generalizing record with
  | nil => exact ⟨record, rfl⟩
  | cons field fields ih =>
    rw [foldlM_cons, noNull_bind] at hfields
    obtain ⟨next, hnext⟩ := parseField_sole hfields.1
    rw [foldlM_cons, hnext]
    exact ih (hfields.2 next hnext)

theorem noNull_parseFields {fields : List Field} :
    NoNull (parseFields root fields) ↔
      ∀ key ∈ fields.map Field.key, Readable root (ascii key) := by
  rw [parseFields, noNull_foldlM, List.forall_mem_map]

theorem noNull_alParseFileData :
    NoNull (alParseFileData root) ↔ ∀ key ∈ namedKeys .file, Readable root (ascii key) := by
  rw [namedKeys, forall_mem_append, forall_mem_cons, forall_mem_singleton,
    ← noNull_parseFields]
  refine noNull_bind_of_sole foldlM_sole fun record _ => ?_
  exact noNull_readText_bind fun authority _ => noNull_parseField

theorem noNull_alParseClientData :
    NoNull (alParseClientData root) ↔ ∀ key ∈ namedKeys .client, Readable root (ascii key) := by
  simp only [namedKeys, forall_mem_cons]
  refine noNull_readText_bind fun ip _ => noNull_readText_bind fun port _ => ?_
  refine noNull_readText_bind fun txtName _ => noNull_readText_bind fun rarName _ => ?_
  exact iff_of_true (noNull_ok _) (forall_mem_nil _)

theorem noNull_alParseImportData :
    NoNull (alParseImportData root) ↔ ∀ key ∈ namedKeys .import, Readable root (ascii key) := by
  rw [namedKeys, forall_mem_singleton, alParseImportData,
    noNull_readText_bind fun found _ => iff_of_true ?_ trivial, and_true]
  cases found <;> exact noNull_ok _

theorem present_succ {first last : Nat} (hlt : first < last) :
    present root first last =
      (if (getObjectItem root (decimal first)).isSome then 1 else 0) +
        present root (first + 1) last := by
  simp only [present, Finset.card_filter]
  rw [Finset.sum_eq_sum_Ico_succ_bot hlt]

theorem isSome_of_readText {found : Option Bytes} (hfound : readText root key = .ok found) :
    (getObjectItem root key).isSome = found.isSome := by
  rw [readText] at hfound
  cases hvalue : getObjectItem root key with
  | none =>
    rw [hvalue] at hfound
    rw [← Except.ok.inj hfound]
    rfl
  | some value =>
    rw [hvalue] at hfound
    cases value <;> simp only [Value.valuestring] at hfound <;> cases hfound
    rfl

theorem noNull_encryptLoop {groupNum : Int} {i count : Nat} :
    NoNull (encryptLoop root groupNum i count) ↔
      ∀ j, i ≤ j → j < 2 ^ 31 → (count + present root i j : Int) < groupNum →
        Readable root (decimal j) := by
  fun_induction encryptLoop root groupNum i count with
  | case1 i count hcount hi ih ihFound =>
    have hsplit : (∀ j, i ≤ j → j < 2 ^ 31 → (count + present root i j : Int) < groupNum →
          Readable root (decimal j)) ↔
        Readable root (decimal i) ∧ ∀ j, i + 1 ≤ j → j < 2 ^ 31 →
          (count + present root i j : Int) < groupNum → Readable root (decimal j) := by
      constructor
      · intro h
        refine ⟨h i le_rfl hi ?_, fun j hj => h j (Nat.le_of_succ_le hj)⟩
        simpa [present] using hcount
      grind
    rw [hsplit]
    refine noNull_readText_bind fun found hfound => ?_
    have hcounted {j : Nat} (hj : i + 1 ≤ j) :
        present root i j = (if found.isSome then 1 else 0) + present root (i + 1) j := by
      rw [present_succ hj, isSome_of_readText hfound]
    cases found with
    | none =>
      grind
    | some text =>
      refine (noNull_last.trans ihFound).trans (forall₂_congr fun j hj => ?_)
      rw [hcounted hj]
      simp [add_assoc]
  | case2 i count hcount hi =>
    refine iff_of_true (fun h => by cases h) ?_
    intro j hj hlt
    exact absurd (hj.trans_lt hlt) hi
  | case3 i count hcount =>
    refine iff_of_true (noNull_ok []) ?_
    intro j _ _ hlt
    omega

theorem noNull_intMember {name : String} :
    NoNull (intMember root name) ↔ Readable root (ascii name) := by
  rw [intMember, noNull_readText_bind fun found _ => iff_of_true ?_ trivial, and_true]
  cases found <;> exact noNull_ok _

theorem intMember_ok {name : String} (hreadable : Readable root (ascii name)) :
    intMember root name = .ok (numberAt root name) := by
  rw [← noNull_readText] at hreadable
  obtain ⟨found, hfound⟩ := readText_sole hreadable
  rw [numberAt, intMember, hfound]
  cases found <;> rfl

theorem noNull_intMember_bind {name : String} {f : Int32 → Except TaskFault α} :
    NoNull (intMember root name >>= f) ↔
      Readable root (ascii name) ∧ NoNull (f (numberAt root name)) := by
  rw [noNull_bind, noNull_intMember]
  refine and_congr_right fun hreadable => ?_
  rw [intMember_ok hreadable]
  simp

theorem noNull_alParseEncryptData :
    NoNull (alParseEncryptData root) ↔
      (∀ key ∈ namedKeys .encrypt, Readable root (ascii key)) ∧
        ∀ i, LooksUp root i .encrypt → Readable root (decimal i) := by
  rw [alParseEncryptData, noNull_intMember_bind, namedKeys, forall_mem_singleton]
  refine and_congr_right fun _ => ?_
  refine (noNull_last.trans noNull_encryptLoop).trans ?_
  simp [LooksUp]

theorem splitString_isSome_iff {text : Bytes} {ge : Byte} {max index : Nat} :
    (splitString text ge max).2[index]?.join.isSome ↔ index < (splitString text ge max).1 := by
  rw [splitString]
  by_cases hindex : index < (splitFrom ge max false text).length
  · rw [List.getElem?_append_left (by simpa using hindex)]
    simp [hindex]
  · rw [List.getElem?_append_right (by simpa using hindex), List.getElem?_replicate]
    refine iff_of_false ?_ hindex
    split <;> simp

theorem fieldNumber_ok {text : Bytes} {index : Nat} (hindex : index < (workItem text).1) :
    ∃ number, fieldNumber (workItem text).2 index = .ok number := by
  obtain ⟨field, hfield⟩ :=
    isSome_iff_exists.mp (splitString_isSome_iff.mpr hindex)
  refine ⟨atoi field, ?_⟩
  rw [fieldNumber, workItem, join_eq_some_iff.mp hfield]

/-- The numbers of an entry are there; the last text is the null pointer when the item has just
four fields. -/
theorem workAct_ok (text : Bytes) (written : Nat) :
    ∃ act, workAct text written = .ok act ∧ (act.isSome ↔ 4 ≤ (workItem text).1) ∧
      ∀ entry ∈ act, entry.offset = workActsSize + workActSize * written ∧
        entry.process.isSome ∧ (entry.workname.isSome ↔ 5 ≤ (workItem text).1) := by
  rw [workAct]
  by_cases hcnum : 4 ≤ (workItem text).1
  · obtain ⟨gid, hgid⟩ := fieldNumber_ok (show 0 < (workItem text).1 by omega)
    obtain ⟨oldGid, holdGid⟩ := fieldNumber_ok (show 1 < (workItem text).1 by omega)
    obtain ⟨worktype, hworktype⟩ := fieldNumber_ok (show 2 < (workItem text).1 by omega)
    rw [if_pos hcnum, workEntry, hgid, holdGid, hworktype]
    refine ⟨some _, rfl, iff_of_true rfl hcnum, ?_⟩
    rintro entry ⟨⟩
    refine ⟨rfl, ?_, ?_⟩
    · rw [isSome_map]
      exact splitString_isSome_iff.mpr hcnum
    · rw [isSome_map]
      exact splitString_isSome_iff
  · rw [if_neg hcnum]
    exact ⟨none, rfl, by simp [hcnum], by simp⟩

theorem noNull_workLoop {items : List Nat} {written : Nat} :
    NoNull (workLoop root items written) ↔ ∀ i ∈ items, Readable root (decimal i) := by
  induction items generalizing written with
  | nil => exact iff_of_true (noNull_ok []) (forall_mem_nil _)
  | cons i items ih =>
    rw [forall_mem_cons]
    refine noNull_readText_bind fun found _ => ?_
    cases found with
    | none => exact ih
    | some text =>
      obtain ⟨act, hact, -⟩ := workAct_ok text written
      change NoNull (workAct text written >>= _) ↔ _
      rw [hact]
      cases act with
      | none => exact ih
      | some entry => exact noNull_last.trans ih

theorem noNull_alParseWorkData :
    NoNull (alParseWorkData root) ↔
      (∀ key ∈ namedKeys .work, Readable root (ascii key)) ∧
        ∀ i, LooksUp root i .work → Readable root (decimal i) := by
  rw [alParseWorkData, noNull_intMember_bind, namedKeys, forall_mem_cons, and_assoc]
  refine and_congr_right fun _ => ?_
  rw [← noNull_parseFields]
  refine noNull_bind_of_sole foldlM_sole fun head _ => ?_
  refine (noNull_last.trans noNull_workLoop).trans ?_
  simp [LooksUp]

theorem noNull_parseData {cmd : UInt32} :
    NoNull (parseData cmd root) ↔
      (∀ key ∈ namedKeys (taskKind cmd), Readable root (ascii key)) ∧
        ∀ i, LooksUp root i (taskKind cmd) → Readable root (decimal i) := by
  rw [parseData]
  cases taskKind cmd with
  | encrypt => exact noNull_map.trans noNull_alParseEncryptData
  | work => exact noNull_map.trans noNull_alParseWorkData
  | file => exact noNull_map.trans (noNull_alParseFileData.trans (by simp [LooksUp]))
  | client => exact noNull_map.trans (noNull_alParseClientData.trans (by simp [LooksUp]))
  | «import» => exact noNull_map.trans (noNull_alParseImportData.trans (by simp [LooksUp]))
  | other => simpa [LooksUp, namedKeys] using noNull_ok _
  | _ => exact noNull_map.trans (noNull_parseFields.trans (by simp [LooksUp, namedKeys]))

end Kinds

/-- No null text is passed on just when all that the message makes the parser look up is absent
or a string. -/
theorem parseTask_noNull_iff (root : Value) (cached : Int32 → Bool) (fdIndex : UInt32) :
    parseTask root cached fdIndex ≠ .error .nullText ↔ ReadsTexts root cached := by
  change NoNull (parseTask root cached fdIndex) ↔ _
  have hhead (hcmd : Readable root (ascii "cmd")) (htoken : Readable root (ascii "token")) :
      parseHead root = .ok ⟨(numberAt root "cmd").toUInt32, numberAt root "token"⟩ := by
    rw [parseHead, intMember_ok hcmd, intMember_ok htoken]
    rfl
  have hnoNull : NoNull (parseHead root) ↔
      Readable root (ascii "cmd") ∧ Readable root (ascii "token") := by
    rw [parseHead, noNull_intMember_bind]
    exact and_congr_right fun _ => noNull_last.trans noNull_intMember
  constructor
  · intro h
    rw [parseTask, noNull_bind, hnoNull] at h
    obtain ⟨⟨hcmd, htoken⟩, hrest⟩ := h
    have hrest := hrest _ (hhead hcmd htoken)
    refine ⟨hcmd, htoken, ?_, ?_⟩ <;> intro hcached <;>
      rw [if_pos hcached, noNull_last, noNull_parseData] at hrest
    · exact hrest.1
    · exact hrest.2
  · intro h
    rw [parseTask, noNull_bind, hnoNull]
    refine ⟨⟨h.cmd, h.token⟩, fun head heq => ?_⟩
    obtain rfl := Except.ok.inj ((hhead h.cmd h.token).symm.trans heq)
    split
    · rename_i hcached
      exact noNull_last.mpr (noNull_parseData.mpr ⟨h.named hcached, h.numbered hcached⟩)
    · exact noNull_ok none

theorem readable_of_strings {members : List (CString × Value)}
    (hstrings : ∀ member ∈ members, member.2.valuestring.isSome) (key : Bytes) :
    Readable (.object members) key := by
  intro value hvalue
  obtain ⟨member, hmember, rfl⟩ := map_eq_some_iff.mp hvalue
  exact hstrings member (mem_of_find?_eq_some hmember)

namespace KindWitness

/-- A member as the web server sends it. -/
def member (key text : String) : CString × Value :=
  (CString.ofBuffer (ascii key), .string (CString.ofBuffer (ascii text)))

def message : Value :=
  .object [member "cmd" "103", member "token" "7", member "uid" "12"]

theorem noNull_message : parseTask message (fun _ => true) 0 ≠ .error .nullText := by
  refine (parseTask_noNull_iff message (fun _ => true) 0).mpr ?_
  have hreadable : ∀ key, Readable message key := readable_of_strings (by simp [member,
    Value.valuestring])
  exact ⟨hreadable _, hreadable _, fun _ _ _ => hreadable _, fun _ _ _ => hreadable _⟩

/-- The command sent as a number. -/
def numeric : Bytes :=
  ascii "\x7b\"cmd\":103\x7d" ++ [0]

/-- The fault that parsing a message ends with. -/
def faultOf (message : Bytes) : Option TaskFault :=
  match cJSONParse message [] with
  | some (some (root, _)) =>
    match parseTask root (fun _ => true) 0 with
    | .error fault => some fault
    | .ok _ => none
  | _ => none

theorem parseTask_of_faultOf {message : Bytes} {fault : TaskFault}
    (hfault : faultOf message = some fault) :
    ∃ root left, cJSONParse message [] = some (some (root, left)) ∧
      parseTask root (fun _ => true) 0 = .error fault := by
  rw [faultOf] at hfault
  grind

theorem nullText_numeric : ∃ root left, cJSONParse numeric [] = some (some (root, left)) ∧
    parseTask root (fun _ => true) 0 = .error .nullText :=
  parseTask_of_faultOf (by decide +kernel)

end KindWitness

end Allocator

end WaterWall
