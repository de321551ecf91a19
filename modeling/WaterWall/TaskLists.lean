/-
The two parsers of allocator.c whose messages hold a list: the access rights of the groups, where
the message also claims how many there are, and the rules of work, which are copied to entries
behind the task.
-/
import WaterWall.TaskParser

namespace WaterWall

namespace Allocator

open ByteText PercentText CJson List

section Numerals

variable {members : List (CString × Value)} {i : Nat}

/-- The number that a name is the numeral of, if the counter reaches it. -/
def memberIndex (name : Bytes) : Option Nat :=
  if name = decimal (numeralValue name) ∧ numeralValue name < 2 ^ 31 then
    some (numeralValue name)
  else none

/-- The numbers that name a member. -/
def indices (members : List (CString × Value)) : Finset Nat :=
  (members.filterMap fun member => memberIndex member.1.text).toFinset

def IsNumeral (name : Bytes) : Prop :=
  name ≠ [] ∧ ∀ c ∈ name, IsDigit c

instance (name : Bytes) : Decidable (IsNumeral name) :=
  inferInstanceAs (Decidable (_ ∧ _))

/-- How many members have a numeral for a name. -/
def numericKeys (members : List (CString × Value)) : Nat :=
  members.countP fun member => IsNumeral member.1.text

theorem toLower_eq_digit {c d : Byte} (hd : IsDigit d) : toLower c = d ↔ c = d := by
  have hdigit : d.toNat ≤ 57 := hd.2
  rw [toLower]
  split
  · grind [UInt8.le_iff_toNat_le, UInt8.toNat_add]
  · rfl

theorem sameName_decimal_iff {name : Bytes} : sameName name (decimal i) ↔ name = decimal i := by
  have hmap {left right : Bytes} (hdigits : ∀ d ∈ right, IsDigit d) :
      left.map toLower = right.map toLower ↔ left = right := by
    induction left generalizing right with
    | nil => cases right <;> simp
    | cons c left ih =>
      cases right with
      | nil => simp
      | cons d right =>
        rw [forall_mem_cons] at hdigits
        have hsame : toLower d = d := (toLower_eq_digit hdigits.1).mpr rfl
        rw [map_cons, map_cons, List.cons.injEq, List.cons.injEq, hsame,
          toLower_eq_digit hdigits.1, ih hdigits.2]
  rw [sameName, beq_iff_eq, hmap (decimal_isDigit i)]

theorem isSome_getObjectItem_iff :
    (getObjectItem (.object members) (decimal i)).isSome ↔
      ∃ member ∈ members, member.1.text = decimal i := by
  rw [getObjectItem, Option.isSome_map, List.find?_isSome]
  simp only [sameName_decimal_iff]

theorem memberIndex_eq_some_iff {name : Bytes} :
    memberIndex name = some i ↔ name = decimal i ∧ i < 2 ^ 31 := by
  rw [memberIndex]
  constructor
  · grind
  · rintro ⟨rfl, hi⟩
    rw [numeralValue_decimal, if_pos ⟨rfl, hi⟩]

theorem mem_indices_iff :
    i ∈ indices members ↔
      (getObjectItem (.object members) (decimal i)).isSome ∧ i < 2 ^ 31 := by
  rw [indices, mem_toFinset, mem_filterMap, isSome_getObjectItem_iff]
  grind [memberIndex_eq_some_iff]

theorem present_eq_card : present (.object members) 0 (2 ^ 31) = (indices members).card := by
  rw [present]
  congr 1
  ext i
  rw [Finset.mem_filter, Finset.mem_Ico, mem_indices_iff]
  grind

theorem card_indices_le : (indices members).card ≤ numericKeys members := by
  refine (toFinset_card_le _).trans ?_
  rw [length_filterMap_eq_countP, numericKeys]
  refine countP_mono_left fun member _ hsome => ?_
  obtain ⟨i, hi⟩ := Option.isSome_iff_exists.mp hsome
  obtain ⟨hname, -⟩ := memberIndex_eq_some_iff.mp hi
  rw [decide_eq_true_eq, hname]
  exact ⟨decimal_ne_nil i, decimal_isDigit i⟩

end Numerals

section Encrypt

variable {root : Value} {groupNum : Int} {i count : Nat}

theorem encryptLoop_ok_iff (hreadable : ∀ j, Readable root (decimal j)) :
    (∃ entries, encryptLoop root groupNum i count = .ok entries) ↔
      groupNum ≤ count + present root i (2 ^ 31) := by
  fun_induction encryptLoop root groupNum i count with
  | case1 i count hcount hi ih ihFound =>
    obtain ⟨found, hfound⟩ := readText_sole (noNull_readText.mpr (hreadable i))
    rw [present_succ hi, isSome_of_readText hfound, hfound]
    cases found with
    | none => exact ih.trans (by simp)
    | some text =>
      have hentries : (∃ entries, encryptLoop root groupNum (i + 1) (count + 1) >>=
            (fun entries => pure (⟨i, htonl (atoi text).toUInt32⟩ :: entries)) =
              .ok entries) ↔
          ∃ entries, encryptLoop root groupNum (i + 1) (count + 1) = .ok entries := by
        cases encryptLoop root groupNum (i + 1) (count + 1) with
        | error fault => exact iff_of_false (by rintro ⟨_, ⟨⟩⟩) (by rintro ⟨_, ⟨⟩⟩)
        | ok entries => exact iff_of_true ⟨_, rfl⟩ ⟨_, rfl⟩
      refine hentries.trans (ihFound.trans ?_)
      simp [add_assoc]
  | case2 i count hcount hi =>
    simp_all [present.eq_1]
  | case3 i count hcount =>
    refine iff_of_true ⟨[], rfl⟩ ?_
    omega

theorem encryptLoop_length {entries : List Encrypt}
    (hentries : encryptLoop root groupNum i count = .ok entries) :
    entries.length = (groupNum - count).toNat := by
  fun_induction encryptLoop root groupNum i count generalizing entries with
  | case1 i count hcount hi ih ihFound =>
    cases hread : readText root (decimal i) with
    | error fault =>
      rw [hread] at hentries
      cases hentries
    | ok found =>
      rw [hread] at hentries
      cases found with
      | none => exact ih hentries
      | some text =>
        change encryptLoop root groupNum (i + 1) (count + 1) >>= _ = _ at hentries
        cases hrest : encryptLoop root groupNum (i + 1) (count + 1) with
        | error fault =>
          rw [hrest] at hentries
          cases hentries
        | ok rest =>
          rw [hrest] at hentries
          obtain rfl := Except.ok.inj hentries
          rw [length_cons, ihFound hrest]
          omega
  | case2 => cases hentries
  | case3 i count hcount =>
    obtain rfl := Except.ok.inj hentries
    rw [length_nil]
    omega

theorem alParseEncryptData_ok_iff (hreadable : ∀ key, Readable root key) {encrypts : Encrypts} :
    alParseEncryptData root = .ok encrypts ↔
      encrypts.groupNum = numberAt root "group_num" ∧
        encryptLoop root (numberAt root "group_num").toInt 0 0 = .ok encrypts.entries := by
  rw [alParseEncryptData, intMember_ok (hreadable _)]
  change (encryptLoop root (numberAt root "group_num").toInt 0 0 >>= fun entries =>
    pure (Encrypts.mk (numberAt root "group_num") entries)) = _ ↔ _
  obtain ⟨groupNum, entries⟩ := encrypts
  cases encryptLoop root (numberAt root "group_num").toInt 0 0 with
  | error fault => exact iff_of_false (by rintro ⟨⟩) (by rintro ⟨-, ⟨⟩⟩)
  | ok found =>
    simp [eq_comm]

theorem alParseEncryptData_returns {members : List (CString × Value)}
    (hreadable : ∀ key, Readable (.object members) key) :
    (∃ encrypts, alParseEncryptData (.object members) = .ok encrypts) ↔
      (numberAt (.object members) "group_num").toInt ≤ (indices members).card := by
  have hloop := @encryptLoop_ok_iff (.object members)
    (numberAt (.object members) "group_num").toInt 0 0 fun j => hreadable (decimal j)
  rw [present_eq_card, Nat.cast_zero, zero_add] at hloop
  rw [← hloop]
  constructor
  · rintro ⟨encrypts, hencrypts⟩
    exact ⟨encrypts.entries, ((alParseEncryptData_ok_iff hreadable).mp hencrypts).2⟩
  · rintro ⟨entries, hentries⟩
    exact ⟨⟨_, entries⟩, (alParseEncryptData_ok_iff hreadable).mpr ⟨rfl, hentries⟩⟩

end Encrypt

/-- The parser returns, with no more entries than the object has numbered members, just when the
message claims no more groups than it numbers. -/
theorem alParseEncryptData_returns_iff (members : List (CString × Value))
    (hstrings : ∀ member ∈ members, member.2.valuestring.isSome) :
    (∃ encrypts, alParseEncryptData (.object members) = .ok encrypts ∧
      encrypts.entries.length ≤ numericKeys members) ↔
    (numberAt (.object members) "group_num").toInt ≤ (indices members).card := by
  have hreadable := readable_of_strings hstrings
  rw [← alParseEncryptData_returns hreadable]
  refine exists_congr fun encrypts => and_iff_left_of_imp fun hencrypts => ?_
  have hclaim := (alParseEncryptData_returns hreadable).mp ⟨encrypts, hencrypts⟩
  have hcard := @card_indices_le members
  rw [encryptLoop_length ((alParseEncryptData_ok_iff hreadable).mp hencrypts).2]
  omega

namespace GroupWitness

open KindWitness

def rights : List (CString × Value) :=
  [member "cmd" "306", member "group_num" "2", member "0" "127", member "5" "1"]

theorem returns_rights : ∃ encrypts, alParseEncryptData (.object rights) = .ok encrypts ∧
    encrypts.entries.length ≤ numericKeys rights :=
  (alParseEncryptData_returns_iff rights (by simp [rights, member, Value.valuestring])).mpr
    (by decide +kernel)

/-- One group is claimed and none is there. -/
def claim : List (CString × Value) :=
  [member "cmd" "306", member "group_num" "1"]

theorem not_returns_claim : ¬ ∃ encrypts, alParseEncryptData (.object claim) = .ok encrypts ∧
    encrypts.entries.length ≤ numericKeys claim := by
  rintro ⟨encrypts, hencrypts, -⟩
  have hreadable := @readable_of_strings claim (by simp [claim, member, Value.valuestring])
  have hclaim := (alParseEncryptData_returns hreadable).mp ⟨encrypts, hencrypts⟩
  revert hclaim
  decide +kernel

end GroupWitness

section Work

variable {root : Value}

/-- The text of a member. -/
def textAt (root : Value) (key : Bytes) : Option Bytes :=
  match readText root key with
  | .ok found => found
  | .error _ => none

/-- The items that make an entry, in order. -/
def accepted (root : Value) (items : List Nat) : List Bytes :=
  (items.filterMap fun i => textAt root (decimal i)).filter fun text => 4 ≤ (workItem text).1

/-- The entries for the given items, from a place on. -/
structure Written (acts : List WorkAct) (texts : List Bytes) (written : Nat) : Prop where
  entries : List.Forall₂ (fun act text => act.process.isSome ∧
    (act.workname.isSome ↔ 5 ≤ (workItem text).1)) acts texts
  offsets : acts.map WorkAct.offset =
    (List.range texts.length).map fun k => workActsSize + workActSize * (written + k)

theorem Written.cons {act : WorkAct} {text : Bytes} {acts : List WorkAct} {texts : List Bytes}
    {written : Nat} (hact : act.offset = workActsSize + workActSize * written ∧
      act.process.isSome ∧ (act.workname.isSome ↔ 5 ≤ (workItem text).1))
    (hacts : Written acts texts (written + 1)) :
    Written (act :: acts) (text :: texts) written where
  entries := .cons hact.2 hacts.entries
  offsets := by
    rw [map_cons, hacts.offsets, hact.1, length_cons, range_succ_eq_map,
      map_cons, map_map]
    refine congrArg _ (map_congr_left fun k _ => ?_)
    rw [Function.comp_apply, Nat.succ_eq_add_one, Nat.add_assoc, Nat.add_comm 1 k]

theorem workLoop_ok (hreadable : ∀ i, Readable root (decimal i)) (items : List Nat)
    (written : Nat) :
    ∃ acts, workLoop root items written = .ok acts ∧
      Written acts (accepted root items) written := by
  induction items generalizing written with
  | nil => exact ⟨[], rfl, .nil, rfl⟩
  | cons i items ih =>
    obtain ⟨found, hfound⟩ := readText_sole (noNull_readText.mpr (hreadable i))
    rw [workLoop, hfound]
    have htext : textAt root (decimal i) = found := by
      rw [textAt, hfound]
    cases found with
    | none =>
      obtain ⟨acts, hacts, hwritten⟩ := ih written
      refine ⟨acts, hacts, ?_⟩
      rwa [accepted, filterMap_cons, htext]
    | some text =>
      obtain ⟨act, hact, hsome, hentry⟩ := workAct_ok text written
      change ∃ acts, workAct text written >>= _ = _ ∧ _
      rw [hact, accepted, filterMap_cons, htext]
      cases act with
      | none =>
        obtain ⟨acts, hacts, hwritten⟩ := ih written
        refine ⟨acts, hacts, ?_⟩
        rwa [filter_cons_of_neg (by simpa using hsome)]
      | some act =>
        obtain ⟨acts, hacts, hwritten⟩ := ih (written + 1)
        refine ⟨act :: acts, ?_, ?_⟩
        · change workLoop root items (written + 1) >>= _ = _
          rw [hacts]
          rfl
        · rw [filter_cons_of_pos (by simpa using hsome)]
          exact hwritten.cons (hentry act rfl)

/-- Every entry ends inside the block and every pointer it is made from is that of a field. -/
def WorkInBounds (result : Except TaskFault WorkActs) (size : Nat) : Prop :=
  ∃ works, result = .ok works ∧ ∀ act ∈ works.acts,
    act.offset + workActSize ≤ size ∧ act.process.isSome ∧ act.workname.isSome

theorem Written.inBounds_iff {acts : List WorkAct} {texts : List Bytes} {size : Nat}
    (hacts : Written acts texts 0) (hsize : workActsSize ≤ size) :
    (∀ act ∈ acts, act.offset + workActSize ≤ size) ↔
      workActsSize + workActSize * texts.length ≤ size := by
  have hmap : (∀ act ∈ acts, act.offset + workActSize ≤ size) ↔
      ∀ offset ∈ acts.map WorkAct.offset, offset + workActSize ≤ size := by
    rw [forall_mem_map]
  rw [hmap, hacts.offsets, forall_mem_map]
  simp only [mem_range, workActsSize, workActSize] at hsize ⊢
  constructor
  · intro h
    cases hlength : texts.length with
    | zero => omega
    | succ last =>
      have hlast := h last (by omega)
      omega
  · intro h k hk
    omega

theorem Written.named_iff {acts : List WorkAct} {texts : List Bytes} {written : Nat}
    (hacts : Written acts texts written) :
    (∀ act ∈ acts, act.process.isSome ∧ act.workname.isSome) ↔
      ∀ text ∈ texts, 5 ≤ (workItem text).1 := by
  have hentries := hacts.entries
  clear hacts
  induction hentries with
  | nil => simp
  | cons hact _ ih =>
    rw [forall_mem_cons, forall_mem_cons]
    refine and_congr ?_ ih
    rw [← hact.2]
    exact and_iff_right hact.1

end Work

section Fits

variable {members : List (CString × Value)} {n : Nat}

/-- The items below `listcount` that make an entry. -/
def workTexts (members : List (CString × Value)) : List Bytes :=
  accepted (.object members) (List.range (numberAt (.object members) "listcount").toInt.toNat)

theorem workInBounds_iff (hreadable : ∀ key, Readable (.object members) key) :
    WorkInBounds (alParseWorkData (.object members)) (n + 1024) ↔
      (∀ text ∈ workTexts members, 5 ≤ (workItem text).1) ∧
        workActsSize + workActSize * (workTexts members).length ≤ n + 1024 := by
  obtain ⟨head, hhead⟩ := foldlM_sole (noNull_foldlM.mpr fun field (_ : field ∈ workFields) =>
    hreadable (ascii field.key))
  obtain ⟨acts, hacts, hwritten⟩ := workLoop_ok (fun i => hreadable (decimal i))
    (List.range (numberAt (.object members) "listcount").toInt.toNat) 0
  have hworks : alParseWorkData (.object members) =
      .ok ⟨numberAt (.object members) "listcount", head, acts⟩ := by
    rw [alParseWorkData, intMember_ok (hreadable _)]
    change parseFields (.object members) workFields >>= _ = _
    rw [parseFields, hhead]
    change workLoop _ _ _ >>= _ = _
    rw [hacts]
    rfl
  rw [workTexts, ← hwritten.named_iff, ← hwritten.inBounds_iff (show 60 ≤ n + 1024 by omega),
    hworks, WorkInBounds]
  grind

/-- The fields of an item, by the single pass over its text. -/
def itemFields (text : Bytes) : List Bytes :=
  splitFrom 124 6 false ((cstr (decode text)).take 1023)

theorem workItem_fst (text : CString) : (workItem text.text).1 = (itemFields text.text).length := by
  rw [workItem, splitString, snprintfDecodeURI_eq]
  rfl

theorem exists_of_textAt {root : Value} {key text : Bytes} (htext : textAt root key = some text) :
    ∃ valuestring : CString, valuestring.text = text := by
  rw [textAt, readText] at htext
  grind

/-- The items that make an entry, by the single pass over their texts. -/
def plainTexts (members : List (CString × Value)) : List Bytes :=
  ((List.range (numberAt (.object members) "listcount").toInt.toNat).filterMap fun i =>
    textAt (.object members) (decimal i)).filter fun text => 4 ≤ (itemFields text).length

theorem workTexts_eq : workTexts members = plainTexts members := by
  refine filter_congr fun text htext => ?_
  grind [exists_of_textAt, workItem_fst]

theorem workFields_iff :
    (∀ text ∈ workTexts members, 5 ≤ (workItem text).1) ↔
      ∀ text ∈ workTexts members, 5 ≤ (itemFields text).length := by
  refine forall₂_congr fun text htext => ?_
  obtain ⟨i, -, hi⟩ := mem_filterMap.mp (mem_of_mem_filter htext)
  obtain ⟨valuestring, rfl⟩ := exists_of_textAt hi
  rw [workItem_fst]

end Fits

/-- The rules stay in the block of a message of length `n`, and no pointer is null, just when all
the items with four fields have a fifth one and their entries fit. -/
theorem alParseWorkData_inBounds_iff (members : List (CString × Value)) (n : Nat)
    (hstrings : ∀ member ∈ members, member.2.valuestring.isSome) :
    WorkInBounds (alParseWorkData (.object members)) (n + 1024) ↔
      (∀ text ∈ workTexts members, 5 ≤ (workItem text).1) ∧
        workActsSize + workActSize * (workTexts members).length ≤ n + 1024 :=
  workInBounds_iff (readable_of_strings hstrings)

namespace WorkWitness

open KindWitness

def rule : List (CString × Value) :=
  [member "cmd" "600", member "listcount" "1", member "0" "1|2|0|app.exe|Chat"]

theorem inBounds_rule : WorkInBounds (alParseWorkData (.object rule)) (64 + 1024) := by
  refine (alParseWorkData_inBounds_iff rule 64 (by simp [rule, member, Value.valuestring])).mpr ?_
  rw [workFields_iff, workTexts_eq]
  decide +kernel

/-- The members of a message. -/
def membersOf (message : Bytes) : Option (List (CString × Value)) :=
  match cJSONParse (message ++ [0]) [] with
  | some (some (.object members, _)) => some members
  | _ => none

/-- The message has strings only, and its rules do not fit. -/
def overrunCheck (message : Bytes) : Bool :=
  match membersOf message with
  | none => false
  | some members =>
    decide (∀ member ∈ members, member.2.valuestring.isSome) &&
      !decide ((∀ text ∈ plainTexts members, 5 ≤ (itemFields text).length) ∧
        workActsSize + workActSize * (plainTexts members).length ≤ message.length + 1024)

/-- A message of strings that is parsed beyond the block or with a null pointer. -/
def Overruns (message : Bytes) : Prop :=
  ∃ members, membersOf message = some members ∧
    (∀ member ∈ members, member.2.valuestring.isSome) ∧
    ¬ WorkInBounds (alParseWorkData (.object members)) (message.length + 1024)

theorem overruns_of_check {message : Bytes} (hoverruns : overrunCheck message) :
    Overruns message := by
  rw [overrunCheck] at hoverruns
  split at hoverruns
  · cases hoverruns
  · rename_i members hmembers
    rw [Bool.and_eq_true, decide_eq_true_eq, Bool.not_eq_true', decide_eq_false_iff_not,
      ← workTexts_eq, ← workFields_iff] at hoverruns
    refine ⟨members, hmembers, hoverruns.1, ?_⟩
    rw [workInBounds_iff (readable_of_strings hoverruns.1)]
    exact hoverruns.2

/-- An item with just four fields. -/
def short : Bytes :=
  ascii "\x7b\"cmd\":\"600\",\"listcount\":\"1\",\"0\":\"1|1|0|app.exe\"\x7d"

/-- Sixteen items of four bars each. -/
def crowded : Bytes :=
  ascii "\x7b\"cmd\":\"600\",\"listcount\":\"16\"" ++
    (List.range 16).flatMap (fun i => ascii ",\"" ++ decimal i ++ ascii "\":\"||||\"") ++
    ascii "\x7d"

theorem overruns_messages : Overruns short ∧ Overruns crowded :=
  ⟨overruns_of_check (by decide +kernel), overruns_of_check (by decide +kernel)⟩

end WorkWitness

end Allocator

end WaterWall
