/-
Retention deletes of auto_data_save.c that clean one user's rows of one type
(or of one QQ account).  The loop scans a page, deletes it, and resumes behind
the number it reads back from the last key of the page.  That number is read at
`strlen(prefix) + USERID_LEN`, where these keys hold the type and not the time:
from the second page on, the scans start behind the type number.
-/
import WaterWall.Atoull
import WaterWall.SsdbStore

namespace WaterWall

open ByteText OrderedStore List

universe v

variable {V : Type v}

/-- USERID_LEN of worker.h: five digits and the `'-'` behind them. -/
def useridLen : Nat := 6

/-- PRE_USER_DETAIL_ACTION of prefix.h. -/
def userDetailPre : CString := ⟨ascii "anud-", by decide⟩

/-- PRE_USER_CALC_ACTION. -/
def userCalcPre : CString := ⟨ascii "anua-", by decide⟩

/-- PRE_USERGROUP_CALC_ACTION. -/
def usergroupCalcPre : CString := ⟨ascii "anuga-", by decide⟩

/-- The `dbdel` of one scanned row: the key goes through a 64-byte buffer. -/
def delRow (db : Database V) (row : Bytes × V) : Database V :=
  dbdel db (snprintf keyBufLen (cstr row.1)).1 (snprintf keyBufLen (cstr row.1)).2

/-- `gmt_u64?gmt_u64+1:0`, the number a scan starts behind. -/
def resumeAfter (gmt : Nat) : Nat :=
  if gmt ≠ 0 then (gmt + 1) % u64Size else 0

/-- The `do { … } while(db_ret->kvn > 0)` loop shared by the retention deletes.
`startText` prints the scan start for a resume number, `endText` is the scan
end, `offset` is where the resume number is read in the last key of a page.
`none` means that the fuel did not suffice; the pair is the return value and
the database left behind. -/
def retentionLoop (startText : Nat → Bytes) (endText : Bytes) (offset : Nat) :
    Nat → Nat → Database V → Option (Int × Database V)
  | 0, _, _ => none
  | fuel + 1, gmt, db =>
    let start := snprintf keyBufLen (startText (resumeAfter gmt))
    let stop := snprintf keyBufLen endText
    match dbscan db start.1 start.2 stop.1 stop.2 dbKvnMax with
    | none => some (-1, db)
    | some page =>
      match page.getLast? with
      | none => some (0, db)
      | some last =>
        retentionLoop startText endText offset fuel
          (atoull (cstr (last.1.drop offset))) (page.foldl delRow db)

/-- `"%s%d-%d"`, the common head of the scan bounds. -/
def userTypeText (pre : CString) (uid type : UInt32) : Bytes :=
  pre.text ++ printD uid ++ ascii "-" ++ printD type

/-- `"%s%d-%d-%llu"`. -/
def userTypeStart (pre : CString) (uid type : UInt32) (gmt : Nat) : Bytes :=
  userTypeText pre uid type ++ ascii "-" ++ decimal gmt

/-- `"%s%d-%d."`. -/
def userTypeEnd (pre : CString) (uid type : UInt32) : Bytes :=
  userTypeText pre uid type ++ ascii "."

/-- The body that both functions below have.  A page is never empty when the
loop goes on, so one round for each row and one more are enough. -/
def delUserTypeRows (gmt : Nat) (uid : UInt32) (pre : CString) (type : UInt32)
    (db : Database V) : Option (Int × Database V) :=
  retentionLoop (userTypeStart pre uid type) (userTypeEnd pre uid type)
    (pre.text.length + useridLen) (db.rows.length + 1) gmt db

def wwDelUserDbDataByUidTypeGmtPrefix (gmt : Nat) (uid : UInt32) (pre : CString)
    (type : UInt32) (db : Database V) : Option (Int × Database V) :=
  delUserTypeRows gmt uid pre type db

def wwDelUserQqMsgDataByGmtUidPrefix (gmt : Nat) (uid : UInt32) (pre : CString)
    (qqId : UInt32) (db : Database V) : Option (Int × Database V) :=
  delUserTypeRows gmt uid pre qqId db

/-- The fields of a key `prefix uid-t-G-hour`. -/
@[ext]
structure UserTypeKey where
  uid : Nat
  type : Nat
  gmt : Nat
  hour : Nat
  uid_digits : 10 ^ 4 ≤ uid ∧ uid < 10 ^ 5
  type_lt : type < 2 ^ 31
  gmt_digits : 10 ^ 9 ≤ gmt ∧ gmt < 10 ^ 10

/-- The part of the key behind the type: `G-hour`. -/
def UserTypeKey.tail (key : UserTypeKey) : Bytes :=
  decimal key.gmt ++ ascii "-" ++ decimal key.hour

def UserTypeKey.text (pre : CString) (key : UserTypeKey) : Bytes :=
  pre.text ++ decimal key.uid ++ ascii "-" ++ decimal key.type ++
    ascii "-" ++ key.tail

/-- Every key under the prefix has the documented layout and fits the key
buffers. -/
def KeyLayout (pre : CString) (db : Database V) : Prop :=
  ∀ row ∈ db.rows, pre.text <+: row.1 →
    ∃ key : UserTypeKey, row.1 = key.text pre ∧ row.1.length < keyBufLen

/-- A key of the given user and type. -/
def UserTypeKey.Of (key : UserTypeKey) (uid type : UInt32) : Prop :=
  key.uid = uid.toNat ∧ key.type = type.toNat

/-- A key text of the given user and type that is older than the cutoff: times
are stored reversed, so older means larger. -/
def Due (pre : CString) (uid type : UInt32) (gmt : Nat) (text : Bytes) : Prop :=
  ∃ key : UserTypeKey, text = key.text pre ∧ key.Of uid type ∧ gmt < key.gmt

/-- Exactly the due keys are gone. -/
def RemovedExactly (pre : CString) (uid type : UInt32) (gmt : Nat)
    (db final : Database V) : Prop :=
  ∀ row, row ∈ final.rows ↔ row ∈ db.rows ∧ ¬ Due pre uid type gmt row.1

/-- The number that every scan after the first one starts behind. -/
def resumeNumber (type : UInt32) : Nat :=
  if type.toNat ≠ 0 then type.toNat + 1 else 0

open Classical in
noncomputable def dueRows (pre : CString) (uid type : UInt32) (gmt : Nat)
    (db : Database V) : List (Bytes × V) :=
  db.rows.filter fun row => Due pre uid type gmt row.1

/-- Resuming behind the type number does no harm: no kept row of the user and
type lies behind it, and every due row beyond the first page does. -/
def ResumeHarmless (pre : CString) (uid type : UInt32) (gmt : Nat)
    (db : Database V) : Prop :=
  (∀ row ∈ db.rows, ∀ key : UserTypeKey, row.1 = key.text pre →
      key.Of uid type → key.gmt ≤ gmt →
      key.tail ≤ decimal (resumeNumber type)) ∧
    ∀ row ∈ (dueRows pre uid type gmt db).drop dbKvnMax, ∀ key : UserTypeKey,
      row.1 = key.text pre → decimal (resumeNumber type) < key.tail

/-- The function returns, and if it returns 0 it has removed exactly the due
keys. -/
def RetentionExact
    (delete : Nat → UInt32 → CString → UInt32 → Database V →
      Option (Int × Database V))
    (gmt : Nat) (uid : UInt32) (pre : CString) (type : UInt32)
    (db : Database V) : Prop :=
  ∃ ret final, delete gmt uid pre type db = some (ret, final) ∧
    (ret = 0 → RemovedExactly pre uid type gmt db final)

section KeyText

variable {pre : CString} {uid type : UInt32}

@[simp]
theorem ascii_dash : ascii "-" = [45] := rfl

@[simp]
theorem ascii_dot : ascii "." = [46] := rfl

theorem UserTypeKey.text_injective (pre : CString) :
    Function.Injective (UserTypeKey.text pre) := by
  intro left right heq
  simp only [text, tail, ascii_dash, append_assoc, cons_append,
    nil_append, append_cancel_left_eq] at heq
  have hdash : ¬ IsDigit 45 := by decide
  grind [decimal_append_inj, UserTypeKey.ext, decimal_injective]

theorem UserTypeKey.text_noNul (pre : CString) (key : UserTypeKey) :
    (0 : Byte) ∉ key.text pre := by
  have hnum : ∀ n, (0 : Byte) ∉ decimal n := not_mem_decimal (by decide)
  simp [text, tail, hnum, pre.noNul]

theorem printD_of_lt {n : UInt32} (hn : n.toNat < 2 ^ 31) :
    printD n = decimal n.toNat :=
  if_pos hn

theorem UserTypeKey.text_of {key : UserTypeKey} (hof : key.Of uid type) :
    key.text pre = userTypeText pre uid type ++ ascii "-" ++ key.tail := by
  obtain ⟨huid, htype⟩ := hof
  have hu := key.uid_digits.2
  have ht := key.type_lt
  rw [userTypeText, printD_of_lt (by omega), printD_of_lt (by omega), text,
    huid, htype]

theorem between_userType_iff {db : Database V} (hlayout : KeyLayout pre db)
    {row : Bytes × V} (hrow : row ∈ db.rows) (number : Nat) :
    userTypeStart pre uid type number < row.1 ∧ row.1 ≤ userTypeEnd pre uid type ↔
      ∃ key : UserTypeKey, row.1 = key.text pre ∧ key.Of uid type ∧
        decimal number < key.tail := by
  constructor
  · rintro ⟨hlow, hhigh⟩
    rw [userTypeStart, append_assoc] at hlow
    obtain ⟨suffix, hsuffix⟩ := exists_suffix_of_between hlow hhigh
    have hpre : pre.text <+: row.1 := by
      rw [hsuffix, userTypeText]
      simp only [append_assoc]
      exact prefix_append _ _
    obtain ⟨key, hkey, _⟩ := hlayout row hrow hpre
    rw [hsuffix, append_lt_append_left_iff] at hlow
    rw [hsuffix, userTypeEnd, append_le_append_left_iff] at hhigh
    rw [hsuffix] at hkey
    cases suffix with
    | nil => simp at hlow
    | cons stop rest =>
      simp only [ascii_dash, ascii_dot, cons_append, nil_append]
        at hlow hhigh
      have hstop : ¬ IsDigit stop := by
        rintro ⟨hdigit, _⟩
        have hle : ¬ (46 : Byte) < stop := by
          intro hlt
          exact absurd (cons_lt_cons_iff.mpr (Or.inl hlt)) (not_lt.mpr hhigh)
        rw [UInt8.lt_iff_toNat_lt] at hle
        exact hle (Nat.lt_of_lt_of_le (by decide) hdigit)
      have hdash : ¬ IsDigit 45 := by decide
      simp only [userTypeText, UserTypeKey.text, ascii_dash, append_assoc,
        cons_append, nil_append, append_cancel_left_eq] at hkey
      obtain ⟨huid, _, hkey⟩ := printD_append_inj hdash hdash hkey
      obtain ⟨htype, rfl, rfl⟩ := printD_append_inj hstop hdash hkey
      have hof : key.Of uid type := ⟨huid.symm, htype.symm⟩
      refine ⟨key, ?_, hof, by simpa [cons_lt_cons_iff] using hlow⟩
      rw [hsuffix, key.text_of hof]
      simp
  · rintro ⟨key, hkey, hof, hlt⟩
    rw [hkey, key.text_of hof, userTypeStart, userTypeEnd]
    simp_all [append_lt_append_left_iff, le_of_lt, cons_lt_cons_iff]

theorem decimal_lt_tail_iff {gmt : Nat} (hgmt : 10 ^ 9 ≤ gmt ∧ gmt < 2 ^ 32 - 1)
    (key : UserTypeKey) : decimal (gmt + 1) < key.tail ↔ gmt < key.gmt := by
  have hcutoff : (decimal (gmt + 1)).length = 10 :=
    decimal_length_of_range (by omega) (by omega)
  have htime : (decimal key.gmt).length = 10 :=
    decimal_length_of_range key.gmt_digits.1 key.gmt_digits.2
  rw [UserTypeKey.tail, append_assoc,
    decimal_lt_append_iff (hcutoff.trans htime.symm) (by simp), Nat.succ_le_iff]

theorem between_iff_due {db : Database V} (hlayout : KeyLayout pre db)
    {gmt : Nat} (hgmt : 10 ^ 9 ≤ gmt ∧ gmt < 2 ^ 32 - 1)
    {row : Bytes × V} (hrow : row ∈ db.rows) :
    userTypeStart pre uid type (gmt + 1) < row.1 ∧
        row.1 ≤ userTypeEnd pre uid type ↔ Due pre uid type gmt row.1 := by
  rw [between_userType_iff hlayout hrow, Due]
  simp only [decimal_lt_tail_iff hgmt]

theorem atoull_drop_text {key : UserTypeKey} (hof : key.Of uid type) :
    atoull (cstr ((key.text pre).drop (pre.text.length + useridLen))) =
      type.toNat := by
  have huid : (decimal key.uid).length = 5 :=
    decimal_length_of_range key.uid_digits.1 key.uid_digits.2
  have htype := key.type_lt
  have hsplit : key.text pre = (pre.text ++ decimal key.uid ++ ascii "-") ++
      (decimal key.type ++ 45 :: key.tail) := by
    simp [UserTypeKey.text]
  have hlength : (pre.text ++ decimal key.uid ++ ascii "-").length =
      pre.text.length + useridLen := by
    simp [huid, useridLen]
  have hnul : (0 : Byte) ∉ decimal key.type ++ 45 :: key.tail := by
    intro hmem
    apply key.text_noNul pre
    rw [hsplit]
    exact mem_append_right _ hmem
  rw [hsplit, ← hlength, drop_left, cstr_eq_self hnul,
    atoull_decimal_append (by rw [u64Size]; omega) (Or.inr ⟨_, rfl⟩), hof.2]

theorem KeyLayout.of_subset {db final : Database V} (hlayout : KeyLayout pre db)
    (hsubset : ∀ row ∈ final.rows, row ∈ db.rows) : KeyLayout pre final :=
  fun row hrow => hlayout row (hsubset row hrow)

end KeyText

section Loop

variable {pre : CString} {uid type : UInt32}

theorem delRow_of_fits (db : Database V) {row : Bytes × V}
    (hnul : (0 : Byte) ∉ row.1) (hfits : row.1.length < keyBufLen) :
    delRow db row = db.del row.1 := by
  rw [delRow, cstr_eq_self hnul, snprintf_fits hfits, dbdel, if_pos rfl]

theorem foldl_delRow (db : Database V) {page : List (Bytes × V)}
    (hpage : ∀ row ∈ page, (0 : Byte) ∉ row.1 ∧ row.1.length < keyBufLen) :
    page.foldl delRow db = db.delAll (page.map Prod.fst) := by
  induction page generalizing db with
  | nil => rfl
  | cons row page ih =>
    obtain ⟨hnul, hfits⟩ := hpage row mem_cons_self
    rw [foldl_cons, delRow_of_fits db hnul hfits,
      ih _ fun other hother => hpage other (mem_cons_of_mem row hother)]
    rfl

theorem resumeAfter_cutoff {gmt : Nat} (hgmt : 10 ^ 9 ≤ gmt ∧ gmt < 2 ^ 32 - 1) :
    resumeAfter gmt = gmt + 1 := by
  rw [resumeAfter, if_pos (by omega), u64Size]
  omega

theorem resumeAfter_type (type : UInt32) :
    resumeAfter type.toNat = resumeNumber type := by
  have hlt := type.toNat_lt
  rw [resumeAfter, resumeNumber, u64Size]
  split <;> omega

/-- The rows of one scan of the loop. -/
def userTypePage (pre : CString) (uid type : UInt32) (number : Nat)
    (db : Database V) : List (Bytes × V) :=
  db.scan (userTypeStart pre uid type number) (userTypeEnd pre uid type) dbKvnMax

theorem userTypeEnd_fits {number : Nat}
    (hfits : (userTypeStart pre uid type number).length < keyBufLen) :
    (userTypeEnd pre uid type).length < keyBufLen := by
  grind [userTypeStart, userTypeEnd, ascii_dash, ascii_dot]

theorem exists_key_of_mem_page {db : Database V} (hlayout : KeyLayout pre db)
    {number : Nat} {row : Bytes × V}
    (hrow : row ∈ userTypePage pre uid type number db) :
    ∃ key : UserTypeKey, row.1 = key.text pre ∧ key.Of uid type ∧
      row.1.length < keyBufLen := by
  obtain ⟨hmem, hrange⟩ := Store.mem_of_mem_scan hrow
  obtain ⟨key, hkey, hof, _⟩ := (between_userType_iff hlayout hmem number).mp hrange
  have hpre : pre.text <+: row.1 := by
    rw [hkey, UserTypeKey.text]
    simp only [append_assoc]
    exact prefix_append _ _
  obtain ⟨_, _, hfits⟩ := hlayout row hmem hpre
  exact ⟨key, hkey, hof, hfits⟩

theorem retentionLoop_page {db : Database V} (hlayout : KeyLayout pre db)
    {gmt : Nat}
    (hfits : (userTypeStart pre uid type (resumeAfter gmt)).length < keyBufLen)
    (hpage : userTypePage pre uid type (resumeAfter gmt) db ≠ []) (fuel : Nat) :
    retentionLoop (userTypeStart pre uid type) (userTypeEnd pre uid type)
        (pre.text.length + useridLen) (fuel + 1) gmt db =
      retentionLoop (userTypeStart pre uid type) (userTypeEnd pre uid type)
        (pre.text.length + useridLen) fuel type.toNat
        (db.delAll ((userTypePage pre uid type (resumeAfter gmt) db).map
          Prod.fst)) := by
  have hrows : ∀ row ∈ userTypePage pre uid type (resumeAfter gmt) db,
      (0 : Byte) ∉ row.1 ∧ row.1.length < keyBufLen := by
    intro row hrow
    obtain ⟨key, hkey, _, hlength⟩ := exists_key_of_mem_page hlayout hrow
    exact ⟨hkey ▸ key.text_noNul pre, hlength⟩
  obtain ⟨key, hkey, hof, _⟩ :=
    exists_key_of_mem_page hlayout (getLast_mem hpage)
  have hnumber := @atoull_drop_text pre uid type key hof
  rw [← hkey] at hnumber
  have hlast := List.getLast?_eq_getLast_of_ne_nil hpage
  simp only [userTypePage] at hlast hnumber hrows
  rw [retentionLoop]
  simp only [snprintf_fits hfits,
    snprintf_fits (userTypeEnd_fits hfits), dbscan, and_self, ↓reduceIte, hlast,
    hnumber, foldl_delRow db hrows, userTypePage]

theorem retentionLoop_empty {db : Database V} {gmt : Nat}
    (hfits : (userTypeStart pre uid type (resumeAfter gmt)).length < keyBufLen)
    (hpage : userTypePage pre uid type (resumeAfter gmt) db = [])
    (fuel offset : Nat) :
    retentionLoop (userTypeStart pre uid type) (userTypeEnd pre uid type)
      offset (fuel + 1) gmt db = some (0, db) := by
  rw [userTypePage] at hpage
  rw [retentionLoop]
  simp only [snprintf_fits hfits,
    snprintf_fits (userTypeEnd_fits hfits), dbscan, and_self, ↓reduceIte, hpage,
    List.getLast?_nil]

theorem retentionLoop_type {db : Database V} (hlayout : KeyLayout pre db)
    (hfits : (userTypeStart pre uid type (resumeNumber type)).length < keyBufLen)
    (fuel : Nat) :
    retentionLoop (userTypeStart pre uid type) (userTypeEnd pre uid type)
        (pre.text.length + useridLen) fuel type.toNat db =
      (Store.purge (userTypeStart pre uid type (resumeNumber type))
        (userTypeEnd pre uid type) dbKvnMax fuel db).map fun final => (0, final) := by
  induction fuel generalizing db with
  | zero => rfl
  | succ fuel ih =>
    have hresume := resumeAfter_type type
    by_cases hpage : userTypePage pre uid type (resumeNumber type) db = []
    · rw [retentionLoop_empty (hresume ▸ hfits) (hresume ▸ hpage)]
      simp only [userTypePage] at hpage
      simp [Store.purge, hpage]
    · rw [retentionLoop_page hlayout (hresume ▸ hfits) (hresume ▸ hpage),
        ih (hlayout.of_subset fun row hrow => (Store.mem_delAll.mp hrow).1),
        hresume]
      simp only [userTypePage] at hpage ⊢
      simp [Store.purge, hpage]

end Loop

section Exactness

variable {pre : CString} {uid type : UInt32} {gmt : Nat} {db : Database V}

theorem mem_dueRows {row : Bytes × V} :
    row ∈ dueRows pre uid type gmt db ↔
      row ∈ db.rows ∧ Due pre uid type gmt row.1 := by
  simp [dueRows]

theorem firstPage_eq (hlayout : KeyLayout pre db)
    (hgmt : 10 ^ 9 ≤ gmt ∧ gmt < 2 ^ 32 - 1) :
    userTypePage pre uid type (gmt + 1) db =
      (dueRows pre uid type gmt db).take dbKvnMax := by
  classical
  rw [userTypePage, Store.scan, dueRows]
  congr 1
  apply filter_congr
  intro row hrow
  rw [Bool.eq_iff_iff, Store.inRange_iff, decide_eq_true_eq,
    between_iff_due hlayout hgmt hrow]

theorem not_mem_drop_of_mem_take {row : Bytes × V}
    (hrow : row ∈ (dueRows pre uid type gmt db).take dbKvnMax) :
    row ∉ (dueRows pre uid type gmt db).drop dbKvnMax := by
  exact disjoint_take_drop (db.rows_nodup.filter _) le_rfl hrow

theorem userTypeStart_fits {key : UserTypeKey} (hof : key.Of uid type)
    (hkey : (key.text pre).length < keyBufLen) {number : Nat}
    (hnumber : number < 10 ^ 10) :
    (userTypeStart pre uid type number).length < keyBufLen := by
  have htime : (decimal key.gmt).length = 10 :=
    decimal_length_of_range key.gmt_digits.1 key.gmt_digits.2
  have hwidth := decimal_length_le hnumber
  rw [key.text_of hof] at hkey
  grind [userTypeStart, UserTypeKey.tail]

theorem resumeNumber_lt (htype : type.toNat < 2 ^ 31) :
    resumeNumber type < 10 ^ 10 := by
  rw [resumeNumber]
  split <;> omega

/-- With a due row present, the loop removes the first page and then every row
behind the type number. -/
theorem delUserTypeRows_due (hlayout : KeyLayout pre db)
    (hgmt : 10 ^ 9 ≤ gmt ∧ gmt < 2 ^ 32 - 1)
    (hdue : dueRows pre uid type gmt db ≠ []) :
    ∃ final, delUserTypeRows gmt uid pre type db = some (0, final) ∧
      ∀ row, row ∈ final.rows ↔ row ∈ db.rows ∧
        row ∉ (dueRows pre uid type gmt db).take dbKvnMax ∧
        ¬ ∃ key : UserTypeKey, row.1 = key.text pre ∧ key.Of uid type ∧
          decimal (resumeNumber type) < key.tail := by
  have hcutoff := resumeAfter_cutoff hgmt
  have hpage : userTypePage pre uid type (gmt + 1) db ≠ [] := by
    rw [firstPage_eq hlayout hgmt]
    simpa [dbKvnMax] using hdue
  obtain ⟨key, hkey, hof, hlength⟩ :=
    exists_key_of_mem_page hlayout (getLast_mem hpage)
  rw [hkey] at hlength
  have hfirst : (userTypeStart pre uid type (gmt + 1)).length < keyBufLen :=
    userTypeStart_fits hof hlength (by omega)
  have hnext : (userTypeStart pre uid type (resumeNumber type)).length <
      keyBufLen :=
    userTypeStart_fits hof hlength (resumeNumber_lt (hof.2 ▸ key.type_lt))
  have hkept : KeyLayout pre (db.delAll
      ((userTypePage pre uid type (gmt + 1) db).map Prod.fst)) :=
    hlayout.of_subset fun row hrow => (Store.mem_delAll.mp hrow).1
  obtain ⟨final, hpurge, hfinal⟩ := Store.purge_spec
    (userTypeStart pre uid type (resumeNumber type)) (userTypeEnd pre uid type)
    (by decide : 0 < dbKvnMax) (Store.delAll_scan_length_lt hpage)
  refine ⟨final, ?_, fun row => ?_⟩
  · rw [delUserTypeRows, retentionLoop_page hlayout (hcutoff.symm ▸ hfirst)
      (hcutoff.symm ▸ hpage), hcutoff, retentionLoop_type hkept hnext]
    simp only [userTypePage, hpurge, Option.map_some]
  · rw [hfinal, Store.mem_delAll_scan, ← userTypePage, firstPage_eq hlayout hgmt,
      and_assoc]
    refine and_congr_right fun hrow => and_congr_right fun _ => not_congr ?_
    exact between_userType_iff hlayout hrow (resumeNumber type)

theorem delUserTypeRows_no_due (hlayout : KeyLayout pre db)
    (hgmt : 10 ^ 9 ≤ gmt ∧ gmt < 2 ^ 32 - 1)
    (hdue : dueRows pre uid type gmt db = []) :
    ∃ ret, delUserTypeRows gmt uid pre type db = some (ret, db) := by
  have hcutoff := resumeAfter_cutoff hgmt
  have hpage : userTypePage pre uid type (gmt + 1) db = [] := by
    rw [firstPage_eq hlayout hgmt, hdue, take_nil]
  by_cases hfits : (userTypeStart pre uid type (gmt + 1)).length < keyBufLen
  · exact ⟨0, retentionLoop_empty (hcutoff.symm ▸ hfits) (hcutoff.symm ▸ hpage) _ _⟩
  · refine ⟨-1, ?_⟩
    have hlong : ¬ (snprintf keyBufLen (userTypeStart pre uid type (gmt + 1))).2 =
        (snprintf keyBufLen (userTypeStart pre uid type (gmt + 1))).1.length :=
      (snprintf_length_eq_iff (by decide)).not.mpr hfits
    rw [delUserTypeRows, retentionLoop]
    simp only [hcutoff, dbscan, hlong, false_and, ↓reduceIte]

theorem resumeHarmless_of_removedExactly {final : Database V}
    (hfinal : ∀ row, row ∈ final.rows ↔ row ∈ db.rows ∧
      row ∉ (dueRows pre uid type gmt db).take dbKvnMax ∧
      ¬ ∃ key : UserTypeKey, row.1 = key.text pre ∧ key.Of uid type ∧
        decimal (resumeNumber type) < key.tail)
    (hexact : RemovedExactly pre uid type gmt db final) :
    ResumeHarmless pre uid type gmt db := by
  constructor
  · intro row hrow key hkey hof hle
    have hkept : ¬ Due pre uid type gmt row.1 := by
      rintro ⟨other, hother, _, hlt⟩
      rw [hkey] at hother
      rw [← UserTypeKey.text_injective pre hother] at hlt
      omega
    have hmem := (hfinal row).mp ((hexact row).mpr ⟨hrow, hkept⟩)
    by_contra hlt
    exact hmem.2.2 ⟨key, hkey, hof, not_le.mp hlt⟩
  · intro row hrow key hkey
    have hdue := mem_dueRows.mp (mem_of_mem_drop hrow)
    have hgone : row ∉ final.rows := fun hmem => ((hexact row).mp hmem).2 hdue.2
    have hpage : row ∉ (dueRows pre uid type gmt db).take dbKvnMax :=
      fun hmem => not_mem_drop_of_mem_take hmem hrow
    by_contra hle
    grind [UserTypeKey.text_injective]

theorem removedExactly_of_resumeHarmless {final : Database V}
    (hfinal : ∀ row, row ∈ final.rows ↔ row ∈ db.rows ∧
      row ∉ (dueRows pre uid type gmt db).take dbKvnMax ∧
      ¬ ∃ key : UserTypeKey, row.1 = key.text pre ∧ key.Of uid type ∧
        decimal (resumeNumber type) < key.tail)
    (hharmless : ResumeHarmless pre uid type gmt db) :
    RemovedExactly pre uid type gmt db final := by
  intro row
  rw [hfinal]
  refine and_congr_right fun hrow => ?_
  constructor
  · rintro ⟨hpage, hbehind⟩ hdue
    have hmem := mem_dueRows.mpr ⟨hrow, hdue⟩
    rw [← take_append_drop dbKvnMax (dueRows pre uid type gmt db),
      mem_append] at hmem
    obtain ⟨key, hkey, hof, _⟩ := hdue
    exact hbehind ⟨key, hkey, hof,
      hharmless.2 row (hmem.resolve_left hpage) key hkey⟩
  · intro hkept
    refine ⟨fun hmem => hkept (mem_dueRows.mp (mem_of_mem_take hmem)).2, ?_⟩
    rintro ⟨key, hkey, hof, hlt⟩
    have hle : key.gmt ≤ gmt := by
      by_contra hgt
      exact hkept ⟨key, hkey, hof, not_le.mp hgt⟩
    exact absurd hlt (not_lt.mpr (hharmless.1 row hrow key hkey hof hle))

/-- The loop body shared by both functions is exact only where resuming behind
the type number does no harm. -/
theorem retentionExact_delUserTypeRows_iff (hlayout : KeyLayout pre db)
    (hgmt : 10 ^ 9 ≤ gmt ∧ gmt < 2 ^ 32 - 1) :
    RetentionExact delUserTypeRows gmt uid pre type db ↔
      (∀ row ∈ db.rows, ¬ Due pre uid type gmt row.1) ∨
        ResumeHarmless pre uid type gmt db := by
  by_cases hdue : dueRows pre uid type gmt db = []
  · have hnone : ∀ row ∈ db.rows, ¬ Due pre uid type gmt row.1 := by
      intro row hrow hrowDue
      have hmem := mem_dueRows.mpr ⟨hrow, hrowDue⟩
      rw [hdue] at hmem
      exact absurd hmem not_mem_nil
    obtain ⟨ret, hrun⟩ := delUserTypeRows_no_due hlayout hgmt hdue
    refine ⟨fun _ => Or.inl hnone, fun _ => ⟨ret, db, hrun, fun _ row => ?_⟩⟩
    exact ⟨fun hrow => ⟨hrow, hnone row hrow⟩, fun h => h.1⟩
  · obtain ⟨final, hrun, hfinal⟩ := delUserTypeRows_due hlayout hgmt hdue
    obtain ⟨first, hfirst⟩ := exists_mem_of_ne_nil _ hdue
    have hfirstDue := mem_dueRows.mp hfirst
    constructor
    · rintro ⟨ret, other, hother, hexact⟩
      rw [hrun, Option.some.injEq, Prod.mk.injEq] at hother
      grind [resumeHarmless_of_removedExactly]
    · rintro (hnone | hharmless)
      · exact absurd hfirstDue.2 (hnone first hfirstDue.1)
      · exact ⟨0, final, hrun, fun _ =>
          removedExactly_of_resumeHarmless hfinal hharmless⟩

end Exactness

/-- Both retention deletes by user and type are exact if nothing is due, or if
no kept key and every due key beyond the first page lies behind the number that
the second scan starts at; in no other case. -/
theorem retentionDelete_exact_iff (gmt : Nat) (uid : UInt32) (pre : CString)
    (type : UInt32) (db : Database V) (hlayout : KeyLayout pre db)
    (hgmt : 10 ^ 9 ≤ gmt ∧ gmt < 2 ^ 32 - 1) :
    (RetentionExact wwDelUserDbDataByUidTypeGmtPrefix gmt uid pre type db ↔
      (∀ row ∈ db.rows, ¬ Due pre uid type gmt row.1) ∨
        ResumeHarmless pre uid type gmt db) ∧
    (RetentionExact wwDelUserQqMsgDataByGmtUidPrefix gmt uid pre type db ↔
      (∀ row ∈ db.rows, ¬ Due pre uid type gmt row.1) ∨
        ResumeHarmless pre uid type gmt db) :=
  ⟨retentionExact_delUserTypeRows_iff hlayout hgmt,
    retentionExact_delUserTypeRows_iff hlayout hgmt⟩

namespace RetentionWitness

def pre : CString := ⟨ascii "anud-", by decide⟩

/-- A row of user 10001 and type 1, written at second 2600000000. -/
def newKey : UserTypeKey := ⟨10001, 1, 2600000000, 3, by decide, by decide, by decide⟩

/-- An older row: the times are reversed. -/
def oldKey : UserTypeKey := ⟨10001, 1, 2700000000, 3, by decide, by decide, by decide⟩

def db : Database Unit where
  rows := [(newKey.text pre, ()), (oldKey.text pre, ())]
  sorted := by decide

theorem keyLayout_db : KeyLayout pre db := by
  intro row hrow _
  have hcases : row = (newKey.text pre, ()) ∨ row = (oldKey.text pre, ()) := by
    simpa [db] using hrow
  rcases hcases with rfl | rfl
  · exact ⟨newKey, rfl, by decide⟩
  · exact ⟨oldKey, rfl, by decide⟩

theorem retentionDelete_exact_iff_db :
    KeyLayout pre db ∧
    (RetentionExact wwDelUserDbDataByUidTypeGmtPrefix 2650000000 10001 pre 1 db ↔
      (∀ row ∈ db.rows, ¬ Due pre 10001 1 2650000000 row.1) ∨
        ResumeHarmless pre 10001 1 2650000000 db) :=
  ⟨keyLayout_db,
    (retentionDelete_exact_iff 2650000000 10001 pre 1 db keyLayout_db
      (by decide)).1⟩

/-- The old row is due and the new row is not; both are deleted. -/
theorem retentionDelete_removes_kept_row :
    KeyLayout pre db ∧ ¬ Due pre 10001 1 2650000000 (newKey.text pre) ∧
      (wwDelUserDbDataByUidTypeGmtPrefix 2650000000 10001 pre 1 db).map
        (fun result => (result.1, result.2.rows)) = some (0, []) ∧
      ¬ RetentionExact wwDelUserDbDataByUidTypeGmtPrefix 2650000000 10001 pre 1 db := by
  have hkept : ¬ Due pre 10001 1 2650000000 (newKey.text pre) := by
    rintro ⟨key, hkey, _, hlt⟩
    rw [← UserTypeKey.text_injective pre hkey] at hlt
    exact absurd hlt (by decide)
  have hrun : (wwDelUserDbDataByUidTypeGmtPrefix 2650000000 10001 pre 1 db).map
      (fun result => (result.1, result.2.rows)) = some (0, []) := by
    decide +kernel
  refine ⟨keyLayout_db, hkept, hrun, ?_⟩
  rintro ⟨ret, final, hfinal, hexact⟩
  rw [hfinal, Option.map_some, Option.some.injEq, Prod.mk.injEq] at hrun
  have hmem := (hexact hrun.1 (newKey.text pre, ())).mpr
    ⟨mem_cons_self, hkept⟩
  rw [hrun.2] at hmem
  exact absurd hmem not_mem_nil

end RetentionWitness

end WaterWall
