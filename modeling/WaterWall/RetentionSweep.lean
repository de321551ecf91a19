/-
The retention deletes of auto_data_save.c with deletes that may fail: the result
of `dbdel` is ignored, so only the cursor read back from the last key of a page
moves the loop on.  The deletes by user and time and by group and time read back
the time; their pages are those of the rows in the order of time, each page
behind the second of the last row before it.
-/
import WaterWall.RetentionDelete

namespace WaterWall

open ByteText OrderedStore List

universe v

variable {V : Type v}

/-- The `dbdel` calls for a page.  The call with number `call` of a run takes
effect if `deletes call` says so. -/
def delPage (deletes : Nat → Bool) :
    Nat → List (Bytes × V) → Database V → Database V
  | _, [], db => db
  | call, row :: page, db =>
    delPage deletes (call + 1) page (if deletes call then delRow db row else db)

/-- The retention loop with a budget of scans; `none` means that it did not
suffice, or that the cursor is read behind the end of a key. -/
def sweepLoop (deletes : Nat → Bool) (startText : Nat → Bytes) (endText : Bytes)
    (cursorOf : Bytes → Option Nat) :
    Nat → Nat → Nat → Database V → Option (Int × Database V)
  | 0, _, _, _ => none
  | scans + 1, call, gmt, db =>
    let start := snprintf keyBufLen (startText (resumeAfter gmt))
    let stop := snprintf keyBufLen endText
    match dbscan db start.1 start.2 stop.1 stop.2 dbKvnMax with
    | none => some (-1, db)
    | some page =>
      match page.getLast? with
      | none => some (0, db)
      | some last =>
        match cursorOf last.1 with
        | none => none
        | some cursor =>
          sweepLoop deletes startText endText cursorOf scans
            (call + page.length) cursor (delPage deletes call page db)

/-- `"%s%d-%llu"`. -/
def stampedStart (pre : CString) (id : UInt32) (gmt : Nat) : Bytes :=
  pre.text ++ printD id ++ ascii "-" ++ decimal gmt

/-- `"%s%d."`. -/
def stampedEnd (pre : CString) (id : UInt32) : Bytes :=
  pre.text ++ printD id ++ ascii "."

/-- `kvs[kvn-1].key + strlen(prefix) + USERID_LEN`, read by `atoull`. -/
def userCursor (pre : CString) (key : Bytes) : Option Nat :=
  some (atoull (cstr (key.drop (pre.text.length + useridLen))))

/-- The group delete goes to the first `'-'` behind the prefix. -/
def groupCursor (pre : CString) (key : Bytes) : Option Nat :=
  match (cstr (key.drop pre.text.length)).dropWhile fun c => c ≠ 45 with
  | [] => none
  | _ :: time => some (atoull time)

/-- The number of scans is bounded by `scans`. -/
def wwDelUserDbDataByGmtUidPrefix (deletes : Nat → Bool) (scans gmt : Nat)
    (uid : UInt32) (pre : CString) (db : Database V) : Option (Int × Database V) :=
  sweepLoop deletes (stampedStart pre uid) (stampedEnd pre uid) (userCursor pre)
    scans 0 gmt db

def wwDelGroupDbDataByGmtGidPrefix (deletes : Nat → Bool) (scans gmt : Nat)
    (gid : UInt32) (pre : CString) (db : Database V) : Option (Int × Database V) :=
  sweepLoop deletes (stampedStart pre gid) (stampedEnd pre gid) (groupCursor pre)
    scans 0 gmt db

/-- The body of the two deletes by user and type, with deletes that may fail. -/
def sweepUserTypeRows (deletes : Nat → Bool) (scans gmt : Nat) (uid : UInt32)
    (pre : CString) (type : UInt32) (db : Database V) : Option (Int × Database V) :=
  sweepLoop deletes (userTypeStart pre uid type) (userTypeEnd pre uid type)
    (userCursor pre) scans 0 gmt db

def wwDelUserDbDataByUidTypeGmtPrefixFailing (deletes : Nat → Bool) (scans gmt : Nat)
    (uid : UInt32) (pre : CString) (type : UInt32) (db : Database V) :
    Option (Int × Database V) :=
  sweepUserTypeRows deletes scans gmt uid pre type db

def wwDelUserQqMsgDataByGmtUidPrefixFailing (deletes : Nat → Bool) (scans gmt : Nat)
    (uid : UInt32) (pre : CString) (qqId : UInt32) (db : Database V) :
    Option (Int × Database V) :=
  sweepUserTypeRows deletes scans gmt uid pre qqId db

section Loop

variable {startText : Nat → Bytes} {endText : Bytes} {cursorOf : Bytes → Option Nat}

theorem delPage_true (call : Nat) (page : List (Bytes × V)) (db : Database V) :
    delPage (fun _ => true) call page db = page.foldl delRow db := by
  induction page generalizing call db with
  | nil => rfl
  | cons row page ih => exact ih (call + 1) (delRow db row)

theorem sweepLoop_true (pre : CString) (scans call gmt : Nat) (db : Database V) :
    sweepLoop (fun _ => true) startText endText (userCursor pre) scans call gmt db =
      retentionLoop startText endText (pre.text.length + useridLen) scans gmt db := by
  induction scans generalizing call gmt db with
  | zero => rfl
  | succ scans ih =>
    rw [sweepLoop, retentionLoop]
    grind [userCursor, delPage_true]

theorem sweepUserTypeRows_true (gmt : Nat) (uid : UInt32) (pre : CString)
    (type : UInt32) (db : Database V) :
    sweepUserTypeRows (fun _ => true) (db.rows.length + 1) gmt uid pre type db =
      delUserTypeRows gmt uid pre type db :=
  sweepLoop_true pre _ _ _ db

/-- Keys that `dbdel` gets as they are. -/
def Deletable (rows : List (Bytes × V)) : Prop :=
  ∀ row ∈ rows, (0 : Byte) ∉ row.1 ∧ row.1.length < keyBufLen

theorem delPage_rows (deletes : Nat → Bool) (call : Nat) {page : List (Bytes × V)}
    (hpage : Deletable page) (db : Database V) :
    ∃ keep : Bytes → Bool,
      (delPage deletes call page db).rows = db.rows.filter (fun row => keep row.1) ∧
      (∀ key, key ∉ page.map Prod.fst → keep key = true) ∧
      ((∀ n, deletes n = true) → ∀ key ∈ page.map Prod.fst, keep key = false) := by
  induction page generalizing call db with
  | nil => exact ⟨fun _ => true, by simp [delPage], by simp, by simp⟩
  | cons row page ih =>
    obtain ⟨hnul, hfits⟩ := hpage row mem_cons_self
    obtain ⟨keep, hrows, hothers, hgone⟩ := ih (call + 1)
      (fun other hother => hpage other (mem_cons_of_mem row hother))
      (if deletes call then delRow db row else db)
    refine ⟨fun key => keep key && (!deletes call || decide (key ≠ row.1)), ?_, ?_, ?_⟩
    · rw [delPage, hrows]
      cases hdelete : deletes call with
      | false => simp
      | true =>
        simp [delRow_of_fits db hnul hfits, Store.del, filter_filter]
    · grind
    grind

theorem delPage_subset (deletes : Nat → Bool) (call : Nat) {page : List (Bytes × V)}
    (hpage : Deletable page) {db : Database V} {row : Bytes × V}
    (hrow : row ∈ (delPage deletes call page db).rows) : row ∈ db.rows := by
  obtain ⟨keep, hrows, _⟩ := delPage_rows deletes call hpage db
  rw [hrows] at hrow
  exact (mem_filter.mp hrow).1

theorem mem_delPage_iff {deletes : Nat → Bool} (hdeletes : ∀ n, deletes n = true)
    (call : Nat) {page : List (Bytes × V)} (hpage : Deletable page) {db : Database V}
    (hsubset : ∀ row ∈ page, row ∈ db.rows) {row : Bytes × V} :
    row ∈ (delPage deletes call page db).rows ↔ row ∈ db.rows ∧ row ∉ page := by
  obtain ⟨keep, hrows, hothers, hgone⟩ := delPage_rows deletes call hpage db
  rw [hrows, mem_filter]
  refine and_congr_right fun hrow => ?_
  constructor
  · grind
  · intro hmem
    apply hothers
    intro hkeys
    obtain ⟨other, hother, hkey⟩ := mem_map.mp hkeys
    exact hmem (db.row_eq_of_key_eq (hsubset other hother) hrow hkey ▸ hother)

theorem sweepLoop_page {deletes : Nat → Bool} {gmt cursor : Nat} {db : Database V}
    (hstart : (startText (resumeAfter gmt)).length < keyBufLen)
    (hend : endText.length < keyBufLen) {last : Bytes × V}
    (hlast : (db.scan (startText (resumeAfter gmt)) endText dbKvnMax).getLast? = some last)
    (hcursor : cursorOf last.1 = some cursor) (scans call : Nat) :
    sweepLoop deletes startText endText cursorOf (scans + 1) call gmt db =
      sweepLoop deletes startText endText cursorOf scans
        (call + (db.scan (startText (resumeAfter gmt)) endText dbKvnMax).length) cursor
        (delPage deletes call (db.scan (startText (resumeAfter gmt)) endText dbKvnMax) db) := by
  rw [sweepLoop]
  simp_all [dbscan, snprintf_fits]

theorem sweepLoop_empty {deletes : Nat → Bool} {gmt : Nat} {db : Database V}
    (hstart : (startText (resumeAfter gmt)).length < keyBufLen)
    (hend : endText.length < keyBufLen)
    (hempty : db.scan (startText (resumeAfter gmt)) endText dbKvnMax = [])
    (scans call : Nat) :
    sweepLoop deletes startText endText cursorOf (scans + 1) call gmt db =
      some (0, db) := by
  rw [sweepLoop]
  simp_all [dbscan, snprintf_fits]

theorem sweepLoop_cut {deletes : Nat → Bool} {gmt : Nat} {db : Database V}
    (hcut : ¬ ((startText (resumeAfter gmt)).length < keyBufLen ∧
      endText.length < keyBufLen)) (scans call : Nat) :
    sweepLoop deletes startText endText cursorOf (scans + 1) call gmt db =
      some (-1, db) := by
  grind [keyBufLen, snprintf_length_eq_iff, sweepLoop.eq_2, dbscan]

/-- The rows of interest of a sweep, with the number that is read back from each of
them: a scan behind a valid cursor finds those with a larger number, in order. -/
structure Stamped (startText : Nat → Bytes) (endText : Bytes)
    (cursorOf : Bytes → Option Nat) (valid : Nat → Prop) (scope : Bytes → Prop)
    (stamp : Bytes → Nat) (db : Database V) : Prop where
  fits : ∀ cursor, valid cursor →
    (startText (resumeAfter cursor)).length < keyBufLen ∧ endText.length < keyBufLen
  between : ∀ cursor, valid cursor → ∀ row ∈ db.rows,
    (startText (resumeAfter cursor) < row.1 ∧ row.1 ≤ endText ↔
      scope row.1 ∧ cursor < stamp row.1)
  cursor : ∀ row ∈ db.rows, scope row.1 →
    cursorOf row.1 = some (stamp row.1) ∧ valid (stamp row.1)
  deletable : ∀ row ∈ db.rows, scope row.1 →
    (0 : Byte) ∉ row.1 ∧ row.1.length < keyBufLen
  ordered : ∀ left ∈ db.rows, ∀ right ∈ db.rows, scope left.1 → scope right.1 →
    left.1 < right.1 → stamp left.1 ≤ stamp right.1

open Classical in
/-- The rows of interest behind a cursor. -/
noncomputable def rowsBehind (scope : Bytes → Prop) (stamp : Bytes → Nat) (cursor : Nat)
    (db : Database V) : List (Bytes × V) :=
  db.rows.filter fun row => scope row.1 ∧ cursor < stamp row.1

variable {valid : Nat → Prop} {scope : Bytes → Prop} {stamp : Bytes → Nat}

theorem mem_rowsBehind {cursor : Nat} {db : Database V} {row : Bytes × V} :
    row ∈ rowsBehind scope stamp cursor db ↔
      row ∈ db.rows ∧ scope row.1 ∧ cursor < stamp row.1 := by
  simp [rowsBehind]

section Stamped

variable {db : Database V}
  (hstamped : Stamped startText endText cursorOf valid scope stamp db)

include hstamped

theorem Stamped.of_subset {final : Database V}
    (hsubset : ∀ row ∈ final.rows, row ∈ db.rows) :
    Stamped startText endText cursorOf valid scope stamp final where
  fits := hstamped.fits
  between cursor hcursor row hrow := hstamped.between cursor hcursor row (hsubset row hrow)
  cursor row hrow := hstamped.cursor row (hsubset row hrow)
  deletable row hrow := hstamped.deletable row (hsubset row hrow)
  ordered left hleft right hright :=
    hstamped.ordered left (hsubset left hleft) right (hsubset right hright)

theorem Stamped.scan_eq {cursor : Nat}
    (hcursor : valid cursor) :
    db.scan (startText (resumeAfter cursor)) endText dbKvnMax =
      (rowsBehind scope stamp cursor db).take dbKvnMax := by
  classical
  rw [Store.scan, rowsBehind]
  congr 1
  apply filter_congr
  intro row hrow
  rw [Bool.eq_iff_iff, Store.inRange_iff, decide_eq_true_eq,
    hstamped.between cursor hcursor row hrow]

theorem Stamped.rowsBehind_ordered (cursor : Nat) :
    (rowsBehind scope stamp cursor db).Pairwise
      fun left right => stamp left.1 ≤ stamp right.1 := by
  have hsorted := db.sorted.sublist
    (filter_sublist : (rowsBehind scope stamp cursor db).Sublist db.rows)
  apply hsorted.imp_of_mem
  intro left right hleft hright hlt
  obtain ⟨hleftMem, hleftScope, _⟩ := mem_rowsBehind.mp hleft
  obtain ⟨hrightMem, hrightScope, _⟩ := mem_rowsBehind.mp hright
  exact hstamped.ordered left hleftMem right hrightMem hleftScope hrightScope hlt

theorem Stamped.page_deletable (cursor : Nat) :
    Deletable ((rowsBehind scope stamp cursor db).take dbKvnMax) := by
  intro row hrow
  obtain ⟨hmem, hscope, _⟩ := mem_rowsBehind.mp (mem_of_mem_take hrow)
  exact hstamped.deletable row hmem hscope

theorem Stamped.rowsBehind_delPage {cursor : Nat}
    {last : Bytes × V}
    (hlast : ((rowsBehind scope stamp cursor db).take dbKvnMax).getLast? = some last)
    (deletes : Nat → Bool) (call : Nat) :
    rowsBehind scope stamp (stamp last.1)
        (delPage deletes call ((rowsBehind scope stamp cursor db).take dbKvnMax) db) =
      laterThan (fun row => stamp row.1) (stamp last.1)
        (rowsBehind scope stamp cursor db) := by
  classical
  have hbehind := (mem_rowsBehind.mp
    (mem_of_mem_take (mem_of_getLast? hlast))).2.2
  have hpage := laterThan_take hlast (hstamped.rowsBehind_ordered cursor)
  rw [laterThan, filter_eq_nil_iff] at hpage
  obtain ⟨keep, hrows, hkeep, _⟩ :=
    delPage_rows deletes call (hstamped.page_deletable cursor) db
  rw [rowsBehind, hrows, filter_filter, laterThan, rowsBehind, filter_filter]
  grind

end Stamped

theorem Stamped.sweepLoop_eq {deletes : Nat → Bool} (hdeletes : ∀ n, deletes n = true)
    {scans : Nat} {db : Database V}
    (hstamped : Stamped startText endText cursorOf valid scope stamp db)
    {gmt : Nat} (hgmt : valid gmt)
    (hscans : (rowsBehind scope stamp gmt db).length < scans) (call : Nat) :
    ∃ final, sweepLoop deletes startText endText cursorOf scans call gmt db =
        some (0, final) ∧
      ∀ row, row ∈ final.rows ↔ row ∈ db.rows ∧
        row ∉ pagesBy (fun row => stamp row.1) dbKvnMax (rowsBehind scope stamp gmt db) := by
  induction scans generalizing db gmt call with
  | zero => omega
  | succ scans ih =>
    obtain ⟨hstart, hend⟩ := hstamped.fits gmt hgmt
    have hscan := hstamped.scan_eq hgmt
    cases hlast : ((rowsBehind scope stamp gmt db).take dbKvnMax).getLast? with
    | none =>
      have hempty := List.getLast?_eq_none_iff.mp hlast
      refine ⟨db, sweepLoop_empty hstart hend (hscan.trans hempty) _ _, fun row => ?_⟩
      rw [pagesBy_of_none hlast]
      simp
    | some last =>
      have hlastMem := mem_of_mem_take (mem_of_getLast? hlast)
      obtain ⟨hlastRow, hlastScope, hbehind⟩ := mem_rowsBehind.mp hlastMem
      obtain ⟨hcursor, hvalid⟩ := hstamped.cursor last hlastRow hlastScope
      have hdeletable := hstamped.page_deletable gmt
      have hnext := hstamped.rowsBehind_delPage hlast deletes call
      have hshorter :=
        @laterThan_length_lt _ (fun row : Bytes × V => stamp row.1) _ _ hlastMem
      obtain ⟨final, hrun, hfinal⟩ := ih
        (hstamped.of_subset fun row hrow => delPage_subset deletes call hdeletable hrow)
        hvalid (by rw [hnext]; omega)
        (call + ((rowsBehind scope stamp gmt db).take dbKvnMax).length)
      refine ⟨final, ?_, fun row => ?_⟩
      · rw [sweepLoop_page hstart hend (hscan ▸ hlast) hcursor, hscan, hrun]
      · have hsubset : ∀ row ∈ (rowsBehind scope stamp gmt db).take dbKvnMax,
            row ∈ db.rows := fun row hrow =>
          (mem_rowsBehind.mp (mem_of_mem_take hrow)).1
        rw [hfinal, hnext, mem_delPage_iff hdeletes call hdeletable hsubset,
          pagesBy_of_last hlast, mem_append, not_or, and_assoc]

end Loop

/-- The fields of a key `prefix id-G…`: a user or group, a reversed time, and what
stands behind it, if anything, separated by a `'-'`. -/
@[ext]
structure StampedKey where
  id : Nat
  gmt : Nat
  rest : Bytes
  gmt_reversed : 10 ^ 9 ≤ gmt ∧ gmt < 2 ^ 32
  rest_stops : StopsNumeral rest
  rest_noNul : (0 : Byte) ∉ rest

/-- The part of the key behind the id. -/
def StampedKey.tail (key : StampedKey) : Bytes :=
  decimal key.gmt ++ key.rest

def StampedKey.text (pre : CString) (key : StampedKey) : Bytes :=
  pre.text ++ decimal key.id ++ ascii "-" ++ key.tail

/-- Every key under the prefix has the layout, with what else is known of its
fields, and fits the key buffers. -/
def StampedLayout (fields : StampedKey → Prop) (pre : CString) (db : Database V) : Prop :=
  ∀ row ∈ db.rows, pre.text <+: row.1 →
    ∃ key : StampedKey, row.1 = key.text pre ∧ fields key ∧ row.1.length < keyBufLen

/-- The time in a key, read behind the first `'-'`. -/
def keyTime (pre : CString) (key : Bytes) : Nat :=
  (groupCursor pre key).getD 0

/-- A key text of the given user or group that is older than the cutoff. -/
def StampedDue (pre : CString) (id : UInt32) (gmt : Nat) (text : Bytes) : Prop :=
  ∃ key : StampedKey, text = key.text pre ∧ key.id = id.toNat ∧ gmt < key.gmt

section KeyText

variable {pre : CString} {id : UInt32} {fields : StampedKey → Prop} {db : Database V}

theorem StampedKey.gmt_width (key : StampedKey) : (decimal key.gmt).length = 10 := by
  have htime := key.gmt_reversed
  exact decimal_length_of_range htime.1 (by omega)

theorem StampedKey.tail_noNul (key : StampedKey) : (0 : Byte) ∉ key.tail := by
  simp [tail, not_mem_decimal (by decide : ¬ IsDigit 0), key.rest_noNul]

theorem StampedKey.text_noNul (pre : CString) (key : StampedKey) :
    (0 : Byte) ∉ key.text pre := by
  simp [text, not_mem_decimal (by decide : ¬ IsDigit 0), pre.noNul, key.tail_noNul]

theorem StampedKey.atoull_tail (key : StampedKey) : atoull key.tail = key.gmt :=
  atoull_decimal_append (by have := key.gmt_reversed; rw [u64Size]; omega) key.rest_stops

theorem StampedKey.text_eq (pre : CString) (key : StampedKey) :
    key.text pre = pre.text ++ (decimal key.id ++ 45 :: key.tail) := by
  simp [text]

theorem StampedKey.groupCursor_text (pre : CString) (key : StampedKey) :
    groupCursor pre (key.text pre) = some key.gmt := by
  have hnul : (0 : Byte) ∉ decimal key.id ++ 45 :: key.tail := by
    intro hmem
    apply key.text_noNul pre
    rw [key.text_eq]
    exact mem_append_right _ hmem
  have hskip : (decimal key.id ++ 45 :: key.tail).dropWhile (fun c => c ≠ 45) =
      45 :: key.tail := by
    rw [dropWhile_append_of_pos]
    · simp
    · intro c hc
      have hdigit := decimal_isDigit key.id c hc
      simp only [ne_eq, decide_not, Bool.not_eq_eq_eq_not, Bool.not_true, decide_eq_false_iff_not]
      rintro rfl
      exact absurd hdigit (by decide)
  rw [groupCursor, key.text_eq, drop_left, cstr_eq_self hnul, hskip]
  exact congrArg some key.atoull_tail

theorem StampedKey.keyTime_text (pre : CString) (key : StampedKey) :
    keyTime pre (key.text pre) = key.gmt := by
  rw [keyTime, key.groupCursor_text, Option.getD_some]

theorem userCursor_append (pre : CString) {id number : Nat}
    (hid : 10 ^ 4 ≤ id ∧ id < 10 ^ 5) (hnumber : number < u64Size) {rest : Bytes}
    (hstops : StopsNumeral rest) (hnul : (0 : Byte) ∉ rest) :
    userCursor pre (pre.text ++ decimal id ++ ascii "-" ++ (decimal number ++ rest)) =
      some number := by
  have hwidth : (decimal id).length = 5 := decimal_length_of_range hid.1 hid.2
  have hlength : (pre.text ++ decimal id ++ ascii "-").length =
      pre.text.length + useridLen := by
    simp [hwidth, useridLen]
  have htail : (0 : Byte) ∉ decimal number ++ rest := by
    simp [not_mem_decimal (by decide : ¬ IsDigit 0), hnul]
  rw [userCursor, ← hlength, drop_left, cstr_eq_self htail,
    atoull_decimal_append hnumber hstops]

theorem StampedKey.userCursor_text (pre : CString) {key : StampedKey}
    (hid : 10 ^ 4 ≤ key.id ∧ key.id < 10 ^ 5) :
    userCursor pre (key.text pre) = some key.gmt :=
  userCursor_append pre hid (by have := key.gmt_reversed; rw [u64Size]; omega)
    key.rest_stops key.rest_noNul

theorem StampedKey.text_of {key : StampedKey} (hid : key.id = id.toNat)
    (hlt : key.id < 2 ^ 31) :
    key.text pre = pre.text ++ printD id ++ 45 :: key.tail := by
  rw [printD_of_lt (hid ▸ hlt), ← hid, text]
  simp

theorem between_stamped_iff (hlayout : StampedLayout fields pre db)
    (hfields : ∀ key, fields key → key.id < 2 ^ 31) {row : Bytes × V}
    (hrow : row ∈ db.rows) (number : Nat) :
    stampedStart pre id number < row.1 ∧ row.1 ≤ stampedEnd pre id ↔
      ∃ key : StampedKey, row.1 = key.text pre ∧ fields key ∧ key.id = id.toNat ∧
        decimal number < key.tail := by
  have hstart : stampedStart pre id number =
      pre.text ++ printD id ++ 45 :: decimal number := by
    simp [stampedStart]
  have hdash : ¬ IsDigit 45 := by decide
  have hlayoutOf : ∀ suffix, row.1 = pre.text ++ printD id ++ suffix →
      ∃ key : StampedKey, row.1 = key.text pre ∧ fields key ∧
        printD id ++ suffix = decimal key.id ++ 45 :: key.tail := by
    intro suffix hsuffix
    have hpre : pre.text <+: row.1 := by
      rw [hsuffix, append_assoc]
      exact prefix_append _ _
    obtain ⟨key, hkey, hkeyFields, _⟩ := hlayout row hrow hpre
    refine ⟨key, hkey, hkeyFields, ?_⟩
    rw [hsuffix, key.text_eq, append_assoc] at hkey
    exact append_cancel_left hkey
  rw [hstart, stampedEnd, ascii_dot, between_dash_dot_iff]
  constructor
  · rintro (⟨rest, hrest, hlt⟩ | hdot)
    · obtain ⟨key, hkey, hkeyFields, htext⟩ := hlayoutOf _ hrest
      obtain ⟨hid, _, rfl⟩ := printD_append_inj hdash hdash htext
      exact ⟨key, hkey, hkeyFields, hid.symm, hlt⟩
    · obtain ⟨key, _, _, htext⟩ := hlayoutOf _ hdot
      have hstop := (printD_append_inj (by decide) hdash htext).2.1
      exact absurd hstop (by decide)
  · rintro ⟨key, hkey, hkeyFields, hid, hlt⟩
    exact Or.inl ⟨key.tail, hkey.trans (key.text_of hid (hfields key hkeyFields)), hlt⟩

theorem decimal_lt_stampedTail_iff {cursor : Nat}
    (hcursor : 10 ^ 9 ≤ cursor ∧ cursor < 2 ^ 32) (key : StampedKey) :
    decimal (cursor + 1) < key.tail ↔
      cursor + 1 < key.gmt ∨ cursor + 1 = key.gmt ∧ key.rest ≠ [] := by
  have htime := key.gmt_reversed
  have hcutoff : (decimal (cursor + 1)).length = 10 :=
    decimal_length_of_range (by omega) (by omega)
  have hlength := hcutoff.trans key.gmt_width.symm
  rw [StampedKey.tail, lt_append_iff_of_length_eq hlength, decimal_lt_iff hlength,
    decimal_injective.eq_iff]

theorem StampedKey.text_injective (pre : CString) :
    Function.Injective (StampedKey.text pre) := by
  intro left right heq
  have hgmt : left.gmt = right.gmt := by
    rw [← left.keyTime_text pre, heq, right.keyTime_text]
  rw [left.text_eq, right.text_eq] at heq
  have hdash : ¬ IsDigit 45 := by decide
  grind [decimal_append_inj, append_cancel_left, tail.eq_1, StampedKey.ext]

theorem StampedKey.gmt_le_of_text_lt {left right : StampedKey} (hid : left.id = right.id)
    (hlt : left.text pre < right.text pre) : left.gmt ≤ right.gmt := by
  by_contra hgt
  have hlength := right.gmt_width.trans left.gmt_width.symm
  have htail : right.tail < left.tail :=
    append_lt_append_of_lt hlength ((decimal_lt_iff hlength).mpr (not_le.mp hgt)) _ _
  rw [text, text, hid, append_lt_append_left_iff] at hlt
  exact absurd htail (not_lt.mpr hlt.le)

/-- The keys of one user or group. -/
def KeyOf (fields : StampedKey → Prop) (pre : CString) (id : UInt32) (text : Bytes) : Prop :=
  ∃ key : StampedKey, text = key.text pre ∧ fields key ∧ key.id = id.toNat

theorem resumeAfter_reversed {cursor : Nat} (hcursor : 10 ^ 9 ≤ cursor ∧ cursor < 2 ^ 32) :
    resumeAfter cursor = cursor + 1 := by
  rw [resumeAfter, if_pos (by omega), u64Size]
  omega

theorem stampedEnd_fits {number : Nat}
    (hfits : (stampedStart pre id number).length < keyBufLen) :
    (stampedEnd pre id).length < keyBufLen := by
  grind [stampedStart, stampedEnd, ascii_dash, ascii_dot]

theorem StampedLayout.fits (hlayout : StampedLayout fields pre db) {row : Bytes × V}
    (hrow : row ∈ db.rows) {key : StampedKey} (hkey : row.1 = key.text pre) :
    row.1.length < keyBufLen := by
  have hpre : pre.text <+: row.1 := by
    rw [hkey, key.text_eq]
    exact prefix_append _ _
  obtain ⟨_, _, _, hfits⟩ := hlayout row hrow hpre
  exact hfits

/-- The sweeps by time scan their rows in the order of time, if the cursor is the time
and the exclusive bound leaves out no time behind it. -/
theorem stamped_of_layout {cursorOf : Bytes → Option Nat} {valid : Nat → Prop}
    (hlayout : StampedLayout fields pre db)
    (hfields : ∀ key, fields key → key.id < 2 ^ 31 ∧ valid key.gmt ∧
      cursorOf (key.text pre) = some key.gmt)
    (hvalid : ∀ cursor, valid cursor → 10 ^ 9 ≤ cursor ∧ cursor < 2 ^ 32)
    (hbound : ∀ cursor key, valid cursor → fields key →
      (cursor + 1 < key.gmt ∨ cursor + 1 = key.gmt ∧ key.rest ≠ [] ↔ cursor < key.gmt))
    (hfits : ∀ cursor, valid cursor →
      (stampedStart pre id (cursor + 1)).length < keyBufLen) :
    Stamped (stampedStart pre id) (stampedEnd pre id) cursorOf valid
      (KeyOf fields pre id) (keyTime pre) db where
  fits cursor hcursor := by
    have hrange := hvalid cursor hcursor
    have hstart := hfits cursor hcursor
    rw [resumeAfter_reversed hrange]
    exact ⟨hstart, stampedEnd_fits hstart⟩
  between cursor hcursor row hrow := by
    have hrange := hvalid cursor hcursor
    rw [resumeAfter_reversed hrange,
      between_stamped_iff hlayout (fun key hkey => (hfields key hkey).1) hrow]
    constructor
    · rintro ⟨key, hkey, hkeyFields, hid, hlt⟩
      rw [decimal_lt_stampedTail_iff hrange, hbound cursor key hcursor hkeyFields] at hlt
      refine ⟨⟨key, hkey, hkeyFields, hid⟩, ?_⟩
      rwa [hkey, key.keyTime_text]
    · rintro ⟨⟨key, hkey, hkeyFields, hid⟩, hlt⟩
      rw [hkey, key.keyTime_text] at hlt
      grind [decimal_lt_stampedTail_iff]
  cursor row hrow hscope := by
    obtain ⟨key, hkey, hkeyFields, _⟩ := hscope
    rw [hkey, key.keyTime_text]
    exact ⟨(hfields key hkeyFields).2.2, (hfields key hkeyFields).2.1⟩
  deletable row hrow hscope := by
    obtain ⟨key, hkey, _⟩ := hscope
    exact ⟨hkey ▸ key.text_noNul pre, hlayout.fits hrow hkey⟩
  ordered left hleft right hright hleftScope hrightScope hlt := by
    obtain ⟨leftKey, hleftKey, _, hleftId⟩ := hleftScope
    obtain ⟨rightKey, hrightKey, _, hrightId⟩ := hrightScope
    rw [hleftKey, hrightKey] at hlt ⊢
    rw [leftKey.keyTime_text, rightKey.keyTime_text]
    exact leftKey.gmt_le_of_text_lt (hleftId.trans hrightId.symm) hlt

end KeyText

section Exactness

variable {pre : CString} {id : UInt32} {fields : StampedKey → Prop} {db : Database V}
variable {gmt : Nat}

open Classical in
noncomputable def stampedDueRows (pre : CString) (id : UInt32) (gmt : Nat)
    (db : Database V) : List (Bytes × V) :=
  db.rows.filter fun row => StampedDue pre id gmt row.1

/-- Exactly the due keys are gone. -/
def StampedRemoved (pre : CString) (id : UInt32) (gmt : Nat) (db final : Database V) : Prop :=
  ∀ row, row ∈ final.rows ↔ row ∈ db.rows ∧ ¬ StampedDue pre id gmt row.1

theorem mem_stampedDueRows {row : Bytes × V} :
    row ∈ stampedDueRows pre id gmt db ↔ row ∈ db.rows ∧ StampedDue pre id gmt row.1 := by
  simp [stampedDueRows]

theorem stampedDue_iff (hlayout : StampedLayout fields pre db) {row : Bytes × V}
    (hrow : row ∈ db.rows) :
    StampedDue pre id gmt row.1 ↔
      KeyOf fields pre id row.1 ∧ gmt < keyTime pre row.1 := by
  constructor
  · rintro ⟨key, hkey, hid, hlt⟩
    have hpre : pre.text <+: row.1 := by
      rw [hkey, key.text_eq]
      exact prefix_append _ _
    obtain ⟨other, hother, hfields, _⟩ := hlayout row hrow hpre
    have hsame := StampedKey.text_injective pre (hother.symm.trans hkey)
    subst hsame
    refine ⟨⟨other, hkey, hfields, hid⟩, ?_⟩
    rwa [hkey, other.keyTime_text]
  · rintro ⟨⟨key, hkey, _, hid⟩, hlt⟩
    rw [hkey, key.keyTime_text] at hlt
    exact ⟨key, hkey, hid, hlt⟩

theorem rowsBehind_eq_stampedDueRows (hlayout : StampedLayout fields pre db) :
    rowsBehind (KeyOf fields pre id) (keyTime pre) gmt db = stampedDueRows pre id gmt db := by
  classical
  rw [rowsBehind, stampedDueRows]
  apply filter_congr
  intro row hrow
  rw [Bool.eq_iff_iff, decide_eq_true_eq, decide_eq_true_eq, stampedDue_iff hlayout hrow]

theorem stampedStart_fits_of_width {number other : Nat}
    (hnumber : 10 ^ 9 ≤ number ∧ number < 10 ^ 10) (hother : other < 10 ^ 10)
    (hfits : (stampedStart pre id number).length < keyBufLen) :
    (stampedStart pre id other).length < keyBufLen := by
  have hwidth : (decimal number).length = 10 :=
    decimal_length_of_range hnumber.1 hnumber.2
  have hotherWidth := decimal_length_le hother
  simp only [stampedStart, length_append] at hfits ⊢
  omega

theorem stampedDueRows_eq_nil (gmt : Nat) (hlayout : StampedLayout fields pre db)
    (hfields : ∀ key, fields key → key.id < 2 ^ 31) {number : Nat}
    (hnumber : number < 10 ^ 10)
    (hcut : ¬ (stampedStart pre id number).length < keyBufLen) :
    stampedDueRows pre id gmt db = [] := by
  apply eq_nil_iff_forall_not_mem.mpr
  intro row hrow
  obtain ⟨hmem, hdue⟩ := mem_stampedDueRows.mp hrow
  obtain ⟨⟨key, hkey, hkeyFields, hid⟩, _⟩ := (stampedDue_iff hlayout hmem).mp hdue
  have hkeyFits := hlayout.fits hmem hkey
  have hwidth := decimal_length_le hnumber
  rw [hkey, key.text_of hid (hfields key hkeyFields)] at hkeyFits
  grind [stampedStart, StampedKey.tail, ascii_dash, StampedKey.gmt_width]

/-- A sweep that removed the rows on its pages removed exactly the due rows if and only
if its pages are seamless. -/
theorem stampedRemoved_iff_seamless {final : Database V}
    (hordered : (stampedDueRows pre id gmt db).Pairwise
      fun left right => keyTime pre left.1 ≤ keyTime pre right.1)
    (hfinal : ∀ row, row ∈ final.rows ↔ row ∈ db.rows ∧
      row ∉ pagesBy (fun row => keyTime pre row.1) dbKvnMax (stampedDueRows pre id gmt db)) :
    StampedRemoved pre id gmt db final ↔
      Seamless (fun row => keyTime pre row.1) dbKvnMax (stampedDueRows pre id gmt db) := by
  have hsublist := @pagesBy_sublist _ (fun row : Bytes × V => keyTime pre row.1) dbKvnMax _
    hordered
  rw [← pagesBy_eq_self_iff (by decide) hordered]
  constructor
  · intro hremoved
    have hread : stampedDueRows pre id gmt db ⊆ pagesBy (fun row => keyTime pre row.1)
        dbKvnMax (stampedDueRows pre id gmt db) := by
      intro row hrow
      obtain ⟨hmem, hdue⟩ := mem_stampedDueRows.mp hrow
      by_contra hskipped
      exact ((hremoved row).mp ((hfinal row).mpr ⟨hmem, hskipped⟩)).2 hdue
    have hnodup : (stampedDueRows pre id gmt db).Nodup := db.rows_nodup.filter _
    exact hsublist.eq_of_length_le (hnodup.subperm hread).length_le
  · intro hall row
    rw [hfinal, hall]
    simp_all [mem_stampedDueRows]

/-- What is known of the keys of raw logs: five digits, and a suffix. -/
def RawLogFields (key : StampedKey) : Prop :=
  (10 ^ 4 ≤ key.id ∧ key.id < 10 ^ 5) ∧ key.rest ≠ []

theorem RawLogFields.id_lt {key : StampedKey} (hkey : RawLogFields key) :
    key.id < 2 ^ 31 := by
  have hdigits := hkey.1.2
  omega

theorem stamped_rawLog (hlayout : StampedLayout RawLogFields pre db)
    (hgmt : 10 ^ 9 ≤ gmt ∧ gmt < 2 ^ 32)
    (hfits : (stampedStart pre id (gmt + 1)).length < keyBufLen) :
    Stamped (stampedStart pre id) (stampedEnd pre id) (userCursor pre)
      (fun cursor => 10 ^ 9 ≤ cursor ∧ cursor < 2 ^ 32)
      (KeyOf RawLogFields pre id) (keyTime pre) db := by
  apply stamped_of_layout hlayout
  · intro key hkey
    exact ⟨hkey.id_lt, key.gmt_reversed, key.userCursor_text pre hkey.1⟩
  · exact fun cursor hcursor => hcursor
  · intro cursor key hcursor hkey
    simp only [hkey.2, ne_eq, not_false_eq_true, and_true]
    omega
  · intro cursor hcursor
    exact stampedStart_fits_of_width (by omega) (by omega) hfits

/-- The delete by user and time returns, and if it returns 0 it has removed exactly the
due keys. -/
def GmtUidExact (gmt : Nat) (uid : UInt32) (pre : CString) (db : Database V) : Prop :=
  ∃ ret final,
    wwDelUserDbDataByGmtUidPrefix (fun _ => true) (db.rows.length + 1) gmt uid pre db =
      some (ret, final) ∧
    (ret = 0 → StampedRemoved pre uid gmt db final)

theorem rowsBehind_length_lt (scope : Bytes → Prop) (stamp : Bytes → Nat) :
    (rowsBehind scope stamp gmt db).length < db.rows.length + 1 :=
  Nat.lt_succ_of_le (length_filter_le _ _)

theorem gmtUidExact_iff_seamless (uid : UInt32) (hlayout : StampedLayout RawLogFields pre db)
    (hgmt : 10 ^ 9 ≤ gmt ∧ gmt < 2 ^ 32 - 1) :
    GmtUidExact gmt uid pre db ↔
      Seamless (fun row => keyTime pre row.1) dbKvnMax (stampedDueRows pre uid gmt db) := by
  have hvalid : 10 ^ 9 ≤ gmt ∧ gmt < 2 ^ 32 := ⟨hgmt.1, by omega⟩
  by_cases hfits : (stampedStart pre uid (gmt + 1)).length < keyBufLen
  · have hstamped := stamped_rawLog hlayout hvalid hfits
    have hordered := hstamped.rowsBehind_ordered gmt
    obtain ⟨final, hrun, hfinal⟩ := hstamped.sweepLoop_eq (fun _ => rfl) hvalid
      (rowsBehind_length_lt _ _) 0
    rw [rowsBehind_eq_stampedDueRows hlayout] at hordered hfinal
    rw [← stampedRemoved_iff_seamless hordered hfinal]
    constructor
    · rintro ⟨ret, other, hother, hexact⟩
      rw [wwDelUserDbDataByGmtUidPrefix, hrun, Option.some.injEq, Prod.mk.injEq] at hother
      obtain ⟨rfl, rfl⟩ := hother
      exact hexact rfl
    · exact fun hremoved => ⟨0, final, hrun, fun _ => hremoved⟩
  · have hnone := stampedDueRows_eq_nil gmt hlayout (fun _ hkey => hkey.id_lt)
      (by omega) hfits
    have hcut : ¬ ((stampedStart pre uid (resumeAfter gmt)).length < keyBufLen ∧
        (stampedEnd pre uid).length < keyBufLen) := by
      rw [resumeAfter_reversed hvalid]
      exact fun h => hfits h.1
    refine iff_of_true ⟨-1, db, sweepLoop_cut hcut _ _, ?_⟩ ?_
    · exact fun hret => absurd hret (by decide)
    · rw [hnone]
      exact seamless_of_length_le (Nat.zero_le _)

/-- What is known of the keys of group statistics: the time ends the key, and all
times are starts of days, as the cutoff is. -/
def GroupFields (gmt : Nat) (key : StampedKey) : Prop :=
  key.id < 2 ^ 31 ∧ key.rest = [] ∧ key.gmt % 86400 = gmt % 86400

theorem stamped_group (hlayout : StampedLayout (GroupFields gmt) pre db)
    (hgmt : 10 ^ 9 ≤ gmt ∧ gmt < 2 ^ 32)
    (hfits : (stampedStart pre id (gmt + 1)).length < keyBufLen) :
    Stamped (stampedStart pre id) (stampedEnd pre id) (groupCursor pre)
      (fun cursor => (10 ^ 9 ≤ cursor ∧ cursor < 2 ^ 32) ∧
        cursor % 86400 = gmt % 86400)
      (KeyOf (GroupFields gmt) pre id) (keyTime pre) db := by
  apply stamped_of_layout hlayout
  · intro key hkey
    exact ⟨hkey.1, ⟨key.gmt_reversed, hkey.2.2⟩, key.groupCursor_text pre⟩
  · exact fun cursor hcursor => hcursor.1
  · intro cursor key hcursor hkey
    simp only [hkey.2.1, ne_eq, not_true_eq_false, and_false, or_false]
    have hday := hcursor.2.trans hkey.2.2.symm
    omega
  · intro cursor hcursor
    exact stampedStart_fits_of_width (by omega) (by omega) hfits

theorem seamless_group (hlayout : StampedLayout (GroupFields gmt) pre db) :
    Seamless (fun row => keyTime pre row.1) dbKvnMax (stampedDueRows pre id gmt db) := by
  have hkeyOf : ∀ row ∈ stampedDueRows pre id gmt db,
      row ∈ db.rows ∧ KeyOf (GroupFields gmt) pre id row.1 := by
    intro row hrow
    grind [mem_stampedDueRows, stampedDue_iff]
  apply seamless_of_injective (by decide) (db.rows_nodup.filter _)
  intro left hleft right hright hstamp
  obtain ⟨hleftMem, leftKey, hleftKey, hleftFields, hleftId⟩ := hkeyOf left hleft
  obtain ⟨hrightMem, rightKey, hrightKey, hrightFields, hrightId⟩ := hkeyOf right hright
  rw [hleftKey, hrightKey, leftKey.keyTime_text, rightKey.keyTime_text] at hstamp
  have hkeys : leftKey = rightKey := StampedKey.ext (hleftId.trans hrightId.symm) hstamp
    (hleftFields.2.1.trans hrightFields.2.1.symm)
  exact db.row_eq_of_key_eq hleftMem hrightMem (by rw [hleftKey, hrightKey, hkeys])

/-- The delete by group and time returns 0 after at most one scan for each row and one
more, and it has removed exactly the due keys of the group. -/
theorem groupDelete_exact (gmt : Nat) (gid : UInt32) (pre : CString) (db : Database V)
    (hlayout : StampedLayout (GroupFields gmt) pre db)
    (hgmt : 10 ^ 9 ≤ gmt ∧ gmt < 2 ^ 32 - 1)
    (hfits : (stampedStart pre gid (gmt + 1)).length < keyBufLen) :
    ∃ final, wwDelGroupDbDataByGmtGidPrefix (fun _ => true) (db.rows.length + 1) gmt gid
        pre db = some (0, final) ∧
      StampedRemoved pre gid gmt db final := by
  have hstamped := stamped_group hlayout ⟨hgmt.1, by omega⟩ hfits
  have hordered := hstamped.rowsBehind_ordered gmt
  obtain ⟨final, hrun, hfinal⟩ := hstamped.sweepLoop_eq (fun _ => rfl)
    ⟨⟨hgmt.1, by omega⟩, rfl⟩ (rowsBehind_length_lt _ _) 0
  rw [rowsBehind_eq_stampedDueRows hlayout] at hordered hfinal
  exact ⟨final, hrun,
    (stampedRemoved_iff_seamless hordered hfinal).mpr (seamless_group hlayout)⟩

end Exactness

/-- The delete by user and time is exact if no page boundary of the due rows falls
between two rows of one second, and in no other case. -/
theorem gmtUidDelete_exact_iff (gmt : Nat) (uid : UInt32) (pre : CString)
    (db : Database V) (hlayout : StampedLayout RawLogFields pre db)
    (hgmt : 10 ^ 9 ≤ gmt ∧ gmt < 2 ^ 32 - 1) :
    GmtUidExact gmt uid pre db ↔
      Seamless (fun row => keyTime pre row.1) dbKvnMax (stampedDueRows pre uid gmt db) :=
  gmtUidExact_iff_seamless uid hlayout hgmt

namespace SweepWitness

def logPre : CString := ⟨ascii "dyua-", by decide⟩

/-- Log rows of user 10001, all of one second. -/
def logKey (count : Nat) : StampedKey where
  id := 10001
  gmt := 2700000000
  rest := 45 :: decimal (1000 + count)
  gmt_reversed := by decide
  rest_stops := Or.inr ⟨_, rfl⟩
  rest_noNul := by simp [not_mem_decimal (by decide : ¬ IsDigit 0)]

theorem logKey_fields (count : Nat) : RawLogFields (logKey count) :=
  ⟨by simp [logKey], by simp [logKey]⟩

theorem logKey_length {count : Nat} (hcount : count < 9000) :
    ((logKey count).text logPre).length < keyBufLen := by
  have hwidth : (decimal (1000 + count)).length = 4 :=
    decimal_length_of_range (by omega) (by omega)
  have hid : (decimal 10001).length = 5 := by decide
  have htime : (decimal 2700000000).length = 10 := by decide
  have hpre : logPre.text.length = 5 := by decide
  grind [StampedKey.text, StampedKey.tail, logKey, ascii_dash, keyBufLen]

theorem logKey_lt {left right : Nat} (hlt : left < right) (hright : right < 9000) :
    (logKey left).text logPre < (logKey right).text logPre := by
  have hleftWidth : (decimal (1000 + left)).length = 4 :=
    decimal_length_of_range (by omega) (by omega)
  have hrightWidth : (decimal (1000 + right)).length = 4 :=
    decimal_length_of_range (by omega) (by omega)
  have hnumbers : decimal (1000 + left) < decimal (1000 + right) :=
    (decimal_lt_iff (hleftWidth.trans hrightWidth.symm)).mpr (by omega)
  simp_all [StampedKey.text, StampedKey.tail, logKey, append_lt_append_left_iff]

/-- The first `count` of these rows. -/
def logDb (count : Nat) (hcount : count ≤ 9000) : Database Unit where
  rows := (List.range count).map fun i => ((logKey i).text logPre, ())
  sorted := by
    rw [pairwise_map]
    apply pairwise_lt_range.imp_of_mem
    grind [logKey_lt]

theorem logDb_layout (count : Nat) (hcount : count ≤ 9000) :
    StampedLayout RawLogFields logPre (logDb count hcount) := by
  intro row hrow _
  obtain ⟨i, hi, rfl⟩ := mem_map.mp hrow
  have hbound := mem_range.mp hi
  exact ⟨logKey i, rfl, logKey_fields i, logKey_length (by omega)⟩

theorem logDb_due (count : Nat) (hcount : count ≤ 9000) :
    stampedDueRows logPre 10001 2650000000 (logDb count hcount) =
      (logDb count hcount).rows := by
  classical
  apply filter_eq_self.mpr
  intro row hrow
  obtain ⟨i, _, rfl⟩ := mem_map.mp hrow
  exact decide_eq_true ⟨logKey i, rfl, rfl, by simp [logKey]⟩

theorem gmtUidDelete_exact_one_page :
    GmtUidExact 2650000000 10001 logPre (logDb 1024 (by decide)) :=
  (gmtUidDelete_exact_iff 2650000000 10001 logPre (logDb 1024 (by decide))
    (logDb_layout 1024 (by decide)) (by decide)).mpr
      (by
        rw [logDb_due]
        exact seamless_of_length_le (by simp [logDb, dbKvnMax]))

/-- With one row more than a page takes, all of one second, the last row is skipped. -/
theorem gmtUidDelete_skips_row :
    StampedLayout RawLogFields logPre (logDb 1025 (by decide)) ∧
      ¬ GmtUidExact 2650000000 10001 logPre (logDb 1025 (by decide)) := by
  have hlayout := logDb_layout 1025 (by decide)
  refine ⟨hlayout, ?_⟩
  rw [gmtUidExact_iff_seamless 10001 hlayout (by decide), logDb_due]
  intro hseamless
  have hget : ∀ i < 1025, (logDb 1025 (by decide)).rows[i]? =
      some ((logKey i).text logPre, ()) := by
    intro i hi
    simp [logDb, hi]
  apply hseamless 0 _ _ (hget 1023 (by decide)) (hget 1024 (by decide))
  simp only [StampedKey.keyTime_text]
  rfl

/-- A row of a group at the start of a day. -/
def dayKey (gid day : Nat) (hday : 30671 ≤ day ∧ day < 49710) : StampedKey where
  id := gid
  gmt := 86400 * day
  rest := []
  gmt_reversed := by omega
  rest_stops := Or.inl rfl
  rest_noNul := by simp

/-- Two rows of group 1 and one of group 12. -/
def groupDb : Database Unit where
  rows := [((dayKey 1 30672 (by decide)).text usergroupCalcPre, ()),
    ((dayKey 1 30673 (by decide)).text usergroupCalcPre, ()),
    ((dayKey 12 30673 (by decide)).text usergroupCalcPre, ())]
  sorted := by decide

theorem groupDelete_exact_groupDb :
    StampedLayout (GroupFields 2650060800) usergroupCalcPre groupDb ∧
      ∃ final, wwDelGroupDbDataByGmtGidPrefix (fun _ => true) 4 2650060800 1 usergroupCalcPre
          groupDb = some (0, final) ∧
        StampedRemoved usergroupCalcPre 1 2650060800 groupDb final := by
  have hlayout : StampedLayout (GroupFields 2650060800) usergroupCalcPre groupDb := by
    intro row hrow _
    simp only [groupDb, mem_cons, not_mem_nil, or_false] at hrow
    rcases hrow with rfl | rfl | rfl
    · exact ⟨dayKey 1 30672 (by decide), rfl, ⟨by decide, rfl, by decide⟩, by decide⟩
    · exact ⟨dayKey 1 30673 (by decide), rfl, ⟨by decide, rfl, by decide⟩, by decide⟩
    · exact ⟨dayKey 12 30673 (by decide), rfl, ⟨by decide, rfl, by decide⟩, by decide⟩
  exact ⟨hlayout, groupDelete_exact 2650060800 1 usergroupCalcPre groupDb hlayout (by decide)
    (by decide)⟩

end SweepWitness

end WaterWall
