/-
`ww_del_user_qq_data_by_gmt_uid_prefix` of auto_data_save.c: the accounts a user
has chatted with are read page by page, and the messages of each are cleaned.
After a page the scan goes on behind the text of the last account plus one,
printed as a signed number, while the keys are in the order of the texts of the
unsigned accounts.  Scans and deletes succeed.
-/
import WaterWall.PageWalk
import WaterWall.RetentionTermination

namespace WaterWall

open ByteText OrderedStore List Option

universe v

variable {V : Type v}

/-- PRE_USER_QQ_CALC_MSGTIME: keys `anuqt-uid-account`. -/
def qqTimePre : CString := ⟨ascii "anuqt-", by decide⟩

/-- PRE_USER_QQ_CALC_MSG: keys `anuq-uid-account-G-hour`. -/
def qqMsgPre : CString := ⟨ascii "anuq-", by decide⟩

/-- The database, and the accounts that the message clean-up was called for. -/
structure QqRun (V : Type v) where
  db : Database V
  called : List UInt32

/-- The body of the loop over a page.  `account` is the field of the value; `none`
means that the message clean-up does not return. -/
def qqRow (account : V → UInt32) (gmt : Nat) (uid : UInt32) (run : QqRun V)
    (row : Bytes × V) : Option (QqRun V) := do
  let (_, db) ← wwDelUserQqMsgDataByGmtUidPrefix gmt uid qqMsgPre (account row.2) run.db
  let db := if gmt = 0 then delRow db row else db
  some ⟨db, run.called ++ [account row.2]⟩

/-- `"anuqt-%d"`, the common head of the scan bounds. -/
def qqTimeText (uid : UInt32) : Bytes :=
  qqTimePre.text ++ printD uid

/-- The `do { … } while(db_time_check->kvn)` loop.  An empty `scanflag` starts at the
first account; `none` means that the budget of scans did not suffice. -/
def qqSweepLoop (account : V → UInt32) (gmt : Nat) (uid : UInt32) :
    Nat → Bytes → QqRun V → Option (Int × QqRun V)
  | 0, _, _ => none
  | scans + 1, scanflag, run =>
    let start := snprintf keyBufLen
      (if scanflag.length ≠ 0 then scanflag else qqTimeText uid ++ ascii "-")
    let stop := snprintf keyBufLen (qqTimeText uid ++ ascii ".")
    match dbscan run.db start.1 start.2 stop.1 stop.2 dbKvnMax with
    | none => some (-1, run)
    | some page => do
        let next ← page.foldlM (qqRow account gmt uid) run
        match page.getLast? with
        | none => some (0, next)
        | some last =>
          qqSweepLoop account gmt uid scans
            (snprintf keyBufLen (qqTimeText uid ++ ascii "-" ++
              printD (account last.2 + 1))).1 next

def wwDelUserQqDataByGmtUidPrefix (account : V → UInt32) (scans gmt : Nat)
    (uid : UInt32) (db : Database V) : Option (Int × QqRun V) :=
  qqSweepLoop account gmt uid scans [] ⟨db, []⟩

/-- Every key under `anuqt-` is that of a user and an account, and its value holds the
account. -/
def AccountLayout (account : V → UInt32) (db : Database V) : Prop :=
  ∀ row ∈ db.rows, qqTimePre.text <+: row.1 →
    ∃ owner : Nat, row.1 =
      qqTimePre.text ++ decimal owner ++ ascii "-" ++ decimal (account row.2).toNat

/-- The keys under `anuq-` can be deleted. -/
def MessagesDeletable (db : Database V) : Prop :=
  ∀ row ∈ db.rows, qqMsgPre.text <+: row.1 →
    (0 : Byte) ∉ row.1 ∧ row.1.length < keyBufLen

/-- The rows of a user's accounts. -/
def accountRows (uid : UInt32) (db : Database V) : List (Bytes × V) :=
  db.rows.filter fun row =>
    Store.inRange (qqTimeText uid ++ ascii "-") (qqTimeText uid ++ ascii ".") row.1

/-- A user's accounts, in the order of their texts. -/
def accountsOf (account : V → UInt32) (uid : UInt32) (db : Database V) : List UInt32 :=
  (accountRows uid db).map fun row => account row.2

/-- The text of an account in a key, `%u`. -/
def accountText (account : UInt32) : Bytes :=
  decimal account.toNat

/-- The position that the scan after the page at `start` begins at: the number of
accounts up to the text of the last account plus one. -/
def nextStart (accounts : List UInt32) (start : Nat) : Nat :=
  match (PageWalk.page dbKvnMax accounts start).getLast? with
  | some last => PageWalk.rank accountText accounts (printD (last + 1))
  | none => accounts.length

/-- The sweep returns 0 after finitely many scans and has called the message clean-up
for every account. -/
def SweepCovers (account : V → UInt32) (gmt : Nat) (uid : UInt32) (db : Database V) : Prop :=
  ∃ scans run, wwDelUserQqDataByGmtUidPrefix account scans gmt uid db = some (0, run) ∧
    ∀ qq ∈ accountsOf account uid db, qq ∈ run.called

section Frame

/-- Only keys under the given text may be gone. -/
def ChangedUnder (pre : Bytes) (db next : Database V) : Prop :=
  ∃ keep : Bytes → Bool, next.rows = db.rows.filter (fun row => keep row.1) ∧
    ∀ key, ¬ pre <+: key → keep key = true

theorem ChangedUnder.refl (pre : Bytes) (db : Database V) : ChangedUnder pre db db :=
  ⟨fun _ => true, by simp, by simp⟩

theorem ChangedUnder.trans {pre : Bytes} {db next final : Database V}
    (hnext : ChangedUnder pre db next) (hfinal : ChangedUnder pre next final) :
    ChangedUnder pre db final := by
  obtain ⟨keep, hrows, hkeep⟩ := hnext
  obtain ⟨after, hafterRows, hafter⟩ := hfinal
  refine ⟨fun key => after key && keep key, ?_, ?_⟩
  · rw [hafterRows, hrows, List.filter_filter]
  · intro key hkey
    simp [hkeep key hkey, hafter key hkey]

theorem ChangedUnder.subset {pre : Bytes} {db next : Database V}
    (hchanged : ChangedUnder pre db next) {row : Bytes × V} (hrow : row ∈ next.rows) :
    row ∈ db.rows := by
  obtain ⟨keep, hrows, _⟩ := hchanged
  rw [hrows] at hrow
  exact (mem_filter.mp hrow).1

theorem ChangedUnder.scan_eq {pre : Bytes} {db next : Database V}
    (hchanged : ChangedUnder pre db next) {low high : Bytes}
    (houtside : ∀ key, low < key → key ≤ high → ¬ pre <+: key) (limit : Nat) :
    next.scan low high limit = db.scan low high limit := by
  obtain ⟨keep, hrows, hkeep⟩ := hchanged
  rw [Store.scan, Store.scan, hrows, List.filter_filter]
  congr 1
  apply filter_congr
  intro row _
  rw [Bool.eq_iff_iff, Bool.and_eq_true, Store.inRange_iff]
  exact ⟨fun h => h.1, fun h => ⟨h, hkeep row.1 (houtside row.1 h.1 h.2)⟩⟩

/-- The clean-up of an account's messages returns, and it leaves the keys alone that
are not messages. -/
theorem wwDelUserQqMsg_changed {db : Database V} (hdeletable : MessagesDeletable db)
    (gmt : Nat) (uid qqId : UInt32) :
    ∃ ret next, wwDelUserQqMsgDataByGmtUidPrefix gmt uid qqMsgPre qqId db =
        some (ret, next) ∧
      ChangedUnder qqMsgPre.text db next := by
  have hreach : ∀ key, InReach (userTypeStart qqMsgPre uid qqId)
      (userTypeEnd qqMsgPre uid qqId) key → qqMsgPre.text <+: key := by
    rintro key ⟨⟨number, hlow⟩, hhigh⟩
    rw [userTypeStart, append_assoc] at hlow
    obtain ⟨suffix, rfl⟩ := exists_suffix_of_between hlow hhigh
    rw [userTypeText]
    simp only [append_assoc]
    exact prefix_append _ _
  have hdeletes : ∀ n : Nat, (fun _ : Nat => true) n = true := fun _ => rfl
  have hcursor : ∀ key, (userCursor qqMsgPre key).isSome := fun _ => rfl
  obtain ⟨ret, next, keep, hrun, hrows, hkeep⟩ := sweepLoop_of_deletes hdeletes hcursor
    (fun row hrow hrowReach => hdeletable row hrow (hreach row.1 hrowReach))
    (Nat.lt_succ_self db.rows.length) 0 gmt
  refine ⟨ret, next, ?_, keep, hrows, fun key hkey => hkeep key (mt (hreach key) hkey)⟩
  rw [wwDelUserQqMsgDataByGmtUidPrefix, ← sweepUserTypeRows_true]
  exact hrun

theorem qqRow_changed (account : V → UInt32) {gmt : Nat} (hgmt : gmt ≠ 0) (uid : UInt32)
    {run : QqRun V} (hdeletable : MessagesDeletable run.db) (row : Bytes × V) :
    ∃ next, qqRow account gmt uid run row = some next ∧
      ChangedUnder qqMsgPre.text run.db next.db ∧
      next.called = run.called ++ [account row.2] := by
  obtain ⟨ret, db, hclean, hchanged⟩ :=
    wwDelUserQqMsg_changed hdeletable gmt uid (account row.2)
  simp_all [qqRow]

theorem qqPage_changed (account : V → UInt32) {gmt : Nat} (hgmt : gmt ≠ 0) (uid : UInt32)
    (page : List (Bytes × V)) {run : QqRun V} (hdeletable : MessagesDeletable run.db) :
    ∃ next, page.foldlM (qqRow account gmt uid) run = some next ∧
      ChangedUnder qqMsgPre.text run.db next.db ∧
      next.called = run.called ++ page.map fun row => account row.2 := by
  induction page generalizing run with
  | nil => exact ⟨run, rfl, ChangedUnder.refl _ _, by simp⟩
  | cons row page ih =>
    obtain ⟨next, hnext, hchanged, hcalled⟩ :=
      qqRow_changed account hgmt uid hdeletable row
    obtain ⟨last, hlast, hlastChanged, hlastCalled⟩ := @ih next
      fun other hother => hdeletable other (hchanged.subset hother)
    refine ⟨last, ?_, hchanged.trans hlastChanged, ?_⟩
    · rw [foldlM_cons, hnext]
      exact hlast
    · rw [hlastCalled, hcalled]
      simp

end Frame

section Accounts

variable {account : V → UInt32} {uid : UInt32} {db : Database V}

theorem between_account_iff (hlayout : AccountLayout account db) {row : Bytes × V}
    (hrow : row ∈ db.rows) (cursor : Bytes) :
    qqTimeText uid ++ 45 :: cursor < row.1 ∧ row.1 ≤ qqTimeText uid ++ [46] ↔
      row.1 = qqTimeText uid ++ 45 :: accountText (account row.2) ∧
        cursor < accountText (account row.2) := by
  have hdash : ¬ IsDigit 45 := by decide
  have hlayoutOf : ∀ stop rest, ¬ IsDigit stop → row.1 = qqTimeText uid ++ stop :: rest →
      stop = 45 ∧ rest = accountText (account row.2) := by
    intro stop rest hstop hrest
    have hpre : qqTimePre.text <+: row.1 := by
      rw [hrest, qqTimeText, append_assoc]
      exact prefix_append _ _
    obtain ⟨owner, howner⟩ := hlayout row hrow hpre
    rw [hrest] at howner
    simp only [qqTimeText, ascii_dash, append_assoc, cons_append,
      nil_append, append_cancel_left_eq] at howner
    exact (printD_append_inj hstop hdash howner).2
  rw [between_dash_dot_iff]
  constructor
  · rintro (⟨rest, hrest, hlt⟩ | hdot)
    · obtain ⟨_, rfl⟩ := hlayoutOf 45 rest hdash hrest
      exact ⟨hrest, hlt⟩
    · exact absurd (hlayoutOf 46 [] (by decide) hdot).1 (by decide)
  · rintro ⟨hkey, hlt⟩
    exact Or.inl ⟨_, hkey, hlt⟩

theorem nil_lt_accountText (qq : UInt32) : [] < accountText qq := by
  obtain ⟨first, rest, htext⟩ := exists_cons_of_ne_nil (decimal_ne_nil qq.toNat)
  rw [accountText, htext]
  exact nil_lt_cons first rest

theorem mem_accountRows (hlayout : AccountLayout account db) {row : Bytes × V} :
    row ∈ accountRows uid db ↔
      row ∈ db.rows ∧ row.1 = qqTimeText uid ++ 45 :: accountText (account row.2) := by
  rw [accountRows, mem_filter, Store.inRange_iff, ascii_dash, ascii_dot]
  refine and_congr_right fun hrow => ?_
  rw [between_account_iff hlayout hrow]
  exact and_iff_left (nil_lt_accountText _)

theorem accountsOf_sorted (hlayout : AccountLayout account db) :
    (accountsOf account uid db).Pairwise fun left right =>
      accountText left < accountText right := by
  rw [accountsOf, pairwise_map]
  have hsorted := db.sorted.sublist
    (filter_sublist : (accountRows uid db).Sublist db.rows)
  apply hsorted.imp_of_mem
  intro left right hleft hright hlt
  rw [((mem_accountRows hlayout).mp hleft).2, ((mem_accountRows hlayout).mp hright).2,
    append_lt_append_left_iff, cons_lt_cons_iff] at hlt
  exact (hlt.resolve_left (lt_irrefl _)).2

theorem accountsOf_nodup (hlayout : AccountLayout account db) :
    (accountsOf account uid db).Nodup :=
  (accountsOf_sorted hlayout).imp fun hlt heq => absurd (heq ▸ hlt) (lt_irrefl _)

theorem scan_accounts (hlayout : AccountLayout account db) (cursor : Bytes) :
    (db.scan (qqTimeText uid ++ 45 :: cursor) (qqTimeText uid ++ [46]) dbKvnMax).map
        (fun row => account row.2) =
      PageWalk.page dbKvnMax (accountsOf account uid db)
        (PageWalk.rank accountText (accountsOf account uid db) cursor) := by
  rw [PageWalk.page, ← PageWalk.filter_lt_eq_drop_rank (accountsOf_sorted hlayout),
    Store.scan, List.map_take, accountsOf, List.filter_map, accountRows,
    List.filter_filter]
  congr 2
  apply filter_congr
  intro row hrow
  rw [Bool.eq_iff_iff, Bool.and_eq_true, Store.inRange_iff, Store.inRange_iff, ascii_dash,
    ascii_dot, between_account_iff hlayout hrow, between_account_iff hlayout hrow]
  simp only [Function.comp_apply, decide_eq_true_eq]
  have hnil := nil_lt_accountText (account row.2)
  tauto

theorem printD_length_le (n : UInt32) : (printD n).length ≤ 11 := by
  have hn := n.toNat_lt
  have hwidth : (decimal n.toNat).length ≤ 10 := decimal_length_le (by omega)
  have hneg : (decimal (2 ^ 32 - n.toNat)).length ≤ 10 := decimal_length_le (by omega)
  rw [printD]
  grind [ascii_dash]

theorem qqBound_fits (uid : UInt32) (c : Byte) {cursor : Bytes} (hcursor : cursor.length ≤ 11) :
    (qqTimeText uid ++ c :: cursor).length < keyBufLen := by
  have huid := printD_length_le uid
  have hpre : qqTimePre.text.length = 6 := by decide
  rw [qqTimeText, length_append, length_append, length_cons, hpre, keyBufLen]
  omega

theorem not_message_of_between {cursor key : Bytes}
    (hlow : qqTimeText uid ++ 45 :: cursor < key) (hhigh : key ≤ qqTimeText uid ++ [46]) :
    ¬ qqMsgPre.text <+: key := by
  obtain ⟨suffix, rfl⟩ := exists_suffix_of_between hlow hhigh
  rintro ⟨rest, hrest⟩
  have hfifth := congrArg (fun text => text[4]?) hrest
  simp [qqMsgPre, qqTimeText, qqTimePre, ascii] at hfifth

/-- One round: the page is that of the first database, the accounts on it are cleaned,
and the scan goes on behind the last of them. -/
theorem qqSweepLoop_succ (hdeletable : MessagesDeletable db) {gmt : Nat} (hgmt : gmt ≠ 0)
    {scanflag cursor : Bytes} {run : QqRun V} (hrun : ChangedUnder qqMsgPre.text db run.db)
    (hflag : (if scanflag.length ≠ 0 then scanflag else qqTimeText uid ++ ascii "-") =
      qqTimeText uid ++ 45 :: cursor) (hcursor : cursor.length ≤ 11) :
    ∃ next, ChangedUnder qqMsgPre.text db next.db ∧
      next.called = run.called ++ (db.scan (qqTimeText uid ++ 45 :: cursor)
        (qqTimeText uid ++ [46]) dbKvnMax).map (fun row => account row.2) ∧
      ∀ scans, qqSweepLoop account gmt uid (scans + 1) scanflag run =
        match (db.scan (qqTimeText uid ++ 45 :: cursor) (qqTimeText uid ++ [46])
          dbKvnMax).getLast? with
        | none => some (0, next)
        | some last => qqSweepLoop account gmt uid scans
            (qqTimeText uid ++ 45 :: printD (account last.2 + 1)) next := by
  have hscan := hrun.scan_eq
    (fun key hlow hhigh => @not_message_of_between uid cursor key hlow hhigh) dbKvnMax
  obtain ⟨next, hnext, hchanged, hcalled⟩ := qqPage_changed account hgmt uid
    (db.scan (qqTimeText uid ++ 45 :: cursor) (qqTimeText uid ++ [46]) dbKvnMax)
    (fun row hrow => hdeletable row (hrun.subset hrow))
  refine ⟨next, hrun.trans hchanged, hcalled, fun scans => ?_⟩
  have hnextFlag : ∀ qq : UInt32, qqTimeText uid ++ ascii "-" ++ printD (qq + 1) =
      qqTimeText uid ++ 45 :: printD (qq + 1) := by
    intro qq
    simp
  have hstop : (qqTimeText uid ++ [46]).length < keyBufLen :=
    qqBound_fits uid 46 (Nat.zero_le 11 : ([] : Bytes).length ≤ 11)
  rw [qqSweepLoop, hflag]
  simp only [hnextFlag, ascii_dot, snprintf_fits (qqBound_fits uid 45 hcursor),
    snprintf_fits hstop, snprintf_fits (qqBound_fits uid 45 (printD_length_le _)), dbscan,
    and_self, ↓reduceIte, hscan, hnext, bind_eq_bind, bind_some]

theorem nextStart_of_getLast? {accounts : List UInt32} {start : Nat} {last : UInt32}
    (hlast : (PageWalk.page dbKvnMax accounts start).getLast? = some last) :
    ¬ accounts.length ≤ start ∧
      nextStart accounts start = PageWalk.rank accountText accounts (printD (last + 1)) := by
  refine ⟨fun hend => ?_, by rw [nextStart, hlast]⟩
  rw [(PageWalk.page_eq_nil_iff (by decide)).mpr hend] at hlast
  cases hlast

theorem qqSweepLoop_eq_visit (hlayout : AccountLayout account db)
    (hdeletable : MessagesDeletable db) {gmt : Nat} (hgmt : gmt ≠ 0) {scans : Nat}
    {scanflag cursor : Bytes} {run : QqRun V}
    (hrun : ChangedUnder qqMsgPre.text db run.db)
    (hflag : (if scanflag.length ≠ 0 then scanflag else qqTimeText uid ++ ascii "-") =
      qqTimeText uid ++ 45 :: cursor) (hcursor : cursor.length ≤ 11) :
    (qqSweepLoop account gmt uid scans scanflag run).map
        (fun result => (result.1, result.2.called)) =
      (PageWalk.visit (nextStart (accountsOf account uid db)) dbKvnMax
        (accountsOf account uid db) scans
        (PageWalk.rank accountText (accountsOf account uid db) cursor)).map
          fun read => (0, run.called ++ read) := by
  induction scans generalizing scanflag cursor run with
  | zero => rfl
  | succ scans ih =>
    have hpage := @scan_accounts _ account uid db hlayout cursor
    obtain ⟨next, hchanged, hcalled, hround⟩ :=
      @qqSweepLoop_succ _ account uid db hdeletable gmt hgmt _ _ _ hrun hflag hcursor
    rw [hround, PageWalk.visit]
    rw [hpage] at hcalled
    cases hlast : (db.scan (qqTimeText uid ++ 45 :: cursor) (qqTimeText uid ++ [46])
        dbKvnMax).getLast? with
    | none =>
      have hnil : PageWalk.page dbKvnMax (accountsOf account uid db)
          (PageWalk.rank accountText (accountsOf account uid db) cursor) = [] := by
        rw [← hpage, List.getLast?_eq_none_iff.mp hlast]
        rfl
      rw [if_pos ((PageWalk.page_eq_nil_iff (by decide)).mp hnil), map_some,
        map_some, hcalled, hnil]
    | some last =>
      obtain ⟨hstart, hnext⟩ := @nextStart_of_getLast? (accountsOf account uid db)
        (PageWalk.rank accountText (accountsOf account uid db) cursor) (account last.2)
        (by rw [← hpage, List.getLast?_map, hlast]; rfl)
      have hflagNext : (if (qqTimeText uid ++ 45 :: printD (account last.2 + 1)).length ≠ 0
          then qqTimeText uid ++ 45 :: printD (account last.2 + 1)
          else qqTimeText uid ++ ascii "-") =
            qqTimeText uid ++ 45 :: printD (account last.2 + 1) :=
        if_pos (by simp)
      have htail := @ih _ _ next hchanged hflagNext (printD_length_le _)
      simp_all [Function.comp_def, if_neg]

theorem sweepCovers_iff_covers (hlayout : AccountLayout account db)
    (hdeletable : MessagesDeletable db) {gmt : Nat} (hgmt : gmt ≠ 0) :
    SweepCovers account gmt uid db ↔
      PageWalk.Covers (nextStart (accountsOf account uid db)) dbKvnMax
        (accountsOf account uid db) := by
  have hrank : PageWalk.rank accountText (accountsOf account uid db) [] = 0 := by
    apply countP_eq_zero.mpr
    intro qq _
    simpa using nil_lt_accountText qq
  have hvisit : ∀ scans, (wwDelUserQqDataByGmtUidPrefix account scans gmt uid db).map
      (fun result => (result.1, result.2.called)) =
        (PageWalk.visit (nextStart (accountsOf account uid db)) dbKvnMax
          (accountsOf account uid db) scans 0).map fun read => (0, read) := by
    intro scans
    have hloop := @qqSweepLoop_eq_visit _ account uid db hlayout hdeletable gmt hgmt scans
      [] [] ⟨db, []⟩ (ChangedUnder.refl _ db) (if_neg (by simp)) (Nat.zero_le 11)
    rw [hrank] at hloop
    exact hloop
  rw [← PageWalk.exists_visit_iff_covers (accountsOf_nodup hlayout)]
  constructor
  · rintro ⟨scans, run, hrun, hall⟩
    have hread := hvisit scans
    rw [hrun, map_some, eq_comm, map_eq_some_iff] at hread
    grind
  · rintro ⟨scans, read, hread, hall⟩
    have hrun := hvisit scans
    rw [hread, map_some, map_eq_some_iff] at hrun
    obtain ⟨⟨ret, run⟩, hrun, hresult⟩ := hrun
    obtain ⟨rfl, rfl⟩ := Prod.mk.inj hresult
    exact ⟨scans, run, hrun, hall⟩

/-- The text of an account comes before that of its successor, as the code prints it,
for numbers below 2³¹ - 1 that are not all nines. -/
theorem accountText_le_printD_iff (qq : UInt32) :
    accountText qq ≤ printD (qq + 1) ↔
      qq.toNat + 1 < 2 ^ 31 ∧
        (decimal (qq.toNat + 1)).length = (decimal qq.toNat).length := by
  have hlt := qq.toNat_lt
  by_cases hsmall : qq.toNat + 1 < 2 ^ 31
  · have hsucc : (qq + 1).toNat = qq.toNat + 1 := by
      rw [UInt32.toNat_add]
      simp only [UInt32.toNat_one]
      omega
    rw [accountText, printD, if_pos (by omega), hsucc]
    simp only [hsmall, true_and]
    by_cases hwidth : (decimal (qq.toNat + 1)).length = (decimal qq.toNat).length
    · refine iff_of_true (le_of_lt ?_) hwidth
      exact (decimal_lt_iff hwidth.symm).mpr (Nat.lt_succ_self _)
    · refine iff_of_false ?_ hwidth
      grind [decimal_succ_of_width_ne, not_le, cons_lt_cons_iff]
  · refine iff_of_false (not_le.mpr ?_) fun h => hsmall h.1
    by_cases hlast : qq.toNat + 1 = 2 ^ 32
    · have hqq : qq = 4294967295 := UInt32.toNat_inj.mp (by
        rw [Nat.eq_sub_of_add_eq hlast]
        rfl)
      subst hqq
      decide
    · have hsucc : (qq + 1).toNat = qq.toNat + 1 := by
        rw [UInt32.toNat_add]
        simp only [UInt32.toNat_one]
        omega
      obtain ⟨first, rest, hdec⟩ := exists_cons_of_ne_nil (decimal_ne_nil qq.toNat)
      have hdigit : IsDigit first :=
        decimal_isDigit qq.toNat first (by rw [hdec]; exact mem_cons_self)
      have hdash : (45 : Byte) < first := by
        rw [UInt8.lt_iff_toNat_lt]
        exact Nat.lt_of_lt_of_le (by decide) hdigit.1
      rw [printD, if_neg (by omega), accountText, hdec, ascii_dash]
      exact cons_lt_cons_iff.mpr (Or.inl hdash)

theorem nextStart_one_page {accounts : List UInt32} (hlength : accounts.length ≤ dbKvnMax)
    {start : Nat} (hstart : start < accounts.length) {last : UInt32}
    (hlast : accounts.getLast? = some last) :
    nextStart accounts start = PageWalk.rank accountText accounts (printD (last + 1)) := by
  have hpage : (PageWalk.page dbKvnMax accounts start).getLast? = some last := by
    rw [PageWalk.page, take_of_length_le (by rw [length_drop]; omega),
      List.getLast?_drop, if_neg (not_le.mpr hstart), hlast]
  rw [nextStart, hpage]

theorem covers_one_page_iff {accounts : List UInt32}
    (hsorted : accounts.Pairwise fun left right => accountText left < accountText right)
    (hlength : accounts.length ≤ dbKvnMax) :
    PageWalk.Covers (nextStart accounts) dbKvnMax accounts ↔
      ∀ last, accounts.getLast? = some last → last.toNat + 1 < 2 ^ 31 ∧
        (decimal (last.toNat + 1)).length = (decimal last.toNat).length := by
  cases hlast : accounts.getLast? with
  | none =>
    have hnil := List.getLast?_eq_none_iff.mp hlast
    simp_all [PageWalk.covers_iff_of_length_le]
  | some last =>
    have hne : accounts ≠ [] := by
      rintro rfl
      simp at hlast
    have hpos := length_pos_iff.mpr hne
    have hnext : ∀ start < accounts.length, nextStart accounts start =
        PageWalk.rank accountText accounts (printD (last + 1)) :=
      fun start hstart => nextStart_one_page hlength hstart hlast
    rw [PageWalk.covers_iff_of_length_le hlength
      (fun start hstart => (hnext start hstart).trans (hnext 0 hpos).symm),
      hnext 0 hpos, PageWalk.length_le_rank_iff hsorted hlast, accountText_le_printD_iff]
    simp [hne]

end Accounts

namespace AccountWitness

def accountKey (qq : UInt32) : Bytes :=
  ascii "anuqt-10001-" ++ accountText qq

/-- The rows of user 10001 for accounts in the order of their texts. -/
def accountDb (accounts : List UInt32)
    (hsorted : accounts.Pairwise fun left right => accountText left < accountText right) :
    Database UInt32 where
  rows := accounts.map fun qq => (accountKey qq, qq)
  sorted := by
    rw [pairwise_map]
    apply hsorted.imp
    intro left right hlt
    exact (append_lt_append_left_iff _ _ _).mpr hlt

variable {accounts : List UInt32}
  {hsorted : accounts.Pairwise fun left right => accountText left < accountText right}

theorem accountDb_layout : AccountLayout id (accountDb accounts hsorted) := by
  intro row hrow _
  obtain ⟨qq, _, rfl⟩ := mem_map.mp hrow
  exact ⟨10001, rfl⟩

theorem accountDb_messages : MessagesDeletable (accountDb accounts hsorted) := by
  intro row hrow hpre
  obtain ⟨qq, _, rfl⟩ := mem_map.mp hrow
  obtain ⟨rest, hrest⟩ := hpre
  have hfifth := congrArg (fun text => text[4]?) hrest
  simp [qqMsgPre, accountKey, ascii] at hfifth

end AccountWitness

end WaterWall
