/-
Termination of the four retention deletes under failing deletes.  The loop asks
for as many scans as pages are not empty, and one more.  The deletes by time move
their cursor on with every page; the deletes by user and type read back the type,
and from the second scan on they ask for the same range again.
-/
import WaterWall.RetentionSweep

namespace WaterWall

open ByteText OrderedStore List

universe v

variable {V : Type v}

section Loop

variable {startText : Nat → Bytes} {endText : Bytes} {cursorOf : Bytes → Option Nat}
variable {stamp : Bytes → Nat} {deletes : Nat → Bool}

/-- A row that one of the scans can find. -/
def InReach (startText : Nat → Bytes) (endText key : Bytes) : Prop :=
  (∃ number, startText number < key) ∧ key ≤ endText

/-- The cursor is the stamp of the last row, and what a scan finds behind it has a
larger stamp. -/
structure Advancing (startText : Nat → Bytes) (endText : Bytes)
    (cursorOf : Bytes → Option Nat) (stamp : Bytes → Nat) (db : Database V) : Prop where
  cursor : ∀ row ∈ db.rows, InReach startText endText row.1 →
    cursorOf row.1 = some (stamp row.1)
  deletable : ∀ row ∈ db.rows, InReach startText endText row.1 →
    (0 : Byte) ∉ row.1 ∧ row.1.length < keyBufLen
  ahead : ∀ last ∈ db.rows, InReach startText endText last.1 → ∀ row ∈ db.rows,
    startText (resumeAfter (stamp last.1)) < row.1 → row.1 ≤ endText →
      stamp last.1 < stamp row.1

theorem Advancing.filter {db next : Database V}
    (hadvancing : Advancing startText endText cursorOf stamp db) {keep : Bytes → Bool}
    (hrows : next.rows = db.rows.filter fun row => keep row.1) :
    Advancing startText endText cursorOf stamp next ∧
      ∀ last ∈ db.rows, InReach startText endText last.1 → ∀ row ∈ next.rows,
        startText (resumeAfter (stamp last.1)) < row.1 → row.1 ≤ endText →
          stamp last.1 < stamp row.1 := by
  have hsubset : ∀ row ∈ next.rows, row ∈ db.rows := by
    intro row hrow
    rw [hrows] at hrow
    exact mem_of_mem_filter hrow
  have hahead : ∀ last ∈ db.rows, InReach startText endText last.1 → ∀ row ∈ next.rows,
      startText (resumeAfter (stamp last.1)) < row.1 → row.1 ≤ endText →
        stamp last.1 < stamp row.1 := by
    intro last hlast hreach row hrow
    exact hadvancing.ahead last hlast hreach row (hsubset row hrow)
  refine ⟨⟨?_, ?_, ?_⟩, hahead⟩
  · exact fun row hrow => hadvancing.cursor row (hsubset row hrow)
  · exact fun row hrow => hadvancing.deletable row (hsubset row hrow)
  · exact fun last hlast => hahead last (hsubset last hlast)

theorem mem_page_reach {db : Database V} {number : Nat} {row : Bytes × V}
    (hrow : row ∈ db.scan (startText number) endText dbKvnMax) :
    row ∈ db.rows ∧ InReach startText endText row.1 := by
  obtain ⟨hmem, hlow, hhigh⟩ := Store.mem_of_mem_scan hrow
  exact ⟨hmem, ⟨number, hlow⟩, hhigh⟩

/-- One round of an advancing loop: it returns, or it goes on behind a row of its
page with a part of the rows. -/
theorem Advancing.round {db : Database V}
    (hadvancing : Advancing startText endText cursorOf stamp db) (gmt scans call : Nat) :
    (sweepLoop deletes startText endText cursorOf (scans + 1) call gmt db).isSome ∨
      ∃ last ∈ db.rows, ∃ next : Database V, ∃ keep : Bytes → Bool,
        InReach startText endText last.1 ∧
        (startText (resumeAfter gmt) < last.1 ∧ last.1 ≤ endText) ∧
        next.rows = db.rows.filter (fun row => keep row.1) ∧
        sweepLoop deletes startText endText cursorOf (scans + 1) call gmt db =
          sweepLoop deletes startText endText cursorOf scans
            (call + (db.scan (startText (resumeAfter gmt)) endText dbKvnMax).length)
            (stamp last.1) next := by
  by_cases hfits : (startText (resumeAfter gmt)).length < keyBufLen ∧
      endText.length < keyBufLen
  · cases hlast : (db.scan (startText (resumeAfter gmt)) endText dbKvnMax).getLast? with
    | none =>
      left
      rw [sweepLoop_empty hfits.1 hfits.2 (List.getLast?_eq_none_iff.mp hlast)]
      rfl
    | some last =>
      right
      have hlastMem := mem_of_getLast? hlast
      obtain ⟨hmem, hreach⟩ := mem_page_reach hlastMem
      have hpage : Deletable (db.scan (startText (resumeAfter gmt)) endText dbKvnMax) :=
        fun row hrow => hadvancing.deletable row (mem_page_reach hrow).1
          (mem_page_reach hrow).2
      obtain ⟨keep, hrows, _⟩ := delPage_rows deletes call hpage db
      exact ⟨last, hmem, _, keep, hreach, (Store.mem_of_mem_scan hlastMem).2, hrows,
        sweepLoop_page hfits.1 hfits.2 hlast (hadvancing.cursor last hmem hreach)
          scans call⟩
  · left
    rw [sweepLoop_cut hfits]
    rfl

/-- Behind a cursor that all further rows are ahead of, the loop returns within one
scan for each of these rows and one more. -/
theorem Advancing.isSome_behind {scans : Nat} {db : Database V}
    (hadvancing : Advancing startText endText cursorOf stamp db) {gmt : Nat}
    (hahead : ∀ row ∈ db.rows, startText (resumeAfter gmt) < row.1 →
      row.1 ≤ endText → gmt < stamp row.1)
    (hscans : (laterThan (fun row => stamp row.1) gmt db.rows).length < scans)
    (call : Nat) :
    (sweepLoop deletes startText endText cursorOf scans call gmt db).isSome := by
  induction scans generalizing db gmt call with
  | zero => omega
  | succ scans ih =>
    rcases hadvancing.round gmt scans call with hsome | ⟨last, hlast, next, keep, hreach,
      hrange, hrows, hround⟩
    · exact hsome
    · have hlater := hahead last hlast hrange.1 hrange.2
      obtain ⟨hnext, hbehind⟩ := hadvancing.filter hrows
      rw [hround]
      apply ih hnext (hbehind last hlast hreach)
      have hshorter := @laterThan_filter_length_lt _ (fun row : Bytes × V => stamp row.1)
        gmt db.rows last hlast hlater (fun row => keep row.1)
      rw [hrows]
      omega

/-- Whatever the cutoff of the first scan, the loop returns within one scan for each row
and one more. -/
theorem Advancing.isSome {db : Database V}
    (hadvancing : Advancing startText endText cursorOf stamp db) (gmt : Nat) :
    (sweepLoop deletes startText endText cursorOf (db.rows.length + 1) 0 gmt db).isSome := by
  rcases hadvancing.round gmt db.rows.length 0 with hsome | ⟨last, hlast, next, keep, hreach,
    _, hrows, hround⟩
  · exact hsome
  · obtain ⟨hnext, hbehind⟩ := hadvancing.filter hrows
    rw [hround]
    apply hnext.isSome_behind (hbehind last hlast hreach)
    have hshorter := @laterThan_length_lt _ (fun row : Bytes × V => stamp row.1) _ _ hlast
    have hle : (laterThan (fun row : Bytes × V => stamp row.1) (stamp last.1)
        next.rows).length ≤
          (laterThan (fun row : Bytes × V => stamp row.1) (stamp last.1) db.rows).length := by
      rw [hrows]
      exact (filter_sublist.filter _).length_le
    omega

/-- Where every delete takes effect, the loop returns with any cursor: each page leaves
fewer rows.  Only rows in reach are gone. -/
theorem sweepLoop_of_deletes (hdeletes : ∀ n, deletes n = true)
    (hcursor : ∀ key, (cursorOf key).isSome) {scans : Nat} {db : Database V}
    (hdeletable : ∀ row ∈ db.rows, InReach startText endText row.1 →
      (0 : Byte) ∉ row.1 ∧ row.1.length < keyBufLen)
    (hscans : db.rows.length < scans) (call gmt : Nat) :
    ∃ ret final, ∃ keep : Bytes → Bool,
      sweepLoop deletes startText endText cursorOf scans call gmt db = some (ret, final) ∧
      final.rows = db.rows.filter (fun row => keep row.1) ∧
      ∀ key, ¬ InReach startText endText key → keep key = true := by
  induction scans generalizing db call gmt with
  | zero => omega
  | succ scans ih =>
    by_cases hfits : (startText (resumeAfter gmt)).length < keyBufLen ∧
        endText.length < keyBufLen
    · cases hlast :
          (db.scan (startText (resumeAfter gmt)) endText dbKvnMax).getLast? with
      | none =>
        exact ⟨0, db, fun _ => true, sweepLoop_empty hfits.1 hfits.2
          (List.getLast?_eq_none_iff.mp hlast) _ _, by simp, by simp⟩
      | some last =>
        obtain ⟨cursor, hlastCursor⟩ := Option.isSome_iff_exists.mp (hcursor last.1)
        have hlastMem := mem_of_getLast? hlast
        have hpage : Deletable
            (db.scan (startText (resumeAfter gmt)) endText dbKvnMax) :=
          fun row hrow => hdeletable row (mem_page_reach hrow).1 (mem_page_reach hrow).2
        obtain ⟨keep, hrows, hothers, hgone⟩ := delPage_rows deletes call hpage db
        have hshorter : (delPage deletes call
            (db.scan (startText (resumeAfter gmt)) endText dbKvnMax) db).rows.length <
              db.rows.length := by
          rw [hrows]
          apply length_filter_lt_length_iff_exists.mpr
          exact ⟨last, (mem_page_reach hlastMem).1,
            by simp [hgone hdeletes last.1 (mem_map_of_mem hlastMem)]⟩
        obtain ⟨ret, final, after, hrun, hfinal, hafter⟩ := ih
          (fun row hrow => hdeletable row (delPage_subset deletes call hpage hrow))
          (by omega)
          (call + (db.scan (startText (resumeAfter gmt)) endText dbKvnMax).length) cursor
        refine ⟨ret, final, fun key => after key && keep key, ?_, ?_, ?_⟩
        · rw [sweepLoop_page hfits.1 hfits.2 hlast hlastCursor, hrun]
        · rw [hfinal, hrows, filter_filter]
        · intro key hkey
          have hnot : key ∉ (db.scan (startText (resumeAfter gmt)) endText
              dbKvnMax).map Prod.fst := by
            intro hmem
            obtain ⟨row, hrow, rfl⟩ := mem_map.mp hmem
            exact hkey (mem_page_reach hrow).2
          simp [hothers key hnot, hafter key hkey]
    · exact ⟨-1, db, fun _ => true, sweepLoop_cut hfits _ _, by simp, by simp⟩

end Loop

section Stamped

variable {pre : CString} {id : UInt32} {fields : StampedKey → Prop} {db : Database V}

theorem advancing_of_layout {cursorOf : Bytes → Option Nat}
    (hlayout : StampedLayout fields pre db)
    (hfields : ∀ key, fields key → key.id < 2 ^ 31 ∧
      cursorOf (key.text pre) = some key.gmt) :
    Advancing (stampedStart pre id) (stampedEnd pre id) cursorOf (keyTime pre) db := by
  have hkeyOf : ∀ row ∈ db.rows, InReach (stampedStart pre id) (stampedEnd pre id) row.1 →
      ∃ key : StampedKey, row.1 = key.text pre ∧ fields key := by
    rintro row hrow ⟨⟨number, hlow⟩, hhigh⟩
    grind [between_stamped_iff]
  constructor
  · intro row hrow hreach
    obtain ⟨key, hkey, hkeyFields⟩ := hkeyOf row hrow hreach
    rw [hkey, key.keyTime_text]
    exact (hfields key hkeyFields).2
  · intro row hrow hreach
    obtain ⟨key, hkey, _⟩ := hkeyOf row hrow hreach
    exact ⟨hkey ▸ key.text_noNul pre, hlayout.fits hrow hkey⟩
  · intro last hlast hreach row hrow hlow hhigh
    obtain ⟨lastKey, hlastKey, _⟩ := hkeyOf last hlast hreach
    rw [hlastKey, lastKey.keyTime_text] at hlow ⊢
    rw [resumeAfter_reversed lastKey.gmt_reversed] at hlow
    obtain ⟨key, hkey, _, _, hlt⟩ := (between_stamped_iff hlayout
      (fun key hkey => (hfields key hkey).1) hrow _).mp ⟨hlow, hhigh⟩
    rw [decimal_lt_stampedTail_iff lastKey.gmt_reversed] at hlt
    rw [hkey, key.keyTime_text]
    omega

end Stamped

/-- The fields of a key `prefix uid-t-G-hour`, with any 32-bit `t`. -/
structure TypedKey where
  uid : Nat
  type : Nat
  gmt : Nat
  hour : Nat
  uid_digits : 10 ^ 4 ≤ uid ∧ uid < 10 ^ 5
  type_lt : type < 2 ^ 32
  gmt_reversed : 10 ^ 9 ≤ gmt ∧ gmt < 2 ^ 32

def TypedKey.tail (key : TypedKey) : Bytes :=
  decimal key.gmt ++ ascii "-" ++ decimal key.hour

def TypedKey.text (pre : CString) (key : TypedKey) : Bytes :=
  pre.text ++ decimal key.uid ++ ascii "-" ++ (decimal key.type ++ 45 :: key.tail)

def TypedLayout (pre : CString) (db : Database V) : Prop :=
  ∀ row ∈ db.rows, pre.text <+: row.1 →
    ∃ key : TypedKey, row.1 = key.text pre ∧ row.1.length < keyBufLen

/-- A key of the user and type behind the number, in the order of the keys.  A type
that prints as negative has none. -/
def Reached (pre : CString) (uid type : UInt32) (number : Nat) (text : Bytes) : Prop :=
  ∃ key : TypedKey, text = key.text pre ∧ key.uid = uid.toNat ∧ key.type = type.toNat ∧
    type.toNat < 2 ^ 31 ∧ decimal number < key.tail

section Typed

variable {pre : CString} {uid type : UInt32} {db : Database V}

theorem TypedKey.tail_noNul (key : TypedKey) : (0 : Byte) ∉ key.tail := by
  simp [tail, not_mem_decimal (by decide : ¬ IsDigit 0)]

theorem TypedKey.text_noNul (pre : CString) (key : TypedKey) : (0 : Byte) ∉ key.text pre := by
  simp [text, not_mem_decimal (by decide : ¬ IsDigit 0), pre.noNul, key.tail_noNul]

theorem TypedKey.userCursor_text (pre : CString) (key : TypedKey) :
    userCursor pre (key.text pre) = some key.type :=
  userCursor_append pre key.uid_digits (by have := key.type_lt; rw [u64Size]; omega)
    (Or.inr ⟨_, rfl⟩) (by simp [key.tail_noNul])

theorem TypedKey.text_eq (pre : CString) (key : TypedKey) :
    key.text pre =
      pre.text ++ (decimal key.uid ++ 45 :: (decimal key.type ++ 45 :: key.tail)) := by
  simp [text]

theorem between_typed_iff (hlayout : TypedLayout pre db) {row : Bytes × V}
    (hrow : row ∈ db.rows) (number : Nat) :
    userTypeStart pre uid type number < row.1 ∧ row.1 ≤ userTypeEnd pre uid type ↔
      Reached pre uid type number row.1 := by
  have hstart : userTypeStart pre uid type number =
      userTypeText pre uid type ++ 45 :: decimal number := by
    simp [userTypeStart]
  have hdash : ¬ IsDigit 45 := by decide
  have hlayoutOf : ∀ stop rest, ¬ IsDigit stop →
      row.1 = userTypeText pre uid type ++ stop :: rest →
      ∃ key : TypedKey, row.1 = key.text pre ∧ key.uid = uid.toNat ∧
        key.type = type.toNat ∧ type.toNat < 2 ^ 31 ∧ stop = 45 ∧ rest = key.tail := by
    intro stop rest hstop hrest
    have hsplit : userTypeText pre uid type ++ stop :: rest =
        pre.text ++ (printD uid ++ 45 :: (printD type ++ stop :: rest)) := by
      simp [userTypeText]
    have hpre : pre.text <+: row.1 := by
      rw [hrest, hsplit]
      exact prefix_append _ _
    obtain ⟨key, hkey, _⟩ := hlayout row hrow hpre
    have htext := hkey
    rw [hrest, hsplit, key.text_eq] at htext
    obtain ⟨huid, _, htype⟩ := printD_append_inj hdash hdash (append_cancel_left htext)
    obtain ⟨hnumber, hstopEq, htail⟩ := printD_append_inj hstop hdash htype
    exact ⟨key, hkey, huid.symm, hnumber.symm, lt_of_printD_append htype, hstopEq, htail⟩
  rw [hstart, userTypeEnd, ascii_dot, between_dash_dot_iff]
  constructor
  · rintro (⟨rest, hrest, hlt⟩ | hdot)
    · obtain ⟨key, hkey, huid, htype, htypeLt, _, rfl⟩ := hlayoutOf 45 rest hdash hrest
      exact ⟨key, hkey, huid, htype, htypeLt, hlt⟩
    · obtain ⟨_, _, _, _, _, hstop, _⟩ := hlayoutOf 46 [] (by decide) hdot
      exact absurd hstop (by decide)
  · rintro ⟨key, hkey, huid, htype, htypeLt, hlt⟩
    have huidLt := key.uid_digits.2
    grind [userTypeText.eq_1, printD_of_lt, TypedKey.text]

theorem scan_typed_eq_nil_iff (hlayout : TypedLayout pre db) (number : Nat) :
    db.scan (userTypeStart pre uid type number) (userTypeEnd pre uid type) dbKvnMax = [] ↔
      ∀ row ∈ db.rows, ¬ Reached pre uid type number row.1 := by
  rw [Store.scan_eq_nil_iff (by decide)]
  refine forall_congr' fun row => forall_congr' fun hrow => not_congr ?_
  exact between_typed_iff hlayout hrow number

theorem Reached.deletable (hlayout : TypedLayout pre db) {row : Bytes × V}
    (hrow : row ∈ db.rows) {number : Nat} (hreached : Reached pre uid type number row.1) :
    (0 : Byte) ∉ row.1 ∧ row.1.length < keyBufLen := by
  obtain ⟨key, hkey, _⟩ := hreached
  have hpre : pre.text <+: row.1 := by
    rw [hkey, key.text_eq]
    exact prefix_append _ _
  obtain ⟨_, _, hfits⟩ := hlayout row hrow hpre
  exact ⟨hkey ▸ key.text_noNul pre, hfits⟩

theorem Reached.start_fits (hlayout : TypedLayout pre db) {row : Bytes × V}
    (hrow : row ∈ db.rows) {number : Nat} (hreached : Reached pre uid type number row.1) :
    (userTypeStart pre uid type (resumeNumber type)).length < keyBufLen := by
  have hlength := (hreached.deletable hlayout hrow).2
  obtain ⟨key, hkey, huid, htype, htypeLt, _⟩ := hreached
  have huidLt := key.uid_digits.2
  have hgmt := key.gmt_reversed
  have htime : (decimal key.gmt).length = 10 := decimal_length_of_range hgmt.1 (by omega)
  have hwidth := decimal_length_le (resumeNumber_lt htypeLt)
  rw [hkey, key.text_eq] at hlength
  simp only [userTypeStart, userTypeText, printD_of_lt htypeLt,
    printD_of_lt (show uid.toNat < 2 ^ 31 by omega), TypedKey.tail, length_append,
    length_cons, ascii_dash, length_nil, htime, huid, htype] at hlength ⊢
  omega

theorem sweepUserType_page (hlayout : TypedLayout pre db) (deletes : Nat → Bool) {gmt : Nat}
    (hfits : (userTypeStart pre uid type (resumeAfter gmt)).length < keyBufLen)
    {row : Bytes × V} (hrow : row ∈ db.rows)
    (hreached : Reached pre uid type (resumeAfter gmt) row.1) (scans call : Nat) :
    sweepLoop deletes (userTypeStart pre uid type) (userTypeEnd pre uid type)
        (userCursor pre) (scans + 1) call gmt db =
      sweepLoop deletes (userTypeStart pre uid type) (userTypeEnd pre uid type)
        (userCursor pre) scans
        (call + (db.scan (userTypeStart pre uid type (resumeAfter gmt))
          (userTypeEnd pre uid type) dbKvnMax).length) type.toNat
        (delPage deletes call (db.scan (userTypeStart pre uid type (resumeAfter gmt))
          (userTypeEnd pre uid type) dbKvnMax) db) := by
  have hpage : db.scan (userTypeStart pre uid type (resumeAfter gmt))
      (userTypeEnd pre uid type) dbKvnMax ≠ [] := by
    rw [Ne, scan_typed_eq_nil_iff hlayout]
    exact fun hnone => hnone row hrow hreached
  obtain ⟨hlast, hrange⟩ := Store.mem_of_mem_scan (getLast_mem hpage)
  obtain ⟨key, hkey, _, htype, _⟩ := (between_typed_iff hlayout hlast _).mp hrange
  apply sweepLoop_page hfits (userTypeEnd_fits hfits)
    (List.getLast?_eq_getLast_of_ne_nil hpage)
  rw [hkey, key.userCursor_text, htype]

theorem delPage_false (call : Nat) (page : List (Bytes × V)) (db : Database V) :
    delPage (fun _ => false) call page db = db := by
  induction page generalizing call with
  | nil => rfl
  | cons row page ih => exact ih (call + 1)

theorem sweepUserType_stuck (hlayout : TypedLayout pre db) {row : Bytes × V}
    (hrow : row ∈ db.rows) (hreached : Reached pre uid type (resumeNumber type) row.1)
    (scans call : Nat) :
    sweepLoop (fun _ => false) (userTypeStart pre uid type) (userTypeEnd pre uid type)
      (userCursor pre) scans call type.toNat db = none := by
  have hresume := resumeAfter_type type
  induction scans generalizing call with
  | zero => rfl
  | succ scans ih =>
    rw [sweepUserType_page hlayout _ (hresume ▸ hreached.start_fits hlayout hrow) hrow
      (hresume ▸ hreached), delPage_false]
    exact ih _

/-- The deletes by user and type return under every pattern of failures if their first
or their second scan finds nothing, and in no other case. -/
theorem sweepUserTypeRows_isSome_iff (hlayout : TypedLayout pre db) {gmt : Nat}
    (hfits : (userTypeStart pre uid type (resumeAfter gmt)).length < keyBufLen) :
    (∀ deletes, (sweepUserTypeRows deletes (db.rows.length + 1) gmt uid pre type db).isSome) ↔
      (∀ row ∈ db.rows, ¬ Reached pre uid type (resumeAfter gmt) row.1) ∨
        ∀ row ∈ db.rows, ¬ Reached pre uid type (resumeNumber type) row.1 := by
  constructor
  · intro hreturns
    by_contra hboth
    simp only [not_or, not_forall, not_not] at hboth
    obtain ⟨⟨first, hfirst, hfirstReached⟩, ⟨second, hsecond, hsecondReached⟩⟩ := hboth
    have hsome := hreturns fun _ => false
    rw [sweepUserTypeRows, sweepUserType_page hlayout _ hfits hfirst hfirstReached,
      delPage_false, sweepUserType_stuck hlayout hsecond hsecondReached] at hsome
    exact absurd hsome (by simp)
  · intro hempty deletes
    by_cases hfirst : ∀ row ∈ db.rows, ¬ Reached pre uid type (resumeAfter gmt) row.1
    · rw [sweepUserTypeRows, sweepLoop_empty hfits (userTypeEnd_fits hfits)
        ((scan_typed_eq_nil_iff hlayout _).mpr hfirst)]
      rfl
    · have hsecond := hempty.resolve_left hfirst
      simp only [not_forall, not_not] at hfirst
      obtain ⟨row, hrow, hreached⟩ := hfirst
      obtain ⟨scans, hscans⟩ := Nat.exists_eq_succ_of_ne_zero
        (length_pos_of_mem hrow).ne'
      have hpage : Deletable (db.scan (userTypeStart pre uid type (resumeAfter gmt))
          (userTypeEnd pre uid type) dbKvnMax) := by
        intro other hother
        obtain ⟨hmem, hrange⟩ := Store.mem_of_mem_scan hother
        exact ((between_typed_iff hlayout hmem _).mp hrange).deletable hlayout hmem
      have hsubset : ∀ other ∈ (delPage deletes 0 (db.scan
          (userTypeStart pre uid type (resumeAfter gmt)) (userTypeEnd pre uid type)
          dbKvnMax) db).rows, other ∈ db.rows :=
        fun other hother => delPage_subset deletes 0 hpage hother
      have hnext := hreached.start_fits hlayout hrow
      have hempty := (scan_typed_eq_nil_iff
        (fun other hother => hlayout other (hsubset other hother)) (resumeNumber type)).mpr
          fun other hother => hsecond other (hsubset other hother)
      rw [← resumeAfter_type type] at hnext hempty
      rw [sweepUserTypeRows, sweepUserType_page hlayout _ hfits hrow hreached, hscans,
        sweepLoop_empty hnext (userTypeEnd_fits hnext) hempty]
      rfl

end Typed

/-- The deletes by time return within one scan for each row and one more, whichever
deletes fail; those by type do so only where their first or second scan is empty. -/
theorem retentionDeletes_return_iff (gmt : Nat) (id type : UInt32) (pre : CString)
    (db : Database V) :
    (StampedLayout (fun key => 10 ^ 4 ≤ key.id ∧ key.id < 10 ^ 5) pre db →
      ∀ deletes, (wwDelUserDbDataByGmtUidPrefix deletes (db.rows.length + 1) gmt id pre
        db).isSome) ∧
    (StampedLayout (fun key => key.id < 2 ^ 31 ∧ key.rest = []) pre db →
      ∀ deletes, (wwDelGroupDbDataByGmtGidPrefix deletes (db.rows.length + 1) gmt id pre
        db).isSome) ∧
    (TypedLayout pre db →
      (userTypeStart pre id type (resumeAfter gmt)).length < keyBufLen →
      ((∀ deletes, (wwDelUserDbDataByUidTypeGmtPrefixFailing deletes (db.rows.length + 1)
          gmt id pre type db).isSome) ↔
        (∀ row ∈ db.rows, ¬ Reached pre id type (resumeAfter gmt) row.1) ∨
          ∀ row ∈ db.rows, ¬ Reached pre id type (resumeNumber type) row.1) ∧
      ((∀ deletes, (wwDelUserQqMsgDataByGmtUidPrefixFailing deletes (db.rows.length + 1)
          gmt id pre type db).isSome) ↔
        (∀ row ∈ db.rows, ¬ Reached pre id type (resumeAfter gmt) row.1) ∨
          ∀ row ∈ db.rows, ¬ Reached pre id type (resumeNumber type) row.1)) := by
  refine ⟨fun hlayout deletes => ?_, fun hlayout deletes => ?_, fun hlayout hfits => ?_⟩
  · apply (advancing_of_layout hlayout _).isSome
    intro key hkey
    exact ⟨by omega, key.userCursor_text pre hkey⟩
  · apply (advancing_of_layout hlayout _).isSome
    intro key hkey
    exact ⟨hkey.1, key.groupCursor_text pre⟩
  · exact ⟨sweepUserTypeRows_isSome_iff hlayout hfits,
      sweepUserTypeRows_isSome_iff hlayout hfits⟩

namespace TerminationWitness

/-- The row of user 10002 with the given type. -/
def rowKey (type : Nat) (htype : type < 2 ^ 32) : TypedKey :=
  ⟨10002, type, 2710000000, 3, by decide, htype, by decide⟩

def rowDb (type : Nat) (htype : type < 2 ^ 32) : Database Unit where
  rows := [((rowKey type htype).text userDetailPre, ())]
  sorted := pairwise_singleton _ _

theorem rowDb_layout {type : Nat} (htype : type < 2 ^ 32)
    (hfits : ((rowKey type htype).text userDetailPre).length < keyBufLen) :
    TypedLayout userDetailPre (rowDb type htype) := by
  intro row hrow _
  obtain rfl := mem_singleton.mp hrow
  exact ⟨rowKey type htype, rfl, hfits⟩

/-- No key of type 5 lies behind the number 6, so the loop returns after two scans. -/
theorem retentionDeletes_return_type_five :
    TypedLayout userDetailPre (rowDb 5 (by decide)) ∧
      ∀ deletes, (wwDelUserDbDataByUidTypeGmtPrefixFailing deletes 2 2650000000 10002
        userDetailPre 5 (rowDb 5 (by decide))).isSome := by
  have hlayout := rowDb_layout (by decide : 5 < 2 ^ 32) (by decide)
  refine ⟨hlayout, ?_⟩
  apply ((retentionDeletes_return_iff 2650000000 10002 5 userDetailPre
    (rowDb 5 (by decide))).2.2 hlayout (by decide)).1.mpr
  right
  intro row hrow
  obtain rfl := mem_singleton.mp hrow
  rw [← between_typed_iff hlayout mem_cons_self]
  decide

/-- With type 1 and failing deletes the loop never returns. -/
theorem retentionDeletes_stuck_type_one :
    TypedLayout userDetailPre (rowDb 1 (by decide)) ∧
      (∀ scans, wwDelUserDbDataByUidTypeGmtPrefixFailing (fun _ => false) scans 2650000000
        10002 userDetailPre 1 (rowDb 1 (by decide)) = none) ∧
      ¬ ∀ deletes, (wwDelUserDbDataByUidTypeGmtPrefixFailing deletes 2 2650000000 10002
        userDetailPre 1 (rowDb 1 (by decide))).isSome := by
  have hlayout := rowDb_layout (by decide : 1 < 2 ^ 32) (by decide)
  have hrow : ((rowKey 1 (by decide)).text userDetailPre, ()) ∈ (rowDb 1 (by decide)).rows :=
    mem_cons_self
  have hfirst : Reached userDetailPre 10002 1 (resumeAfter 2650000000)
      ((rowKey 1 (by decide)).text userDetailPre) := by
    exact ⟨rowKey 1 (by decide), rfl, rfl, rfl, by decide, by decide⟩
  have hsecond : Reached userDetailPre 10002 1 (resumeNumber 1)
      ((rowKey 1 (by decide)).text userDetailPre) := by
    exact ⟨rowKey 1 (by decide), rfl, rfl, rfl, by decide, by decide⟩
  have hstuck : ∀ scans, wwDelUserDbDataByUidTypeGmtPrefixFailing (fun _ => false) scans
      2650000000 10002 userDetailPre 1 (rowDb 1 (by decide)) = none := by
    intro scans
    cases scans with
    | zero => rfl
    | succ scans =>
      rw [wwDelUserDbDataByUidTypeGmtPrefixFailing, sweepUserTypeRows,
        sweepUserType_page hlayout _ (by decide) hrow hfirst, delPage_false]
      exact sweepUserType_stuck hlayout hrow hsecond _ _
  refine ⟨hlayout, hstuck, fun hreturns => ?_⟩
  have hsome := hreturns fun _ => false
  rw [hstuck] at hsome
  exact absurd hsome (by simp)

end TerminationWitness

end WaterWall
