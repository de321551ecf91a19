/-
ww_time_init of auto_data_save.c: the newest logs of the users that are online vote
for a system time.  Of each two times both get a mark if they are more than an hour
apart, and a user without a time gets one more in any case; the first user with the
fewest marks wins.  Unsigned subtraction makes the time 0 of a user that is offline
differ from every other, so that only users that are online can win.
-/
import WaterWall.RetentionDelete
import WaterWall.RoundRobin
import WaterWall.TaskParser
import Mathlib.Data.UInt

namespace WaterWall

open ByteText

/-- PRE_USER_ACTION. -/
def preUserAction : Bytes := ascii "dyua-"

/-- The number read behind the user id of a key. -/
def gmtOf (key : Bytes) : Nat :=
  atoull (cstr (key.drop (preUserAction.length + useridLen)))

namespace Clock

open RoundRobin List
open Allocator (atoi)

/-- DB_SCAN_MAX of db.h. -/
def dbScanMax : Nat := 1024

/-- PRE_USER_STAT and PRE_USER_STAT_SE. -/
def preUserStat : Bytes := ascii "stus-"

def preUserStatSe : Bytes := ascii "stus."

/-- `dbscan` with two keys, their lengths and a limit: the rows, or nothing if there is no
answer or its `rno` is not DB_SCAN_OK. -/
abbrev Scan := Bytes → Nat → Bytes → Nat → Nat → Option (List (Bytes × Bytes))

/-- BTOU8; a value is followed by a NUL. -/
def btou8 (val : Bytes) : Byte :=
  val.headD 0

def uidOf (key : Bytes) : UInt32 :=
  (atoi (cstr (key.drop preUserStat.length))).toUInt32

/-- `"dyua-%u"` and a character. -/
def actionText (uid : UInt32) (stop : String) : Bytes :=
  preUserAction ++ decimal uid.toNat ++ ascii stop

/-- The time in the first of a user's logs, whose keys are in reverse order of time. -/
def newestLog (scan : Scan) (uid : UInt32) : Option UInt64 :=
  let scanstart := snprintf keyBufLen (actionText uid "-")
  let scanend := snprintf keyBufLen (actionText uid ".")
  match scan scanstart.1 scanstart.2 scanend.1 scanend.2 10 with
  | none => none
  | some [] => none
  | some (row :: _) => some (gmtReversMask - UInt64.ofNat (gmtOf row.1))

/-- The loop that fills `time_arr` and `online_flag`.  `some none` is a jump to OUT, `none` a
write behind the array. -/
def readTimes (scan : Scan) : Nat → List (Bytes × Bytes) → (Nat → UInt64) → Bool →
    Option (Option ((Nat → UInt64) × Bool))
  | _, [], timeArr, onlineFlag => some (some (timeArr, onlineFlag))
  | i, (key, val) :: users, timeArr, onlineFlag =>
    if btou8 val = 1 then
      match newestLog scan (uidOf key) with
      | none => some none
      | some time =>
        if i < dbScanMax then
          readTimes scan (i + 1) users (Function.update timeArr i time) true
        else none
    else readTimes scan (i + 1) users timeArr onlineFlag

/-- `time_flag[i]++`. -/
def increment (timeFlag : Nat → UInt32) (i : Nat) : Nat → UInt32 :=
  Function.update timeFlag i (timeFlag i + 1)

/-- The comparison of two times, on unsigned numbers. -/
def Abnormal (left right : UInt64) : Prop :=
  left > right + 3600 ∨ left < right - 3600

instance (left right : UInt64) : Decidable (Abnormal left right) :=
  inferInstanceAs (Decidable (_ ∨ _))

/-- The body of the two nested loops. -/
def compareTimes (timeArr : Nat → UInt64) (timeFlag : Nat → UInt32) (i j : Nat) :
    Nat → UInt32 :=
  let timeFlag := if timeArr i = 0 then increment timeFlag i else timeFlag
  let timeFlag := if timeArr j = 0 then increment timeFlag j else timeFlag
  if Abnormal (timeArr i) (timeArr j) then increment (increment timeFlag i) j else timeFlag

def flagTimes (timeArr : Nat → UInt64) (n : Nat) (timeFlag : Nat → UInt32) : Nat → UInt32 :=
  (List.range n).foldl (fun timeFlag i =>
    (List.range' (i + 1) (n - (i + 1))).foldl
      (fun timeFlag j => compareTimes timeArr timeFlag i j) timeFlag) timeFlag

def findNum (timeFlag : Nat → UInt32) (n : Nat) : Nat :=
  (List.range n).foldl (fun found i => if timeFlag found > timeFlag i then i else found) 0

/-- `find_num` and its time.  The loops read behind the arrays if there are too many users. -/
def electTime (scan : Scan) : Option (Option (Nat × UInt64)) :=
  match scan preUserStat preUserStat.length preUserStatSe preUserStatSe.length dbScanMax with
  | none => some none
  | some users =>
    if users.length = 0 then some none
    else
      match readTimes scan 0 users (fun _ => 0) false with
      | none => none
      | some none => some none
      | some (some (timeArr, onlineFlag)) =>
        if onlineFlag = false then some none
        else if dbScanMax < users.length then none
        else
          let found := findNum (flagTimes timeArr users.length fun _ => 0) users.length
          some (some (found, timeArr found))

/-- The argument of `set_systime` if it is called, before the program exits.  The comparisons
convert the signed `tm`. -/
def syncTime (tm : Int64) (time : UInt64) : Option UInt32 :=
  if tm.toUInt64 > time + 30 * 24 * 3600 then some time.toUInt32
  else if tm.toUInt64 < time - 3600 then some time.toUInt32
  else none

def wwTimeInit (tm : Int64) (scan : Scan) : Option (Option UInt32) :=
  (electTime scan).map fun elected => elected.bind fun found => syncTime tm found.2

/-- The times of some users, of which those that are offline have none. -/
abbrev Times := List (Option Nat)

/-- More than an hour apart. -/
def Apart (t u : Nat) : Prop :=
  t + 3600 < u ∨ u + 3600 < t

instance (t u : Nat) : Decidable (Apart t u) :=
  inferInstanceAs (Decidable (_ ∨ _))

namespace Times

/-- The number of users whose time is more than an hour from the given one. -/
def apart (times : Times) (t : Nat) : Nat :=
  times.countP fun other => other.any fun u => decide (Apart t u)

/-- User `k` is online with time `t`, and the first one to differ from as few as possible. -/
structure Elected (times : Times) (k t : Nat) : Prop where
  online : times[k]? = some (some t)
  least : ∀ (m u : Nat), times[m]? = some (some u) → times.apart t ≤ times.apart u
  first : ∀ (m u : Nat), m < k → times[m]? = some (some u) → times.apart t < times.apart u

/-- Times after the first hour of 1970 that fit in 32 bits. -/
def Sound (times : Times) : Prop :=
  ∀ t, some t ∈ times → 3600 < t ∧ t < 2 ^ 32

/-- `time_arr` for these users. -/
def timeArr (times : Times) (i : Nat) : UInt64 :=
  UInt64.ofNat ((times[i]?).join.getD 0)

/-- The marks that a user gets from a comparison with another. -/
def marks : Option Nat → Option Nat → Nat
  | none, _ => 2
  | some _, none => 1
  | some t, some u => if Apart t u then 1 else 0

section Marks

variable {times : Times} {i j k m n t u : Nat}

theorem Sound.of_getElem? (hsound : times.Sound) (hi : times[i]? = some (some t)) :
    3600 < t ∧ t < 2 ^ 32 :=
  hsound t (mem_of_getElem? hi)

theorem timeArr_of_online (hi : times[i]? = some (some t)) :
    times.timeArr i = UInt64.ofNat t := by
  rw [timeArr, hi]
  rfl

theorem timeArr_of_offline (hi : times[i]? = some none) : times.timeArr i = 0 := by
  rw [timeArr, hi]
  rfl

theorem toNat_time (ht : t < 2 ^ 32) : (UInt64.ofNat t).toNat = t := by
  rw [UInt64.toNat_ofNat', Nat.mod_eq_of_lt (by omega)]

theorem ofNat_ne_zero (ht : 3600 < t ∧ t < 2 ^ 32) : UInt64.ofNat t ≠ 0 := by
  intro hzero
  have := congrArg UInt64.toNat hzero
  rw [toNat_time ht.2] at this
  simp at this
  omega

theorem abnormal_iff (ht : 3600 < t ∧ t < 2 ^ 32) (hu : 3600 < u ∧ u < 2 ^ 32) :
    Abnormal (UInt64.ofNat t) (UInt64.ofNat u) ↔ Apart t u := by
  have hhour : (3600 : UInt64) ≤ UInt64.ofNat u := by
    rw [UInt64.le_iff_toNat_le, toNat_time hu.2]
    exact hu.1.le
  rw [Abnormal, Apart, gt_iff_lt, UInt64.lt_iff_toNat_lt, UInt64.lt_iff_toNat_lt,
    UInt64.toNat_add, UInt64.toNat_sub_of_le _ _ hhour, toNat_time ht.2, toNat_time hu.2]
  change (u + 3600) % 2 ^ 64 < t ∨ t < u - 3600 ↔ _
  omega

theorem abnormal_zero_right (ht : t < 2 ^ 32) : Abnormal (UInt64.ofNat t) 0 := by
  right
  rw [UInt64.lt_iff_toNat_lt, toNat_time ht]
  exact ht.trans (by decide)

theorem abnormal_zero_left (hu : 3600 < u ∧ u < 2 ^ 32) : Abnormal 0 (UInt64.ofNat u) := by
  have hhour : (3600 : UInt64) ≤ UInt64.ofNat u := by
    rw [UInt64.le_iff_toNat_le, toNat_time hu.2]
    exact hu.1.le
  right
  rw [UInt64.lt_iff_toNat_lt, UInt64.toNat_sub_of_le _ _ hhour, toNat_time hu.2]
  change 0 < u - 3600
  omega

theorem apart_comm : Apart t u ↔ Apart u t :=
  or_comm

/-- What the comparison of two times adds to their flags. -/
def gain (timeArr : Nat → UInt64) (i j : Nat) : UInt32 × UInt32 :=
  let apart : UInt32 := if Abnormal (timeArr i) (timeArr j) then 1 else 0
  ((if timeArr i = 0 then 1 else 0) + apart, (if timeArr j = 0 then 1 else 0) + apart)

theorem ite_increment (p : Prop) [Decidable p] (timeFlag : Nat → UInt32) (i : Nat) :
    (if p then increment timeFlag i else timeFlag) = award timeFlag i (if p then 1 else 0) := by
  by_cases hp : p
  · rw [if_pos hp, if_pos hp]
    rfl
  · funext k
    rw [if_neg hp, if_neg hp, award_apply, ite_self, add_zero]

theorem compareTimes_eq_meet (timeArr : Nat → UInt64) (timeFlag : Nat → UInt32) (i j : Nat) :
    compareTimes timeArr timeFlag i j = meet (gain timeArr) timeFlag i j := by
  have hboth (flag : Nat → UInt32) : (if Abnormal (timeArr i) (timeArr j) then
      increment (increment flag i) j else flag) =
        award (award flag i (if Abnormal (timeArr i) (timeArr j) then 1 else 0)) j
          (if Abnormal (timeArr i) (timeArr j) then 1 else 0) := by
    rw [← ite_increment, ← ite_increment]
    split <;> rfl
  rw [compareTimes, hboth, ite_increment, ite_increment, award_comm _ j i, award_award,
    award_award, meet, gain]

theorem flagTimes_eq_play (timeArr : Nat → UInt64) (n : Nat) (timeFlag : Nat → UInt32) :
    flagTimes timeArr n timeFlag = play (gain timeArr) n timeFlag := by
  simp only [flagTimes, play, compareTimes_eq_meet]
  rfl

theorem gain_eq (hsound : times.Sound) {own other : Option Nat} (hi : times[i]? = some own)
    (hj : times[j]? = some other) :
    gain times.timeArr i j = (UInt32.ofNat (marks own other), UInt32.ofNat (marks other own)) := by
  cases own with
  | none =>
    rw [gain, timeArr_of_offline hi]
    cases other with
    | none =>
      rw [timeArr_of_offline hj]
      rfl
    | some u =>
      have hu := hsound.of_getElem? hj
      rw [timeArr_of_online hj, if_pos rfl, if_neg (ofNat_ne_zero hu),
        if_pos (abnormal_zero_left hu)]
      rfl
  | some t =>
    have ht := hsound.of_getElem? hi
    rw [gain, timeArr_of_online hi, if_neg (ofNat_ne_zero ht)]
    cases other with
    | none =>
      rw [timeArr_of_offline hj, if_pos rfl, if_pos (abnormal_zero_right ht.2)]
      rfl
    | some u =>
      have hu := hsound.of_getElem? hj
      rw [timeArr_of_online hj, if_neg (ofNat_ne_zero hu), marks, marks, zero_add]
      by_cases hapart : Apart t u
      · rw [if_pos ((abnormal_iff ht hu).mpr hapart), if_pos hapart,
          if_pos (apart_comm.mp hapart)]
        rfl
      simp_all [abnormal_iff, apart_comm]

theorem sum_ofNat (s : Finset Nat) (f : Nat → Nat) :
    ∑ i ∈ s, UInt32.ofNat (f i) = UInt32.ofNat (∑ i ∈ s, f i) := by
  induction s using Finset.cons_induction with
  | empty => rfl
  | cons i s hi ih =>
    rw [Finset.sum_cons, Finset.sum_cons, ih, UInt32.ofNat_add]

theorem sum_range_join (times : Times) (f : Option Nat → Nat) :
    ∑ i ∈ Finset.range times.length, f (times[i]?).join = (times.map f).sum := by
  induction times with
  | nil => rfl
  | cons time times ih =>
    rw [length_cons, Finset.sum_range_succ', map_cons, sum_cons, ← ih, add_comm]
    rfl

theorem flagTimes_timeArr (hsound : times.Sound) {own : Option Nat} (hk : times[k]? = some own) :
    flagTimes times.timeArr times.length (fun _ => 0) k =
      UInt32.ofNat ((times.map (marks own)).sum - marks own own) := by
  have hlt : k < times.length := (List.getElem?_eq_some_iff.mp hk).1
  have hget {m : Nat} (hm : m < times.length) : times[m]? = some (times[m]?).join := by
    rw [List.getElem?_eq_getElem hm]
    rfl
  have hbehind : ∑ j ∈ Finset.Ico (k + 1) times.length, (gain times.timeArr k j).1 =
      UInt32.ofNat (∑ j ∈ Finset.Ico (k + 1) times.length, marks own (times[j]?).join) := by
    rw [← sum_ofNat]
    grind [Finset.sum_congr, gain_eq]
  have hbefore : ∑ i ∈ Finset.range k, (gain times.timeArr i k).2 =
      UInt32.ofNat (∑ i ∈ Finset.range k, marks own (times[i]?).join) := by
    rw [← sum_ofNat]
    grind [Finset.sum_congr, gain_eq]
  rw [flagTimes_eq_play, play_apply _ hlt, hbehind, hbefore, zero_add, ← UInt32.ofNat_add]
  congr 1
  rw [← sum_range_join, ← Finset.sum_range_add_sum_Ico _ (show k + 1 ≤ times.length from hlt),
    Finset.sum_range_succ, hk]
  change _ = _ + marks own own + _ - marks own own
  omega

theorem sum_marks_offline (times : Times) : (times.map (marks none)).sum = 2 * times.length := by
  induction times with
  | nil => rfl
  | cons time times ih =>
    rw [map_cons, sum_cons, ih, length_cons]
    change 2 + _ = _
    omega

theorem sum_marks_online (times : Times) (t : Nat) :
    (times.map (marks (some t))).sum = times.count none + times.apart t := by
  induction times with
  | nil => rfl
  | cons time times ih =>
    rw [map_cons, sum_cons, ih, apart, apart, countP_cons, count_cons]
    cases time with
    | none =>
      simp [marks]
      omega
    | some u =>
      by_cases hapart : Apart t u
      · simp [marks, hapart]
        omega
      · simp [marks, hapart]

theorem marks_self (t : Nat) : marks (some t) (some t) = 0 := by
  rw [marks, if_neg]
  rintro (h | h) <;> omega

theorem sum_marks_online_lt (hk : times[k]? = some (some t)) :
    (times.map (marks (some t))).sum < times.length := by
  have hone : ∀ other ∈ times, marks (some t) other ≤ 1 := by
    rintro (_ | u) -
    · exact le_rfl
    · rw [marks]
      split <;> omega
  have hself : marks (some t) (some t) < 1 := by
    rw [marks_self]
    exact Nat.one_pos
  calc (times.map (marks (some t))).sum < (times.map fun _ => 1).sum :=
        sum_lt_sum _ _ hone ⟨some t, mem_of_getElem? hk, hself⟩
    _ = times.length := by simp

theorem flag_online (hsound : times.Sound) (hlength : times.length ≤ dbScanMax)
    (hk : times[k]? = some (some t)) :
    (flagTimes times.timeArr times.length (fun _ => 0) k).toNat =
      times.count none + times.apart t := by
  have hlt := sum_marks_online_lt hk
  rw [dbScanMax] at hlength
  rw [flagTimes_timeArr hsound hk, marks_self, Nat.sub_zero, UInt32.toNat_ofNat_of_lt' (by
    change _ < 4294967296
    omega), sum_marks_online]

theorem flag_offline (hsound : times.Sound) (hlength : times.length ≤ dbScanMax)
    (hk : times[k]? = some none) :
    (flagTimes times.timeArr times.length (fun _ => 0) k).toNat = 2 * times.length - 2 := by
  rw [dbScanMax] at hlength
  rw [flagTimes_timeArr hsound hk, sum_marks_offline]
  change (UInt32.ofNat (2 * times.length - 2)).toNat = _
  rw [UInt32.toNat_ofNat_of_lt' (by
    change _ < 4294967296
    omega)]

theorem findNum_eq_firstLeast (timeFlag : Nat → UInt32) (n : Nat) :
    findNum timeFlag n = firstLeast (fun i => (timeFlag i).toNat) n := by
  simp only [findNum, firstLeast, gt_iff_lt, UInt32.lt_iff_toNat_lt]

theorem findNum_elected (hsound : times.Sound) (hlength : times.length ≤ dbScanMax)
    (honline : ∃ t, some t ∈ times) :
    ∃ t, times.Elected
      (findNum (flagTimes times.timeArr times.length fun _ => 0) times.length) t := by
  obtain ⟨u, hu⟩ := honline
  obtain ⟨m, hm⟩ := mem_iff_getElem?.mp hu
  have hmlt : m < times.length := (List.getElem?_eq_some_iff.mp hm).1
  obtain ⟨n, hn⟩ : ∃ n, times.length = n + 1 := ⟨times.length - 1, by omega⟩
  obtain ⟨flags, hflags⟩ : ∃ flags, flags = flagTimes times.timeArr times.length fun _ => 0 :=
    ⟨_, rfl⟩
  have hleast := firstLeast_spec (fun i => (flags i).toNat) n
  rw [← hn, ← findNum_eq_firstLeast, hflags] at hleast
  obtain ⟨k, hk⟩ : ∃ k, k = findNum (flagTimes times.timeArr times.length fun _ => 0)
    times.length := ⟨_, rfl⟩
  rw [← hk] at hleast ⊢
  obtain ⟨own, hown⟩ : ∃ own, times[k]? = some own :=
    ⟨_, List.getElem?_eq_getElem hleast.lt⟩
  have hle {m u : Nat} (hm : times[m]? = some (some u)) :=
    hleast.le m (List.getElem?_eq_some_iff.mp hm).1
  cases own with
  | none =>
    -- A user that is offline has more flags than one that is online.
    have hmarks := sum_marks_online_lt hm
    have hflag := hle hm
    rw [flag_online hsound hlength hm, flag_offline hsound hlength hown,
      ← sum_marks_online] at hflag
    grind
  | some t =>
    refine ⟨t, hown, fun m u hm => ?_, fun m u hmk hm => ?_⟩
    · have hflag := hle hm
      rw [flag_online hsound hlength hm, flag_online hsound hlength hown] at hflag
      omega
    · have hflag := hleast.before m hmk
      rw [flag_online hsound hlength hm, flag_online hsound hlength hown] at hflag
      omega

end Marks

end Times

/-- What a row of the scan of users says, and the newest log if the user is online. -/
def Logged (scan : Scan) (row : Bytes × Bytes) : Option Nat → Prop
  | none => btou8 row.2 ≠ 1
  | some t => btou8 row.2 = 1 ∧ newestLog scan (uidOf row.1) = some (UInt64.ofNat t)

section Reading

variable {scan : Scan} {users : List (Bytes × Bytes)} {times : Times}

theorem readTimes_eq (hlogged : List.Forall₂ (Logged scan) users times) {i : Nat}
    (hlength : i + users.length ≤ dbScanMax) {timeArr : Nat → UInt64}
    (hzero : ∀ m, timeArr (i + m) = 0) (onlineFlag : Bool) :
    ∃ filled, readTimes scan i users timeArr onlineFlag =
        some (some (filled, onlineFlag || times.any Option.isSome)) ∧
      (∀ m < i, filled m = timeArr m) ∧ ∀ m, filled (i + m) = times.timeArr m := by
  induction hlogged generalizing i timeArr onlineFlag with
  | nil =>
    refine ⟨timeArr, ?_, fun _ _ => rfl, hzero⟩
    rw [readTimes, any_nil, Bool.or_false]
  | @cons row time users times hrow hrows ih =>
    rw [length_cons] at hlength
    have hshift (m : Nat) : i + (m + 1) = i + 1 + m := by
      omega
    cases time with
    | none =>
      have hrest (m : Nat) : timeArr (i + 1 + m) = 0 := by
        rw [← hshift]
        exact hzero (m + 1)
      obtain ⟨filled, hfilled, hbefore, hbehind⟩ := ih (by omega) hrest onlineFlag
      refine ⟨filled, ?_, fun m hm => hbefore m (by omega), fun m => ?_⟩
      · rw [readTimes, if_neg hrow, hfilled]
        simp
      · cases m with
        | zero =>
          rw [hbefore (i + 0) (by omega), hzero 0]
          rfl
        | succ m =>
          rw [hshift, hbehind]
          rfl
    | some t =>
      obtain ⟨hstate, hlog⟩ := hrow
      have hrest (m : Nat) :
          Function.update timeArr i (UInt64.ofNat t) (i + 1 + m) = 0 := by
        rw [Function.update_of_ne (by omega), ← hshift]
        exact hzero (m + 1)
      obtain ⟨filled, hfilled, hbefore, hbehind⟩ := ih (by omega) hrest true
      refine ⟨filled, ?_, fun m hm => ?_, fun m => ?_⟩
      · rw [readTimes, if_pos hstate, hlog]
        grind
      · rw [hbefore m (by omega), Function.update_of_ne (by omega)]
      · cases m with
        | zero =>
          rw [Nat.add_zero, hbefore i (by omega), Function.update_self]
          rfl
        | succ m =>
          rw [hshift, hbehind]
          rfl

theorem syncTime_eq (tm : Int64) {t : Nat} (ht : 3600 < t ∧ t < 2 ^ 32) :
    syncTime tm (UInt64.ofNat t) =
      if (t : Int) + 30 * 24 * 3600 < tm.toInt ∨ tm.toInt < t - 3600 then some (UInt32.ofNat t)
      else none := by
  have hhour : (3600 : UInt64) ≤ UInt64.ofNat t := by
    rw [UInt64.le_iff_toNat_le, Times.toNat_time ht.2]
    exact ht.1.le
  have hearly : tm.toUInt64 > UInt64.ofNat t + 30 * 24 * 3600 ↔
      t + 2592000 < tm.toUInt64.toNat := by
    rw [gt_iff_lt, UInt64.lt_iff_toNat_lt, UInt64.toNat_add, Times.toNat_time ht.2]
    change (t + 2592000) % 2 ^ 64 < _ ↔ _
    rw [Nat.mod_eq_of_lt (by omega)]
  have hlate : tm.toUInt64 < UInt64.ofNat t - 3600 ↔ tm.toUInt64.toNat < t - 3600 := by
    rw [UInt64.lt_iff_toNat_lt, UInt64.toNat_sub_of_le _ _ hhour, Times.toNat_time ht.2]
    rfl
  have hsigned : tm.toInt = if 2 * tm.toUInt64.toNat < 2 ^ 64 then (tm.toUInt64.toNat : Int)
      else (tm.toUInt64.toNat : Int) - (2 ^ 64 : Nat) :=
    BitVec.toInt_eq_toNat_cond tm.toBitVec
  have hlt := UInt64.toNat_lt tm.toUInt64
  rw [syncTime, UInt64.toUInt32_ofNat']
  simp only [hearly, hlate]
  split_ifs <;> first | rfl | omega

end Reading

/-- With all scans answered, the user found is the first one online that differs from as few
others as possible, and the clock is set to that user's time just when it is more than 30 days
ahead or more than an hour behind. -/
theorem wwTimeInit_elects (tm : Int64) (scan : Scan) (users : List (Bytes × Bytes))
    (times : Times) (hscan : scan preUserStat preUserStat.length preUserStatSe
      preUserStatSe.length dbScanMax = some users)
    (hlogged : List.Forall₂ (Logged scan) users times) (hlength : users.length ≤ dbScanMax)
    (hsound : times.Sound) (honline : ∃ t, some t ∈ times) :
    ∃ k t, times.Elected k t ∧ electTime scan = some (some (k, UInt64.ofNat t)) ∧
      wwTimeInit tm scan = some (if (t : Int) + 30 * 24 * 3600 < tm.toInt ∨ tm.toInt < t - 3600
        then some (UInt32.ofNat t) else none) := by
  have hsame : users.length = times.length := hlogged.length_eq
  obtain ⟨t, helected⟩ := Times.findNum_elected hsound (hsame ▸ hlength) honline
  obtain ⟨filled, hread, -, hfilled⟩ := @readTimes_eq scan users times hlogged 0
    (by omega) (fun _ => 0) (fun _ => rfl) false
  obtain rfl : filled = times.timeArr := by
    funext m
    rw [← hfilled, Nat.zero_add]
  have hany : times.any Option.isSome = true := by
    obtain ⟨u, hu⟩ := honline
    exact any_eq_true.mpr ⟨some u, hu, rfl⟩
  have hpos : users.length ≠ 0 := by
    obtain ⟨u, hu⟩ := honline
    rw [hsame]
    exact (length_pos_of_mem hu).ne'
  have helect : electTime scan =
      some (some (findNum (flagTimes times.timeArr times.length fun _ => 0) times.length,
        UInt64.ofNat t)) := by
    rw [electTime, hscan]
    simp only [if_neg hpos, hread, hany, Bool.false_or, Bool.true_eq_false, if_false]
    rw [if_neg (by omega), hsame, Times.timeArr_of_online helected.online]
  refine ⟨_, t, helected, helect, ?_⟩
  rw [wwTimeInit, helect, ← syncTime_eq tm (hsound.of_getElem? helected.online),
    Option.map_some, Option.bind_some]

namespace ElectionWitness

/-- A user that is offline and two that are online. -/
def users : List (Bytes × Bytes) :=
  [(ascii "stus-10001", [0]), (ascii "stus-10002", [1]), (ascii "stus-10003", [1])]

/-- The logs of the two, a day apart. -/
def scan : Scan := fun start _ _ _ _ =>
  if start = preUserStat then some users
  else if start = ascii "dyua-10002-" then some [(ascii "dyua-10002-2794967295-1", [])]
  else some [(ascii "dyua-10003-2794880895-1", [])]

def times : Times := [none, some 1500000000, some 1500086400]

theorem users_logged : List.Forall₂ (Logged scan) users times := by
  have hoffline : btou8 [0] ≠ 1 := by
    decide
  refine .cons hoffline (.cons ⟨?_, ?_⟩ (.cons ⟨?_, ?_⟩ .nil)) <;> decide +kernel

/-- The second user is elected, whose time the clock gets after a reset to 1970. -/
theorem wwTimeInit_reset : ∃ k t, times.Elected k t ∧
    electTime scan = some (some (k, UInt64.ofNat t)) ∧
    wwTimeInit 0 scan = some (if (t : Int) + 30 * 24 * 3600 < (0 : Int64).toInt ∨
      (0 : Int64).toInt < t - 3600 then some (UInt32.ofNat t) else none) :=
  wwTimeInit_elects 0 scan users times (if_pos rfl) users_logged (by decide)
    (by simp [Times.Sound, times]) ⟨1500000000, by decide⟩

end ElectionWitness

end Clock

end WaterWall
