/-
`an_auto_data_save` of auto_data_save.c: once a day the four saves are run and the raw logs
of the day before are deleted; in between, the lists are updated and saved.  Two of the saves
end the process if they fail, the results of the other two are not looked at.
-/
import WaterWall.ChatSave

namespace WaterWall

open ByteText GrowingBlock List

/-- The calls that `an_auto_data_save` makes. -/
inductive SaveCall where
  | timeInit
  | saveAllUserCalcAct
  | saveAllGroupCalcAct
  | saveAllUserDetailAct
  | saveAllUserQqMsg
  | delAllDynamicData (gmt : UInt64)
  | delAllAnalyzerData (gmt : UInt64)
  | userActionClear
  | userActionGroupClear
  | detailUserClear
  | qqUserClear
  | addOrInitCalcBehavior
  | addOrInitDetailBehavior
  | addOrInitQqMsg (init : Bool)
  | initMonthActionJs
  | initHighActionJs
  | detailActListInit
  deriving DecidableEq

/-- `tm` and what `an_gmt_to_time` makes of it. -/
structure SaveClock where
  tm : Nat
  day : Nat
  hour : Nat
  min : Nat
  sec : Nat

def SaveClock.midnight (clock : SaveClock) : Nat :=
  clock.tm - clock.hour * 3600 - clock.min * 60 - clock.sec

/-- An `an_auto_data_save_st`, without its timer. -/
structure DataSave where
  mday : Nat
  dayTime : Nat
  deriving DecidableEq

/-- The first call notes the day. -/
def DataSave.noted (clock : SaveClock) (save : DataSave) : DataSave :=
  if save.dayTime = 0 then ⟨clock.day, clock.midnight⟩ else save

/-- `hour >= 3 && data_save->mday != day && tm > data_save->day_time`. -/
def DayOver (clock : SaveClock) (save : DataSave) : Prop :=
  3 ≤ clock.hour ∧ (save.noted clock).mday ≠ clock.day ∧ (save.noted clock).dayTime < clock.tm

instance (clock : SaveClock) (save : DataSave) : Decidable (DayOver clock save) :=
  inferInstanceAs (Decidable (_ ∧ _))

/-- The calls up to the last save; a call that is marked ends the process if it fails. -/
def saveCalls : List (SaveCall × Bool) :=
  [(.timeInit, false), (.saveAllUserCalcAct, true), (.saveAllGroupCalcAct, true),
    (.saveAllUserDetailAct, false), (.saveAllUserQqMsg, false)]

/-- The calls behind the deletion of the raw logs. -/
def freshDayCalls (clock : SaveClock) : List (SaveCall × Bool) :=
  [(.delAllAnalyzerData (.ofNat clock.midnight - 180 * 24 * 3600), false),
    (.userActionClear, false), (.userActionGroupClear, false), (.detailUserClear, false),
    (.qqUserClear, false), (.addOrInitCalcBehavior, false), (.addOrInitDetailBehavior, false),
    (.addOrInitQqMsg true, false), (.initMonthActionJs, true), (.initHighActionJs, true),
    (.detailActListInit, true)]

/-- The update every ten minutes. -/
def updateCalls : List (SaveCall × Bool) :=
  [(.timeInit, false), (.addOrInitCalcBehavior, false), (.addOrInitDetailBehavior, false),
    (.saveAllUserDetailAct, false), (.addOrInitQqMsg false, false), (.saveAllUserQqMsg, false)]

def autoCalls (clock : SaveClock) (save : DataSave) : List (SaveCall × Bool) :=
  if DayOver clock save then
    saveCalls ++ (.delAllDynamicData (.ofNat clock.midnight), false) :: freshDayCalls clock
  else updateCalls

/-- A call with what it returned, if it did. -/
abbrev CallLog := List (SaveCall × Option Int)

section Calls

variable {W : Type} (perform : SaveCall → W → Option (Int × W))

/-- The calls one after the other, with the state behind them if the process is still
there. -/
def callAll : List (SaveCall × Bool) → W → CallLog × Option W
  | [], world => ([], some world)
  | (call, checked) :: calls, world =>
    match perform call world with
    | none => ([(call, none)], none)
    | some (ret, next) =>
      if checked ∧ ret ≠ 0 then ([(call, some ret)], none)
      else ((call, some ret) :: (callAll calls next).1, (callAll calls next).2)

/-- What an execution called, and what it leaves if it returns WW_LOCAL_ACTION. -/
structure AutoRun (W : Type) where
  log : CallLog
  left : Option (DataSave × W)

/-- `an_auto_data_save`. -/
def anAutoDataSave (clock : SaveClock) (save : DataSave) (world : W) : AutoRun W where
  log := (callAll perform (autoCalls clock save) world).1
  left := (callAll perform (autoCalls clock save) world).2.map fun next =>
    (if DayOver clock save then ⟨clock.day, clock.midnight⟩ else save.noted clock, next)

/-- What the four saves return if they are called one after the other. -/
def fourSaves (world : W) : Option (Int × Int × Int × Int) := do
  let (_, world) ← perform .timeInit world
  let (user, world) ← perform .saveAllUserCalcAct world
  let (group, world) ← perform .saveAllGroupCalcAct world
  let (detail, world) ← perform .saveAllUserDetailAct world
  let (qq, _) ← perform .saveAllUserQqMsg world
  return (user, group, detail, qq)

/-- The raw logs are deleted only behind four saves that returned 0. -/
def DeletesAfterSuccess (log : CallLog) : Prop :=
  ∀ front gmt ret back, log = front ++ (.delAllDynamicData gmt, ret) :: back →
    (SaveCall.saveAllUserCalcAct, some 0) ∈ front ∧
      (SaveCall.saveAllGroupCalcAct, some 0) ∈ front ∧
      (SaveCall.saveAllUserDetailAct, some 0) ∈ front ∧
      (SaveCall.saveAllUserQqMsg, some 0) ∈ front

/-- The deletion of the raw logs is not among some calls. -/
def KeepsLogs (log : CallLog) : Prop :=
  ∀ entry ∈ log, ∀ gmt, entry.1 ≠ .delAllDynamicData gmt

variable {perform} {world : W}

theorem callAll_append (calls others : List (SaveCall × Bool)) :
    callAll perform (calls ++ others) world =
      match callAll perform calls world with
      | (log, none) => (log, none)
      | (log, some next) =>
        (log ++ (callAll perform others next).1, (callAll perform others next).2) := by
  induction calls generalizing world with
  | nil => rfl
  | cons entry calls ih =>
    obtain ⟨call, checked⟩ := entry
    rw [cons_append, callAll, callAll]
    cases perform call world with
    | none => rfl
    | some result =>
      obtain ⟨ret, next⟩ := result
      by_cases hfailed : checked = true ∧ ret ≠ 0
      · simp only [if_pos hfailed]
      · simp only [if_neg hfailed, ih]
        rcases callAll perform calls next with ⟨log, _ | middle⟩
        · rfl
        · rfl

theorem callAll_mem {calls : List (SaveCall × Bool)} {entry : SaveCall × Option Int}
    (hentry : entry ∈ (callAll perform calls world).1) : entry.1 ∈ calls.map Prod.fst := by
  induction calls generalizing world with
  | nil => exact absurd hentry not_mem_nil
  | cons first calls ih =>
    grind [callAll.eq_2]

theorem keepsLogs_of_calls {calls : List (SaveCall × Bool)}
    (hcalls : ∀ gmt, SaveCall.delAllDynamicData gmt ∉ calls.map Prod.fst) :
    KeepsLogs (callAll perform calls world).1 := by
  intro entry hentry gmt hdelete
  exact hcalls gmt (hdelete ▸ callAll_mem hentry)

theorem KeepsLogs.deletesAfterSuccess {log : CallLog} (hkeeps : KeepsLogs log) :
    DeletesAfterSuccess log := by
  rintro front gmt ret back rfl
  exact absurd rfl (hkeeps _ (mem_append_right _ mem_cons_self) gmt)

theorem deletesAfterSuccess_split {front back : CallLog} {gmt : UInt64} {ret : Option Int}
    (hfront : KeepsLogs front) :
    DeletesAfterSuccess (front ++ (.delAllDynamicData gmt, ret) :: back) ↔
      (SaveCall.saveAllUserCalcAct, some 0) ∈ front ∧
        (SaveCall.saveAllGroupCalcAct, some 0) ∈ front ∧
        (SaveCall.saveAllUserDetailAct, some 0) ∈ front ∧
        (SaveCall.saveAllUserQqMsg, some 0) ∈ front := by
  constructor
  · intro hdeletes
    exact hdeletes front gmt ret back rfl
  · intro hsaved other otherGmt otherRet rest hsplit
    rcases append_eq_append_iff.mp hsplit with
      ⟨middle, rfl, hmiddle⟩ | ⟨middle, rfl, hmiddle⟩
    · -- the other deletion stands behind, or is this one
      grind
    · cases middle with
      | nil =>
        rw [append_nil] at hsaved
        exact hsaved
      | cons entry middle =>
        obtain ⟨rfl, _⟩ := cons_eq_cons.mp hmiddle
        exact absurd rfl (hfront _ (mem_append_right _ mem_cons_self) otherGmt)

theorem callAll_cons_reached {call : SaveCall} {checked : Bool}
    {calls : List (SaveCall × Bool)} {log : CallLog} {next : W}
    (hreached : callAll perform ((call, checked) :: calls) world = (log, some next)) :
    ∃ ret middle rest, perform call world = some (ret, middle) ∧ (checked = true → ret = 0) ∧
      callAll perform calls middle = (rest, some next) ∧ log = (call, some ret) :: rest := by
  rw [callAll] at hreached
  cases hcall : perform call world with
  | none =>
    rw [hcall] at hreached
    cases hreached
  | some result =>
    obtain ⟨ret, middle⟩ := result
    simp only [hcall] at hreached
    split at hreached
    case isTrue => cases hreached
    case isFalse hpassed =>
      obtain ⟨hlog, hnext⟩ := Prod.mk.inj hreached
      refine ⟨ret, middle, (callAll perform calls middle).1, rfl, ?_, ?_, hlog.symm⟩
      · intro hchecked
        by_contra hret
        exact hpassed ⟨hchecked, hret⟩
      · rw [← hnext]

theorem saveCalls_reached {front : CallLog} {next : W}
    (hreached : callAll perform saveCalls world = (front, some next)) :
    ∃ init detail qq, front = [(.timeInit, some init), (.saveAllUserCalcAct, some 0),
        (.saveAllGroupCalcAct, some 0), (.saveAllUserDetailAct, some detail),
        (.saveAllUserQqMsg, some qq)] ∧
      fourSaves perform world = some (0, 0, detail, qq) := by
  rw [saveCalls] at hreached
  obtain ⟨init, first, _, hinit, _, hpastInit, rfl⟩ := callAll_cons_reached hreached
  obtain ⟨user, second, _, huser, huserZero, hpastUser, rfl⟩ := callAll_cons_reached hpastInit
  obtain rfl := huserZero rfl
  obtain ⟨group, third, _, hgroup, hgroupZero, hpastGroup, rfl⟩ :=
    callAll_cons_reached hpastUser
  obtain rfl := hgroupZero rfl
  obtain ⟨detail, fourth, _, hdetail, _, hpastDetail, rfl⟩ := callAll_cons_reached hpastGroup
  obtain ⟨qq, fifth, _, hqq, _, hpastQq, rfl⟩ := callAll_cons_reached hpastDetail
  cases hpastQq
  simp_all [fourSaves]

theorem saveCalls_stopped {front : CallLog}
    (hstopped : callAll perform saveCalls world = (front, none)) (detail qq : Int) :
    fourSaves perform world ≠ some (0, 0, detail, qq) := by
  intro hfour
  simp only [fourSaves, Option.bind_eq_bind, Option.bind_eq_some_iff] at hfour
  obtain ⟨⟨init, first⟩, hinit, ⟨user, second⟩, huser, ⟨group, third⟩, hgroup,
    ⟨detailRet, fourth⟩, hdetail, ⟨qqRet, fifth⟩, hqq, hresult⟩ := hfour
  cases hresult
  simp [saveCalls, callAll, hinit, huser, hgroup, hdetail, hqq] at hstopped

end Calls

/-- The raw logs are deleted only behind four successful saves, exactly if at the end of a day
on which the first two succeed the other two do. -/
theorem autoSave_deletesAfterSuccess_iff {W : Type} (perform : SaveCall → W → Option (Int × W))
    (clock : SaveClock) (save : DataSave) (world : W) :
    DeletesAfterSuccess (anAutoDataSave perform clock save world).log ↔
      (DayOver clock save → ∀ detail qq, fourSaves perform world = some (0, 0, detail, qq) →
        detail = 0 ∧ qq = 0) := by
  rw [anAutoDataSave, autoCalls]
  by_cases hover : DayOver clock save
  · rw [if_pos hover, callAll_append]
    have hfront : KeepsLogs (callAll perform saveCalls world).1 :=
      keepsLogs_of_calls (by simp [saveCalls])
    rcases hsaves : callAll perform saveCalls world with ⟨front, _ | next⟩
    · rw [hsaves] at hfront
      have hfour := saveCalls_stopped hsaves
      simp_all [KeepsLogs.deletesAfterSuccess]
    · rw [hsaves] at hfront
      obtain ⟨init, detail, qq, rfl, hfour⟩ := saveCalls_reached hsaves
      have hiff : ∀ ret back, DeletesAfterSuccess ([(.timeInit, some init),
          (.saveAllUserCalcAct, some 0), (.saveAllGroupCalcAct, some 0),
          (.saveAllUserDetailAct, some detail), (.saveAllUserQqMsg, some qq)] ++
            (.delAllDynamicData (.ofNat clock.midnight), ret) :: back) ↔
              detail = 0 ∧ qq = 0 := by
        intro ret back
        rw [deletesAfterSuccess_split hfront]
        simp [eq_comm]
      grind [callAll]
  simp_all [KeepsLogs.deletesAfterSuccess, keepsLogs_of_calls, updateCalls]

theorem userAction_noNul : (0 : Byte) ∉ ascii "dyua-" := by decide

/-- PRE_USER_ACTION. -/
def userActionPre : CString := ⟨ascii "dyua-", userAction_noNul⟩

/-- PRE_USER_QQ_MESSAGE. -/
def userQqMessagePre : CString := ⟨ascii "dyuq-", by decide⟩

/-- `ww_del_all_dynamic_data`, for the ids of the users. -/
def wwDelAllDynamicData (gmt : UInt64) (users : List UInt32) : List CleanUp :=
  users.flatMap fun uid =>
    [.userDbDataByGmtUid (reversedGmt gmt) uid userActionPre,
      .userDbDataByGmtUid (reversedGmt gmt) uid userQqMessagePre]

/-- The lists that are saved, the ids of the users, and the deletes that were called. -/
structure AnalyzerLists where
  detailUsers : List DetailUser
  qqUsers : List QqUser
  users : List UInt32
  deleted : List CleanUp

/-- The calls on the lists; what the others return is given. -/
def performOn (detailEnv : DetailEnv) (chatEnv : ChatEnv) (others : SaveCall → Int) :
    SaveCall → AnalyzerLists → Option (Int × AnalyzerLists)
  | .saveAllUserDetailAct, lists =>
    match wwSaveAllUserDetailActToDb detailEnv lists.detailUsers with
    | .ok (ret, detailUsers, _) => some (ret, { lists with detailUsers := detailUsers })
    | .error _ => none
  | .saveAllUserQqMsg, lists =>
    match wwSaveAllUserQqMsgToDb chatEnv lists.qqUsers with
    | .ok (ret, qqUsers, _) => some (ret, { lists with qqUsers := qqUsers })
    | .error _ => none
  | .delAllDynamicData gmt, lists =>
    some (0, { lists with deleted := lists.deleted ++ wwDelAllDynamicData gmt lists.users })
  | .detailUserClear, lists => some (0, { lists with detailUsers := [] })
  | .qqUserClear, lists => some (0, { lists with qqUsers := [] })
  | call, lists => some (others call, lists)

namespace AutoSaveWitness

/-- There is no memory for the detail save. -/
def exhausted : DetailEnv := { DetailSaveWitness.calm with allocated := false }

/-- One user with two actions of an hour that is over. -/
def lists : AnalyzerLists := ⟨[DetailSaveWitness.quiet], [], [1], []⟩

/-- Four in the morning of the third day. -/
def morning : SaveClock := ⟨187200, 3, 4, 0, 0⟩

def yesterday : DataSave := ⟨2, 86400⟩

/-- The actions are not saved, and the raw logs are deleted. -/
theorem not_deletesAfterSuccess_exhausted :
    (SaveCall.saveAllUserDetailAct, some (-1)) ∈
      (anAutoDataSave (performOn exhausted ChatSaveWitness.calm fun _ => 0) morning yesterday
        lists).log ∧
    ¬DeletesAfterSuccess
      (anAutoDataSave (performOn exhausted ChatSaveWitness.calm fun _ => 0) morning yesterday
        lists).log := by
  have hlog : (anAutoDataSave (performOn exhausted ChatSaveWitness.calm fun _ => 0) morning
      yesterday lists).log = [(.timeInit, some 0), (.saveAllUserCalcAct, some 0),
        (.saveAllGroupCalcAct, some 0), (.saveAllUserDetailAct, some (-1)),
        (.saveAllUserQqMsg, some 0)] ++ (.delAllDynamicData 172800, some 0) ::
          (freshDayCalls morning).map fun entry => (entry.1, some 0) := by
    rfl
  rw [hlog]
  refine ⟨mem_append_left _ (by decide), ?_⟩
  intro hdeletes
  have hdetail := (hdeletes _ _ _ _ rfl).2.2.1
  exact absurd hdetail (by decide)

end AutoSaveWitness

end WaterWall
