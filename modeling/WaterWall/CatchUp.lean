/-
The catch-up of daily statistics in auto_data_save.c: `ww_user_calc_action_save_check`
saves the day before for the users who miss it, `ww_usergroup_calc_action_save_check` then
saves what the groups miss.  Times run backwards: a later day has a smaller number.  The
two only meet in the times that the database keeps for the users and the groups.
-/
import Mathlib

namespace WaterWall

open List Option

/-- `24*3600`. -/
def oneDay : Nat := 86400

/-- The rows under PRE_USERGROUP_CALC_ACTTIME and PRE_USER_CALC_ACTTIME. -/
structure SaveTimes where
  group : Int → Option Nat
  user : Nat → Option Nat

/-- A call of `resave_user_calc_action` or `resave_usergroup_calc_action`. -/
inductive Resave where
  | user (uid : Nat) (gid : Int) (day : Nat)
  | group (gid : Int) (day : Nat)
  deriving DecidableEq, Repr

structure CatchUp where
  times : SaveTimes
  calls : List Resave

/-- Which reads and which resaves succeed, after the resaves so far. -/
structure Outcomes where
  readGroup : List Resave → Int → Bool
  readUser : List Resave → Nat → Bool
  resave : List Resave → Resave → Bool

/-- `resave_usergroup_calc_action`, as far as times go: `ww_save_group_calc_act_to_db`
sets the time of the group to the day. -/
def resaveUsergroupTimes (env : Outcomes) (gid : Int) (day : Nat) (state : CatchUp) :
    Option CatchUp :=
  if env.resave state.calls (.group gid day) then
    some ⟨⟨Function.update state.times.group gid (some day), state.times.user⟩,
      state.calls ++ [.group gid day]⟩
  else none

/-- What `ww_save_user_calc_act_to_db` makes of a group's time: the group is to do the day
again. -/
def pushedTime (stored : Option Nat) (day : Nat) : Nat :=
  if stored.getD 0 ≤ day then (day + oneDay) % 2 ^ 64 else stored.getD 0

def saveUserTimes (times : SaveTimes) (uid : Nat) (gid : Int) (day : Nat) : SaveTimes where
  group := Function.update
    (Function.update times.group gid (some (pushedTime (times.group gid) day)))
    0 (some (pushedTime (times.group 0) day))
  user := Function.update times.user uid (some day)

/-- `resave_user_calc_action`, as far as times go. -/
def resaveUserTimes (env : Outcomes) (uid : Nat) (gid : Int) (day : Nat)
    (state : CatchUp) : Option CatchUp :=
  if env.resave state.calls (.user uid gid day) then
    some ⟨saveUserTimes state.times uid gid day, state.calls ++ [.user uid gid day]⟩
  else none

/-- `while(histroy_u64 - today_time > 24*3600)`; the first argument bounds the rounds. -/
def catchUpLoop (resave : Nat → CatchUp → Option CatchUp) (today : Nat) :
    Nat → Nat → CatchUp → Option (Nat × CatchUp)
  | 0, history, state => some (history, state)
  | fuel + 1, history, state =>
    if oneDay < history - today then do
      let state ← resave (history - oneDay) state
      catchUpLoop resave today fuel (history - oneDay) state
    else some (history, state)

/-- Where the loop starts; without a stored time with what `histroy_u64` was before. -/
def startTime (today : Nat) (stored : Option Nat) (history : Nat) : Nat :=
  if stored.getD history ≤ today then (today + 2 * oneDay) % 2 ^ 64 else stored.getD history

/-- The body of the loop over the groups, with `histroy_u64`. -/
def groupCheck (env : Outcomes) (today : Nat) (checked : Nat × CatchUp) (gid : Int) :
    Option (Nat × CatchUp) :=
  let (history, state) := checked
  if env.readGroup state.calls gid then
    let history := startTime today (state.times.group gid) history
    if today < history then
      catchUpLoop (resaveUsergroupTimes env gid) today history history state
    else some (history, state)
  else none

/-- `ww_usergroup_calc_action_save_check`; a failure is `none`. -/
def usergroupCalcActionSaveCheck (env : Outcomes) (today : Nat) (groups : List Int)
    (state : CatchUp) : Option CatchUp := do
  let checked ← groups.foldlM (groupCheck env today) (0, state)
  let checked ← groupCheck env today checked 0
  return checked.2

/-- The body of the loop over the users. -/
def userCheck (env : Outcomes) (today : Nat) (state : CatchUp) (user : Nat × Int) :
    Option CatchUp :=
  if env.readUser state.calls user.1 then
    let yesterday := (today + 2 * oneDay) % 2 ^ 64
    let history := (state.times.user user.1).getD yesterday
    if (today + oneDay) % 2 ^ 64 < history then
      (catchUpLoop (resaveUserTimes env user.1 user.2) today yesterday yesterday state).map
        Prod.snd
    else if history < today then
      (catchUpLoop (resaveUserTimes env user.1 user.2) today yesterday yesterday state).map
        Prod.snd
    else some state
  else none

/-- `time(NULL)` and the seconds since midnight. -/
structure WallClock where
  now : Nat
  secondOfDay : Nat
  isU32 : now < 2 ^ 32
  sinceMidnight : secondOfDay ≤ now

/-- Midnight, backwards. -/
def WallClock.today (clock : WallClock) : Nat :=
  0xffffffff - (clock.now - clock.secondOfDay)

/-- `ww_user_calc_action_save_check` on the users that the scan returns. -/
def userCalcActionSaveCheck (env : Outcomes) (clock : WallClock) (users : List (Nat × Int))
    (groups : List Int) (state : CatchUp) : Option CatchUp := do
  let state ← users.foldlM (userCheck env clock.today) state
  usergroupCalcActionSaveCheck env clock.today groups state

/-- The days that a loop from a time on goes through. -/
def owedDays (today history : Nat) : List Nat :=
  (List.range ((history - today - 1) / oneDay)).map fun round => history - oneDay * (round + 1)

/-- The time that is left. -/
def leftTime (today history : Nat) : Nat :=
  history - oneDay * ((history - today - 1) / oneDay)

/-- What a group with this time owes by itself. -/
def ownDays (today : Nat) (stored : Option Nat) : List Nat :=
  owedDays today (startTime today stored 0)

section Days

variable {today history : Nat}

theorem owedDays_step (hmore : oneDay < history - today) :
    owedDays today history = (history - oneDay) :: owedDays today (history - oneDay) := by
  have hrounds : (history - today - 1) / oneDay =
      (history - oneDay - today - 1) / oneDay + 1 := by
    simp only [oneDay] at *
    omega
  rw [owedDays, owedDays, hrounds, List.range_succ_eq_map, List.map_cons, List.map_map,
    Nat.zero_add, Nat.mul_one]
  refine congrArg (List.cons (history - oneDay)) (map_congr_left ?_)
  grind

theorem leftTime_step (hmore : oneDay < history - today) :
    leftTime today (history - oneDay) = leftTime today history := by
  simp only [leftTime, oneDay] at *
  omega

theorem rounds_eq_zero (hdone : history ≤ today + oneDay) :
    (history - today - 1) / oneDay = 0 := by
  simp only [oneDay] at *
  omega

theorem owedDays_eq_nil (hdone : history ≤ today + oneDay) : owedDays today history = [] := by
  rw [owedDays, rounds_eq_zero hdone]
  rfl

theorem leftTime_eq_self (hdone : history ≤ today + oneDay) :
    leftTime today history = history := by
  rw [leftTime, rounds_eq_zero hdone]
  exact Nat.sub_zero _

theorem leftTime_of_nil (hnil : owedDays today history = []) :
    leftTime today history = history := by
  rw [owedDays, map_eq_nil_iff, range_eq_nil] at hnil
  rw [leftTime, hnil]
  exact Nat.sub_zero _

theorem leftTime_bounds (hlate : today < history) :
    today < leftTime today history ∧ leftTime today history ≤ today + oneDay := by
  simp only [leftTime, oneDay]
  omega

theorem startTime_late (hroom : today + 2 * oneDay < 2 ^ 64) (stored : Option Nat) :
    today < startTime today stored history := by
  rw [startTime]
  split
  · rw [Nat.mod_eq_of_lt hroom]
    simp only [oneDay]
    omega
  · omega

/-- A time that is a whole number of days before yesterday: the loop ends with
yesterday. -/
theorem count_owedDays (holder : today + oneDay < history)
    (haligned : history % oneDay = today % oneDay) :
    (owedDays today history).count (today + oneDay) = 1 := by
  have hnodup : (owedDays today history).Nodup := by
    refine (List.nodup_range.map_on ?_)
    grind [oneDay]
  apply count_eq_one_of_mem hnodup
  rw [owedDays, List.mem_map]
  refine ⟨(history - today - 1) / oneDay - 1, ?_, ?_⟩
  · rw [mem_range]
    simp only [oneDay] at *
    omega
  · simp only [oneDay] at *
    omega

theorem startTime_none (hroom : today + 2 * oneDay < 2 ^ 64) :
    startTime today none 0 = today + 2 * oneDay := by
  rw [startTime, getD_none, if_pos (Nat.zero_le _), Nat.mod_eq_of_lt hroom]

theorem stored_of_startTime (hroom : today + 2 * oneDay < 2 ^ 64) {stored : Option Nat}
    (hhigh : startTime today stored 0 ≤ today + oneDay) :
    stored = some (startTime today stored 0) := by
  have hfar : ¬today + 2 * oneDay ≤ today + oneDay := by
    simp only [oneDay]
    omega
  cases stored with
  | none =>
    rw [startTime_none hroom] at hhigh
    exact absurd hhigh hfar
  | some time =>
    rw [startTime, getD_some] at hhigh ⊢
    grind

theorem startTime_some (stored history : Nat) :
    startTime today (some stored) history = startTime today (some stored) 0 :=
  rfl

theorem count_ownDays_none (hroom : today + 2 * oneDay < 2 ^ 64) :
    (ownDays today none).count (today + oneDay) = 1 := by
  rw [ownDays, startTime_none hroom]
  apply count_owedDays
  · simp only [oneDay]
    omega
  · simp only [oneDay]
    omega

end Days

section Groups

variable {env : Outcomes} {today : Nat} {gid other : Int}

/-- The group has been called for the days, and its time follows them. -/
structure Caught (gid : Int) (days : List Nat) (left : Nat) (state next : CatchUp) : Prop where
  calls : next.calls = state.calls ++ days.map (.group gid)
  others : ∀ other, other ≠ gid → next.times.group other = state.times.group other
  own : next.times.group gid = if days = [] then state.times.group gid else some left

theorem catchUpLoop_caught {fuel history left : Nat} {state next : CatchUp} (hfuel : history ≤ fuel)
    (hloop : catchUpLoop (resaveUsergroupTimes env gid) today fuel history state =
      some (left, next)) :
    left = leftTime today history ∧ Caught gid (owedDays today history) left state next := by
  have hstop : ∀ {history : Nat} {state : CatchUp}, history ≤ today + oneDay →
      history = leftTime today history ∧
        Caught gid (owedDays today history) history state state := by
    intro history state hdone
    rw [owedDays_eq_nil hdone]
    exact ⟨(leftTime_eq_self hdone).symm, (append_nil _).symm, fun _ _ => rfl, rfl⟩
  induction fuel generalizing history state with
  | zero =>
    cases hloop
    exact hstop (by omega)
  | succ fuel ih =>
    rw [catchUpLoop] at hloop
    by_cases hmore : oneDay < history - today
    · rw [if_pos hmore, resaveUsergroupTimes] at hloop
      split at hloop
      · have hless : history - oneDay ≤ fuel := by
          simp only [oneDay] at *
          omega
        obtain ⟨hleft, hcaught⟩ := ih hless hloop
        rw [leftTime_step hmore] at hleft
        refine ⟨hleft, ?_⟩
        rw [owedDays_step hmore]
        constructor
        · rw [hcaught.calls, map_cons, append_assoc, singleton_append]
        · intro other hother
          rw [hcaught.others other hother]
          exact Function.update_of_ne hother _ _
        · rw [hcaught.own, if_neg (cons_ne_nil _ _)]
          split
          · grind [leftTime_of_nil]
          · rfl
      · cases hloop
    · rw [if_neg hmore] at hloop
      cases hloop
      exact hstop (by omega)

theorem groupCheck_caught (hroom : today + 2 * oneDay < 2 ^ 64) {history left : Nat}
    {state next : CatchUp}
    (hcheck : groupCheck env today (history, state) gid = some (left, next)) :
    (today < left ∧ left ≤ today + oneDay) ∧
      left = leftTime today (startTime today (state.times.group gid) history) ∧
      Caught gid (owedDays today (startTime today (state.times.group gid) history)) left
        state next := by
  have hlate := @startTime_late today history hroom (state.times.group gid)
  rw [groupCheck] at hcheck
  split at hcheck
  · simp only [if_pos hlate] at hcheck
    obtain ⟨hleft, hcaught⟩ := catchUpLoop_caught le_rfl hcheck
    have hbounds := leftTime_bounds hlate
    rw [← hleft] at hbounds
    exact ⟨hbounds, hleft, hcaught⟩
  · cases hcheck

theorem Caught.count_self {days : List Nat} {left : Nat} {state next : CatchUp}
    (hcaught : Caught gid days left state next) (day : Nat) :
    next.calls.count (.group gid day) = state.calls.count (.group gid day) + days.count day := by
  have hinj : Function.Injective (Resave.group gid) := by
    intro left right hsame
    cases hsame
    rfl
  rw [hcaught.calls, count_append, count_map_of_injective _ _ hinj]

theorem Caught.count_other {days : List Nat} {left : Nat} {state next : CatchUp}
    (hcaught : Caught gid days left state next) (hother : other ≠ gid) (day : Nat) :
    next.calls.count (.group other day) = state.calls.count (.group other day) := by
  have hnone : (days.map (Resave.group gid)).count (.group other day) = 0 := by
    rw [List.count_eq_zero, List.mem_map]
    rintro ⟨called, _, hsame⟩
    cases hsame
    exact hother rfl
  rw [hcaught.calls, count_append, hnone, Nat.add_zero]

/-- Nothing is left to do for a group. -/
def Settled (today : Nat) (gid : Int) (state : CatchUp) : Prop :=
  ∃ time, state.times.group gid = some time ∧ today < time ∧ time ≤ today + oneDay

theorem Settled.check (hroom : today + 2 * oneDay < 2 ^ 64) {checked : Nat × CatchUp}
    {result : Nat × CatchUp} (hsettled : Settled today gid checked.2)
    (hcheck : groupCheck env today checked other = some result) :
    Settled today gid result.2 ∧
      ∀ day, result.2.calls.count (.group gid day) = checked.2.calls.count (.group gid day) := by
  obtain ⟨time, htime, hlow, hhigh⟩ := hsettled
  obtain ⟨_, _, hcaught⟩ := groupCheck_caught hroom hcheck
  by_cases hsame : gid = other
  · subst hsame
    have hstart : startTime today (checked.2.times.group gid) checked.1 = time := by
      rw [htime, startTime, getD_some, if_neg (not_le.mpr hlow)]
    rw [hstart, owedDays_eq_nil hhigh] at hcaught
    refine ⟨⟨time, ?_, hlow, hhigh⟩, ?_⟩
    · rw [hcaught.own, if_pos rfl, htime]
    · intro day
      exact hcaught.count_self day
  · refine ⟨⟨time, ?_, hlow, hhigh⟩, hcaught.count_other hsame⟩
    rw [hcaught.others gid hsame, htime]

theorem Settled.run (hroom : today + 2 * oneDay < 2 ^ 64) {gids : List Int}
    {checked result : Nat × CatchUp} (hsettled : Settled today gid checked.2)
    (hrun : gids.foldlM (groupCheck env today) checked = some result) :
    ∀ day, result.2.calls.count (.group gid day) = checked.2.calls.count (.group gid day) := by
  induction gids generalizing checked with
  | nil =>
    cases hrun
    exact fun _ => rfl
  | cons other gids ih =>
    rw [foldlM_cons, bind_eq_bind, bind_eq_some_iff] at hrun
    obtain ⟨next, hcheck, hrest⟩ := hrun
    obtain ⟨hnext, hcount⟩ := hsettled.check hroom hcheck
    intro day
    rw [ih hnext hrest, hcount]

theorem groupCheck_settles (hroom : today + 2 * oneDay < 2 ^ 64) {checked result : Nat × CatchUp}
    (howes : (checked.2.times.group gid).isSome ∨ checked.1 = 0)
    (hcheck : groupCheck env today checked gid = some result) :
    Settled today gid result.2 ∧ ∀ day, result.2.calls.count (.group gid day) =
      checked.2.calls.count (.group gid day) +
        (ownDays today (checked.2.times.group gid)).count day := by
  obtain ⟨⟨hlow, hhigh⟩, hleft, hcaught⟩ := groupCheck_caught hroom hcheck
  have hstart : startTime today (checked.2.times.group gid) checked.1 =
      startTime today (checked.2.times.group gid) 0 := by
    grind [isSome_iff_exists, startTime_some]
  rw [hstart] at hcaught hleft
  refine ⟨?_, hcaught.count_self⟩
  by_cases hnil : owedDays today (startTime today (checked.2.times.group gid) 0) = []
  · -- only a stored time that is not due yet owes nothing
    rw [leftTime_of_nil hnil] at hleft
    refine ⟨result.1, ?_, hlow, hhigh⟩
    rw [hcaught.own, if_pos hnil, hleft]
    rw [hleft] at hhigh
    exact stored_of_startTime hroom hhigh
  · refine ⟨result.1, ?_, hlow, hhigh⟩
    rw [hcaught.own, if_neg hnil]

theorem count_of_stored (hroom : today + 2 * oneDay < 2 ^ 64) {gids : List Int}
    {checked result : Nat × CatchUp} (hmem : gid ∈ gids)
    (hsome : (checked.2.times.group gid).isSome)
    (hrun : gids.foldlM (groupCheck env today) checked = some result) (day : Nat) :
    result.2.calls.count (.group gid day) = checked.2.calls.count (.group gid day) +
      (ownDays today (checked.2.times.group gid)).count day := by
  induction gids generalizing checked with
  | nil => exact absurd hmem not_mem_nil
  | cons other gids ih =>
    rw [foldlM_cons, bind_eq_bind, bind_eq_some_iff] at hrun
    obtain ⟨next, hcheck, hrest⟩ := hrun
    by_cases hsame : gid = other
    · subst hsame
      obtain ⟨hsettled, hcount⟩ := groupCheck_settles hroom (Or.inl hsome) hcheck
      rw [hsettled.run hroom hrest, hcount]
    · obtain ⟨_, _, hcaught⟩ := groupCheck_caught hroom hcheck
      have htime := hcaught.others gid hsame
      rw [← htime] at hsome ⊢
      rw [ih (mem_of_ne_of_mem hsame hmem) hsome hrest, hcaught.count_other hsame]

theorem count_of_not_mem (hroom : today + 2 * oneDay < 2 ^ 64) {gids : List Int}
    {checked result : Nat × CatchUp} (hmem : gid ∉ gids)
    (hrun : gids.foldlM (groupCheck env today) checked = some result) (day : Nat) :
    result.2.calls.count (.group gid day) = checked.2.calls.count (.group gid day) := by
  induction gids generalizing checked with
  | nil =>
    cases hrun
    rfl
  | cons other gids ih =>
    rw [foldlM_cons, bind_eq_bind, bind_eq_some_iff] at hrun
    obtain ⟨next, hcheck, hrest⟩ := hrun
    rw [mem_cons, not_or] at hmem
    obtain ⟨_, _, hcaught⟩ := groupCheck_caught hroom hcheck
    rw [ih hmem.2 hrest, hcaught.count_other hmem.1]

/-- A group without a time that follows another one gets nothing: the time that is left
from the other is taken for its own. -/
theorem count_of_leftover (hroom : today + 2 * oneDay < 2 ^ 64) {gids : List Int}
    {checked result : Nat × CatchUp} (hlow : today < checked.1)
    (hhigh : checked.1 ≤ today + oneDay) (hnone : checked.2.times.group gid = none)
    (hrun : gids.foldlM (groupCheck env today) checked = some result) (day : Nat) :
    result.2.calls.count (.group gid day) = checked.2.calls.count (.group gid day) := by
  induction gids generalizing checked with
  | nil =>
    cases hrun
    rfl
  | cons other gids ih =>
    rw [foldlM_cons, bind_eq_bind, bind_eq_some_iff] at hrun
    obtain ⟨next, hcheck, hrest⟩ := hrun
    obtain ⟨⟨hlate, hleft⟩, _, hcaught⟩ := groupCheck_caught hroom hcheck
    by_cases hsame : gid = other
    · subst hsame
      have hstart : startTime today (checked.2.times.group gid) checked.1 = checked.1 := by
        rw [hnone, startTime, getD_none, if_neg (not_le.mpr hlow)]
      rw [hstart, owedDays_eq_nil hhigh] at hcaught
      have hstill : next.2.times.group gid = none := by
        rw [hcaught.own, if_pos rfl, hnone]
      rw [ih hlate hleft hstill hrest, hcaught.count_self, count_nil, Nat.add_zero]
    · have hstill : next.2.times.group gid = none := by
        rw [hcaught.others gid hsame, hnone]
      rw [ih hlate hleft hstill hrest, hcaught.count_other hsame]

/-- Every read and every resave succeeds. -/
structure Outcomes.AllSucceed (env : Outcomes) : Prop where
  readGroup : ∀ calls gid, env.readGroup calls gid = true
  resave : ∀ calls call, env.resave calls call = true

theorem catchUpLoop_isSome (hsucceed : env.AllSucceed) (fuel history : Nat) (state : CatchUp) :
    ∃ result, catchUpLoop (resaveUsergroupTimes env gid) today fuel history state =
      some result := by
  induction fuel generalizing history state with
  | zero => exact ⟨_, rfl⟩
  | succ fuel ih =>
    rw [catchUpLoop]
    split
    · rw [resaveUsergroupTimes, if_pos (hsucceed.resave _ _)]
      exact ih _ _
    · exact ⟨_, rfl⟩

theorem groupCheck_isSome (hsucceed : env.AllSucceed) (checked : Nat × CatchUp) (gid : Int) :
    ∃ result, groupCheck env today checked gid = some result := by
  rw [groupCheck, if_pos (hsucceed.readGroup _ _)]
  simp only
  split
  · exact catchUpLoop_isSome hsucceed _ _ _
  · exact ⟨_, rfl⟩

theorem groupRun_isSome (hsucceed : env.AllSucceed) (gids : List Int) (checked : Nat × CatchUp) :
    ∃ result, gids.foldlM (groupCheck env today) checked = some result := by
  induction gids generalizing checked with
  | nil => exact ⟨checked, rfl⟩
  | cons gid gids ih =>
    obtain ⟨next, hcheck⟩ := @groupCheck_isSome env today hsucceed checked gid
    rw [foldlM_cons, hcheck]
    exact ih next

theorem usergroupCalcActionSaveCheck_eq (env : Outcomes) (today : Nat) (groups : List Int)
    (state : CatchUp) : usergroupCalcActionSaveCheck env today groups state =
      ((groups ++ [0]).foldlM (groupCheck env today) (0, state)).map Prod.snd := by
  rw [usergroupCalcActionSaveCheck, foldlM_append]
  cases groups.foldlM (groupCheck env today) (0, state) with
  | none => rfl
  | some checked =>
    change (groupCheck env today checked 0).bind (fun checked => some checked.2) =
      ([0].foldlM (groupCheck env today) checked).map Prod.snd
    rw [foldlM_cons]
    cases groupCheck env today checked 0 <;> rfl

/-- The group has no record of yesterday, and its time is a whole number of days away. -/
def OwesYesterday (today : Nat) : Option Nat → Prop
  | none => True
  | some time => today + oneDay < time ∧ time % oneDay = today % oneDay

theorem count_ownDays (hroom : today + 2 * oneDay < 2 ^ 64) {stored : Option Nat}
    (howes : OwesYesterday today stored) : (ownDays today stored).count (today + oneDay) = 1 := by
  cases stored with
  | none => exact count_ownDays_none hroom
  | some time =>
    obtain ⟨holder, haligned⟩ := howes
    have hstart : startTime today (some time) 0 = time := by
      rw [startTime, getD_some, if_neg (by omega)]
    rw [ownDays, hstart]
    exact count_owedDays holder haligned

/-- How often each group is called for each day depends on its own time alone, and every
group that misses yesterday gets it. -/
structure OrderFree (today : Nat) (groups : List Int) (stored : Int → Option Nat)
    (calls : List Resave) : Prop where
  own : ∀ gid day, calls.count (.group gid day) =
    if gid ∈ groups ++ [0] then (ownDays today (stored gid)).count day else 0
  yesterday : ∀ gid ∈ groups ++ [0], OwesYesterday today (stored gid) →
    .group gid (today + oneDay) ∈ calls

theorem orderFree_of_own (hroom : today + 2 * oneDay < 2 ^ 64) {groups : List Int}
    {stored : Int → Option Nat} {calls : List Resave}
    (hown : ∀ gid day, calls.count (.group gid day) =
      if gid ∈ groups ++ [0] then (ownDays today (stored gid)).count day else 0) :
    OrderFree today groups stored calls where
  own := hown
  yesterday := by
    intro gid hmem howes
    apply count_pos_iff.mp
    rw [hown, if_pos hmem, count_ownDays hroom howes]
    exact Nat.one_pos

/-- The groups get what they owe by themselves exactly if all but the first one have a
time in the database. -/
theorem usergroupCheck_orderFree_iff (env : Outcomes) (hsucceed : env.AllSucceed) (today : Nat)
    (hroom : today + 2 * oneDay < 2 ^ 64) (groups : List Int) (times : SaveTimes) :
    ∃ final, usergroupCalcActionSaveCheck env today groups ⟨times, []⟩ = some final ∧
      (OrderFree today groups times.group final.calls ↔
        ∀ gid ∈ groups ++ [0], gid = groups.headD 0 ∨ (times.group gid).isSome) := by
  obtain ⟨result, hrun⟩ :=
    @groupRun_isSome env today hsucceed (groups ++ [0]) (0, ⟨times, []⟩)
  refine ⟨result.2, ?_, ?_⟩
  · rw [usergroupCalcActionSaveCheck_eq, hrun]
    rfl
  · obtain ⟨first, rest, hgids, hfirst⟩ : ∃ first rest, groups ++ [0] = first :: rest ∧
        groups.headD 0 = first := by
      cases groups with
      | nil => exact ⟨0, [], rfl, rfl⟩
      | cons first rest => exact ⟨first, rest ++ [0], rfl, rfl⟩
    have hsplit := hrun
    rw [hgids, foldlM_cons, bind_eq_bind, bind_eq_some_iff] at hsplit
    obtain ⟨next, hcheck, hrest⟩ := hsplit
    rw [hfirst]
    constructor
    · intro horder gid hmem
      by_contra hnone
      rw [not_or, not_isSome_iff_eq_none] at hnone
      obtain ⟨hother, hnone⟩ := hnone
      -- the time left from the first group hides that this one has none
      obtain ⟨⟨hlow, hhigh⟩, _, hcaught⟩ := groupCheck_caught hroom hcheck
      have hstill : next.2.times.group gid = none := by
        rw [hcaught.others gid hother, hnone]
      have hcount := horder.own gid (today + oneDay)
      rw [if_pos hmem, hnone, count_ownDays_none hroom,
        count_of_leftover hroom hlow hhigh hstill hrest, hcaught.count_other hother] at hcount
      exact absurd hcount (by simp)
    · intro hstored
      apply orderFree_of_own hroom
      intro gid day
      by_cases hmem : gid ∈ groups ++ [0]
      · rw [if_pos hmem]
        rcases hstored gid hmem with rfl | hsome
        · obtain ⟨hsettled, hcount⟩ := groupCheck_settles hroom (Or.inr rfl) hcheck
          rw [hsettled.run hroom hrest, hcount]
          exact Nat.zero_add _
        · rw [count_of_stored hroom hmem hsome hrun]
          exact Nat.zero_add _
      · rw [if_neg hmem, count_of_not_mem hroom hmem hrun]
        rfl

end Groups

section Users

variable {env : Outcomes} {today : Nat}

theorem WallClock.today_room (clock : WallClock) : clock.today + 2 * oneDay < 2 ^ 64 := by
  rw [WallClock.today]
  simp only [oneDay]
  omega

theorem catchUpLoop_two (resave : Nat → CatchUp → Option CatchUp) (state : CatchUp) :
    (catchUpLoop resave today (today + 2 * oneDay) (today + 2 * oneDay) state).map Prod.snd =
      resave (today + oneDay) state := by
  have hrounds : ∃ fuel, today + 2 * oneDay = fuel + 2 :=
    ⟨today + 2 * oneDay - 2, by simp only [oneDay]; omega⟩
  simp [oneDay, catchUpLoop.eq_2]

theorem userCheck_cases (hroom : today + 2 * oneDay < 2 ^ 64) {user : Nat × Int}
    {state next : CatchUp} (hcheck : userCheck env today state user = some next) :
    next = state ∨
      next = ⟨saveUserTimes state.times user.1 user.2 (today + oneDay),
        state.calls ++ [.user user.1 user.2 (today + oneDay)]⟩ := by
  have hresave : resaveUserTimes env user.1 user.2 (today + oneDay) state = some next →
      next = ⟨saveUserTimes state.times user.1 user.2 (today + oneDay),
        state.calls ++ [.user user.1 user.2 (today + oneDay)]⟩ := by
    grind [resaveUserTimes.eq_1]
  rw [userCheck, Nat.mod_eq_of_lt hroom] at hcheck
  simp only [catchUpLoop_two] at hcheck
  split at hcheck
  · split at hcheck
    · exact Or.inr (hresave hcheck)
    · split at hcheck
      · exact Or.inr (hresave hcheck)
      · exact Or.inl (Option.some.inj hcheck).symm
  · cases hcheck

/-- The time of a group is older than yesterday. -/
def Overdue (today : Nat) (gid : Int) (times : SaveTimes) : Prop :=
  ∃ time, times.group gid = some time ∧ today + oneDay < time

/-- While users are checked: times stay whole days apart, only users are saved, and the
groups of those users are due. -/
structure UsersSaved (today : Nat) (users : List (Nat × Int)) (state : CatchUp) : Prop where
  aligned : ∀ gid time, state.times.group gid = some time → time % oneDay = today % oneDay
  saved : ∀ call ∈ state.calls, ∃ user ∈ users, call = .user user.1 user.2 (today + oneDay)
  due : ∀ uid gid day, .user uid gid day ∈ state.calls →
    Overdue today gid state.times ∧ Overdue today 0 state.times

theorem pushedTime_spec (hroom : today + 2 * oneDay < 2 ^ 64) {stored : Option Nat}
    (haligned : ∀ time, stored = some time → time % oneDay = today % oneDay) :
    today + oneDay < pushedTime stored (today + oneDay) ∧
      pushedTime stored (today + oneDay) % oneDay = today % oneDay := by
  have hpushed : (today + oneDay + oneDay) % 2 ^ 64 = today + 2 * oneDay := by
    rw [Nat.mod_eq_of_lt (by omega)]
    omega
  rw [pushedTime]
  split
  · rw [hpushed]
    simp only [oneDay]
    omega
  · rename_i hlate
    cases stored with
    | none => exact absurd (Nat.zero_le _) hlate
    | some time => exact ⟨not_le.mp hlate, haligned time rfl⟩

theorem saveUserTimes_group (times : SaveTimes) (uid : Nat) (gid : Int) (day : Nat)
    (other : Int) : (saveUserTimes times uid gid day).group other =
      if other = 0 ∨ other = gid then some (pushedTime (times.group other) day)
      else times.group other := by
  change Function.update (Function.update _ _ _) _ _ other = _
  grind

theorem UsersSaved.check (hroom : today + 2 * oneDay < 2 ^ 64) {users : List (Nat × Int)}
    {user : Nat × Int} {state next : CatchUp} (hsaved : UsersSaved today users state)
    (huser : user ∈ users) (hcheck : userCheck env today state user = some next) :
    UsersSaved today users next := by
  rcases userCheck_cases hroom hcheck with rfl | rfl
  · exact hsaved
  · have hpushed : ∀ gid, today + oneDay < pushedTime (state.times.group gid) (today + oneDay) ∧
        pushedTime (state.times.group gid) (today + oneDay) % oneDay = today % oneDay :=
      fun gid => pushedTime_spec hroom (hsaved.aligned gid)
    have hdue : ∀ gid, (gid = 0 ∨ gid = user.2) ∨ Overdue today gid state.times →
        Overdue today gid (saveUserTimes state.times user.1 user.2 (today + oneDay)) := by
      intro gid hgid
      by_cases hown : gid = 0 ∨ gid = user.2
      · refine ⟨_, ?_, (hpushed gid).1⟩
        rw [saveUserTimes_group, if_pos hown]
      · obtain ⟨time, htime, hlate⟩ := hgid.resolve_left hown
        refine ⟨time, ?_, hlate⟩
        rw [saveUserTimes_group, if_neg hown, htime]
    constructor
    · intro gid time htime
      rw [saveUserTimes_group] at htime
      split at htime
      · rw [← Option.some.inj htime]
        exact (hpushed gid).2
      · exact hsaved.aligned gid time htime
    · intro call hcall
      rw [mem_append, mem_singleton] at hcall
      rcases hcall with hcall | rfl
      · exact hsaved.saved call hcall
      · exact ⟨user, huser, rfl⟩
    · intro uid gid day hcall
      rw [mem_append, mem_singleton] at hcall
      rcases hcall with hcall | hcall
      · obtain ⟨hgroup, hall⟩ := hsaved.due uid gid day hcall
        exact ⟨hdue gid (Or.inr hgroup), hdue 0 (Or.inr hall)⟩
      grind

theorem UsersSaved.run (hroom : today + 2 * oneDay < 2 ^ 64) {users pending : List (Nat × Int)}
    {state next : CatchUp} (hsaved : UsersSaved today users state)
    (hpending : ∀ user ∈ pending, user ∈ users)
    (hrun : pending.foldlM (userCheck env today) state = some next) :
    UsersSaved today users next := by
  induction pending generalizing state with
  | nil =>
    cases hrun
    exact hsaved
  | cons user pending ih =>
    rw [foldlM_cons, bind_eq_bind, bind_eq_some_iff] at hrun
    obtain ⟨middle, hcheck, hrest⟩ := hrun
    exact ih (hsaved.check hroom (hpending user mem_cons_self) hcheck)
      (fun other hother => hpending other (mem_cons_of_mem user hother)) hrest

theorem groupRun_calls (hroom : today + 2 * oneDay < 2 ^ 64) {gids : List Int}
    {checked result : Nat × CatchUp}
    (hrun : gids.foldlM (groupCheck env today) checked = some result) :
    ∃ rest, result.2.calls = checked.2.calls ++ rest ∧
      ∀ call ∈ rest, ∃ gid day, call = .group gid day := by
  induction gids generalizing checked with
  | nil =>
    simp_all
  | cons gid gids ih =>
    rw [foldlM_cons, bind_eq_bind, bind_eq_some_iff] at hrun
    obtain ⟨next, hcheck, hrest⟩ := hrun
    obtain ⟨_, _, hcaught⟩ := groupCheck_caught hroom hcheck
    obtain ⟨rest, hcalls, hgroups⟩ := ih hrest
    refine ⟨_, by rw [hcalls, hcaught.calls, append_assoc], ?_⟩
    grind

theorem count_of_overdue (hroom : today + 2 * oneDay < 2 ^ 64) {gids : List Int} {gid : Int}
    {checked result : Nat × CatchUp} (hmem : gid ∈ gids) (hdue : Overdue today gid checked.2.times)
    (haligned : ∀ time, checked.2.times.group gid = some time → time % oneDay = today % oneDay)
    (hrun : gids.foldlM (groupCheck env today) checked = some result) :
    result.2.calls.count (.group gid (today + oneDay)) =
      checked.2.calls.count (.group gid (today + oneDay)) + 1 := by
  obtain ⟨time, htime, hlate⟩ := hdue
  have hsome : (checked.2.times.group gid).isSome := by
    rw [htime]
    rfl
  have howes : OwesYesterday today (some time) := ⟨hlate, haligned time htime⟩
  rw [count_of_stored hroom hmem hsome hrun, htime, count_ownDays hroom howes]

/-- Every user whose yesterday was saved again has yesterday saved once for its group and
once for all groups, after the last of the users. -/
theorem userCheck_triggers_groups (env : Outcomes) (clock : WallClock) (users : List (Nat × Int))
    (groups : List Int) (times : SaveTimes)
    (haligned : ∀ gid time, times.group gid = some time → time % oneDay = clock.today % oneDay)
    (hgroups : ∀ user ∈ users, 1 ≤ user.2 ∧ user.2 ∈ groups) (final : CatchUp)
    (hrun : userCalcActionSaveCheck env clock users groups ⟨times, []⟩ = some final) :
    ∃ first rest, final.calls = first ++ rest ∧
      (∀ call ∈ rest, ∃ gid day, call = .group gid day) ∧
      ∀ uid gid day, .user uid gid day ∈ final.calls →
        day = clock.today + oneDay ∧
        first.count (.group gid day) = 0 ∧ rest.count (.group gid day) = 1 ∧
        first.count (.group 0 day) = 0 ∧ rest.count (.group 0 day) = 1 := by
  have hroom := clock.today_room
  rw [userCalcActionSaveCheck, bind_eq_bind, bind_eq_some_iff] at hrun
  obtain ⟨middle, husers, hcheck⟩ := hrun
  rw [usergroupCalcActionSaveCheck_eq, map_eq_some_iff] at hcheck
  obtain ⟨result, hresult, rfl⟩ := hcheck
  have hsaved : UsersSaved clock.today users middle := by
    refine UsersSaved.run hroom ⟨haligned, ?_, ?_⟩ (fun _ huser => huser) husers
    · exact fun _ hcall => absurd hcall not_mem_nil
    · exact fun _ _ _ hcall => absurd hcall not_mem_nil
  obtain ⟨rest, hcalls, honly⟩ := groupRun_calls hroom hresult
  change result.2.calls = middle.calls ++ rest at hcalls
  have hnoGroup : ∀ gid day, middle.calls.count (.group gid day) = 0 := by
    intro gid day
    rw [count_eq_zero]
    intro hcall
    obtain ⟨_, _, hsame⟩ := hsaved.saved _ hcall
    cases hsame
  -- a due group is called once more than before, and before it was not
  have honce : ∀ gid ∈ groups ++ [0], Overdue clock.today gid middle.times →
      rest.count (.group gid (clock.today + oneDay)) = 1 := by
    intro gid hmem hdue
    have hcount := @count_of_overdue env clock.today hroom _ _ (0, middle) result hmem hdue
      (hsaved.aligned gid) hresult
    rw [hcalls, count_append] at hcount
    exact Nat.add_left_cancel hcount
  refine ⟨middle.calls, rest, hcalls, honly, ?_⟩
  intro uid gid day hcall
  rw [hcalls, mem_append] at hcall
  have hmiddle : .user uid gid day ∈ middle.calls := by
    grind
  obtain ⟨user, huser, hsame⟩ := hsaved.saved _ hmiddle
  obtain ⟨hgroup, hall⟩ := hsaved.due uid gid day hmiddle
  grind

end Users

namespace CatchUpWitness

def allSucceed : Outcomes where
  readGroup _ _ := true
  readUser _ _ := true
  resave _ _ := true

theorem allSucceed_spec : allSucceed.AllSucceed where
  readGroup _ _ := rfl
  resave _ _ := rfl

/-- Only group 2 and group 0 have a time. -/
def someTimes : SaveTimes where
  group gid := if gid = 2 ∨ gid = 0 then some 4000172800 else none
  user _ := none

theorem orderFree_someTimes :
    ∃ final, usergroupCalcActionSaveCheck allSucceed 4000000000 [1, 2] ⟨someTimes, []⟩ =
      some final ∧ OrderFree 4000000000 [1, 2] someTimes.group final.calls := by
  obtain ⟨final, hrun, hiff⟩ := usergroupCheck_orderFree_iff allSucceed allSucceed_spec
    4000000000 (by decide) [1, 2] someTimes
  exact ⟨final, hrun, hiff.mpr (by decide)⟩

def noTimes : SaveTimes where
  group _ := none
  user _ := none

/-- Without any times only the first group is called, whichever it is. -/
theorem not_orderFree_noTimes :
    ∃ one two, usergroupCalcActionSaveCheck allSucceed 4000000000 [1, 2] ⟨noTimes, []⟩ =
        some one ∧ one.calls = [.group 1 4000086400] ∧
      usergroupCalcActionSaveCheck allSucceed 4000000000 [2, 1] ⟨noTimes, []⟩ =
        some two ∧ two.calls = [.group 2 4000086400] ∧
      ¬OrderFree 4000000000 [1, 2] noTimes.group one.calls := by
  refine ⟨_, _, rfl, rfl, rfl, rfl, ?_⟩
  intro horder
  have hmissing := horder.yesterday 2 (by decide) trivial
  exact absurd hmissing (by decide)

/-- The last second of the 32-bit clock, at midnight. -/
def lastNight : WallClock := ⟨0xffffffff, 0, by decide, by decide⟩

theorem userCheck_triggers_groups_lastNight : ∃ final,
    userCalcActionSaveCheck allSucceed lastNight [(1001, 3)] [3] ⟨noTimes, []⟩ = some final ∧
    .user 1001 3 86400 ∈ final.calls ∧
    ∃ first rest, final.calls = first ++ rest ∧
      (∀ call ∈ rest, ∃ gid day, call = .group gid day) ∧
      ∀ uid gid day, .user uid gid day ∈ final.calls →
        day = lastNight.today + oneDay ∧
        first.count (.group gid day) = 0 ∧ rest.count (.group gid day) = 1 ∧
        first.count (.group 0 day) = 0 ∧ rest.count (.group 0 day) = 1 := by
  refine ⟨_, rfl, by decide, ?_⟩
  exact userCheck_triggers_groups allSucceed lastNight [(1001, 3)] [3] noTimes
    (fun _ _ htime => absurd htime (by simp [noTimes])) (by decide) _ rfl

end CatchUpWitness

end WaterWall
