/-
The values that the four saves of auto_data_save.c pass to `dbmulti_set` for lists of
statistics.  Each one writes the entries of a list into a block that is doubled when it is
full.  `ww_save_all_user_calc_act_to_db` works out its place in the block anew after that,
the other three go on writing through the pointer they had.
-/
import WaterWall.GroupTotals
import WaterWall.SsdbStore
import WaterWall.GrowingBlock

namespace WaterWall

open ByteText GrowingBlock List

/-- `act_num` as the loops start. -/
def actNum : Nat := 1024

/-- Entries of 100 bytes behind the 12 of an `an_user_calc_acts_t`; the size that
`wys_realloc` is asked for is a `_u32`. -/
def calcPlan : Plan :=
  Plan.doubling (2 ^ 32) 12 100 actNum (by decide) u32Sizes_pos (by decide) (by decide)
    (by decide)

/-- `act_num` after so many doublings. -/
def calcThreshold (k : Nat) : Nat := calcPlan.threshold k

def calcRoom (k : Nat) : Nat := calcPlan.room k

/-- A list that is saved, with what goes into its header. -/
structure CalcList where
  gid : UInt32
  userCnt : UInt32
  actions : List ActionNode

/-- What `dbmulti_set` gets: the header, and the entries as they stand in the block. -/
structure CalcValue where
  gid : UInt32
  userCnt : UInt32
  num : UInt32
  entries : List (Option SavedAct)

/-- Which doublings move the block, and which calls of `dbmulti_set` succeed. -/
structure SaveEnv where
  moves : Nat → Bool
  stored : Nat → Bool

def freshBlock : Block SavedAct := ⟨0, 0, fun _ => none⟩

/-- The saves of the lists, one after the other in the same block. -/
def saveLists (rules : CalcRules) (env : SaveEnv) (rebases : Bool) :
    Nat → Block SavedAct → List CalcList → Except Fault (Int × List CalcValue)
  | _, _, [] => .ok (0, [])
  | call, block, list :: lists => do
      let filling ← block.fill calcPlan env.moves rebases
        (list.actions.map (saveAct rules list.gid))
      let value := ⟨list.gid, list.userCnt, .ofNat filling.count, filling.entries⟩
      if env.stored call then do
        let (ret, values) ← saveLists rules env rebases (call + 1) filling.block lists
        return (ret, value :: values)
      else return (-1, [value])

/-- The lists that are saved before a call of `dbmulti_set` fails. -/
def attempted (env : SaveEnv) : Nat → List CalcList → List CalcList
  | _, [] => []
  | call, list :: lists =>
    list :: if env.stored call then attempted env (call + 1) lists else []

def UserActions.calcList (user : UserActions) : CalcList :=
  ⟨user.groupId, 0, user.actions⟩

def GroupActions.calcList (userCnt : UInt32 → UInt32) (group : GroupActions) : CalcList :=
  ⟨group.groupId, userCnt group.groupId, group.table.nodes⟩

namespace CalcValues

/-- The value of `ww_save_user_calc_act_to_db`. -/
def wwSaveUserCalcActToDb (rules : CalcRules) (env : SaveEnv) (user : UserActions) :
    Except Fault (Int × List CalcValue) :=
  saveLists rules env false 0 freshBlock [user.calcList]

/-- The value of `ww_save_group_calc_act_to_db`. -/
def wwSaveGroupCalcActToDb (rules : CalcRules) (env : SaveEnv) (gid userCnt : UInt32)
    (nodes : List ActionNode) : Except Fault (Int × List CalcValue) :=
  saveLists rules env false 0 freshBlock [⟨gid, userCnt, nodes⟩]

/-- The values of `ww_save_all_user_calc_act_to_db`. -/
def wwSaveAllUserCalcActToDb (rules : CalcRules) (env : SaveEnv) (users : List UserActions) :
    Except Fault (Int × List CalcValue) :=
  saveLists rules env true 0 freshBlock (users.map UserActions.calcList)

/-- The values of `ww_save_all_group_calc_act_to_db`. -/
def wwSaveAllGroupCalcActToDb (rules : CalcRules) (env : SaveEnv)
    (userCnt : UInt32 → UInt32) (groups : List GroupActions) :
    Except Fault (Int × List CalcValue) :=
  saveLists rules env false 0 freshBlock (groups.map (GroupActions.calcList userCnt))

end CalcValues

/-- The entry has the data of the action. -/
structure SavedAct.IsOf (rules : CalcRules) (gid : UInt32) (action : ActionNode)
    (saved : SavedAct) : Prop where
  time : saved.time = action.time
  type : saved.type = action.type
  actName : saved.actName.text = action.actText
  proName : saved.proName.text = action.proText
  keyClick : saved.keyClick = action.keyClick
  mouClick : saved.mouClick = action.mouClick
  category : saved.category = wwGetCategory rules action gid

/-- The value has as many entries as the list, and each is that of its action. -/
structure CalcValue.Complete (rules : CalcRules) (list : CalcList) (value : CalcValue) :
    Prop where
  num : value.num.toNat = list.actions.length
  entries : List.Forall₂
    (fun action entry => ∃ saved, entry = some saved ∧ saved.IsOf rules list.gid action)
    list.actions value.entries

/-- All writes are inside the block, and the values are complete. -/
def AllComplete (rules : CalcRules) (lists : List CalcList)
    (result : Except Fault (Int × List CalcValue)) : Prop :=
  ∃ ret values, result = .ok (ret, values) ∧ List.Forall₂ (CalcValue.Complete rules) lists values

/-- The texts of the names, with a NUL, are no longer than their arrays. -/
def ActionNode.TextsFit (action : ActionNode) : Prop :=
  action.actText.length < 48 ∧ action.proText.length < 32

/-- No doubling that the list needs moves the block, or the place is worked out anew; the
number of bytes is a `_u32`; and the names fit. -/
structure CalcList.Saves (env : SaveEnv) (rebases : Bool) (list : CalcList) : Prop where
  stays : ∀ k, actNum * 2 ^ k < list.actions.length → rebases = true ∨ env.moves k = false
  fits : list.actions.length ≤ actNum * 2 ^ 15
  names : ∀ action ∈ list.actions, action.TextsFit

section Lists

variable {rules : CalcRules} {env : SaveEnv} {rebases : Bool} {gid : UInt32}

theorem saveAct_isOf_iff {action : ActionNode} :
    (saveAct rules gid action).IsOf rules gid action ↔ action.TextsFit := by
  constructor
  · intro hof
    have hact := congrArg List.length hof.actName
    have hpro := congrArg List.length hof.proName
    change (action.actText.take 47).length = _ at hact
    change (action.proText.take 31).length = _ at hpro
    rw [length_take] at hact hpro
    constructor <;> omega
  · rintro ⟨hact, hpro⟩
    exact ⟨rfl, rfl, take_of_length_le (by omega), take_of_length_le (by omega),
      rfl, rfl, rfl⟩

theorem forall₂_saved_iff {actions : List ActionNode} :
    List.Forall₂ (fun action entry => ∃ saved, entry = some saved ∧ saved.IsOf rules gid action)
        actions ((actions.map (saveAct rules gid)).map some) ↔
      ∀ action ∈ actions, action.TextsFit := by
  rw [map_map, forall₂_map_right_iff, forall₂_same]
  simp [saveAct_isOf_iff]

theorem calcRoom_lt (k : Nat) : calcRoom k < 2 ^ 32 :=
  (roomFor_le (by decide) 12 k).trans_lt (by decide)

/-- The doublings that are needed behind the ones that there were are good, and the names
fit. -/
def CalcList.SavesFrom (env : SaveEnv) (rebases : Bool) (grown : Nat) (list : CalcList) : Prop :=
  (∀ k, grown ≤ k → calcThreshold k < list.actions.length → calcPlan.Good env.moves rebases k) ∧
    ∀ action ∈ list.actions, action.TextsFit

theorem CalcList.savesFrom_zero_iff {list : CalcList} :
    list.SavesFrom env rebases 0 ↔ list.Saves env rebases := by
  have hroom : ∀ k, k < 15 → calcThreshold k < calcRoom (k + 1) := by
    intro k hk
    interval_cases k <;> decide
  constructor
  · rintro ⟨hgood, hnames⟩
    refine ⟨fun k hk => (hgood k (Nat.zero_le k) hk).1, ?_, hnames⟩
    by_contra hlong
    have hwrapped := (hgood 15 (Nat.zero_le _) (not_le.mp hlong)).2
    exact absurd hwrapped (by decide)
  · rintro ⟨hstays, hfits, hnames⟩
    refine ⟨fun k _ hk => ⟨hstays k hk, hroom k ?_⟩, hnames⟩
    by_contra hlarge
    have hpow := calcPlan.threshold_strictMono.monotone (not_lt.mp hlarge)
    change calcThreshold 15 ≤ calcThreshold k at hpow
    change list.actions.length ≤ calcThreshold 15 at hfits
    omega

theorem allComplete_cons {list : CalcList} {lists : List CalcList} {value : CalcValue}
    {result : Except Fault (Int × List CalcValue)} :
    AllComplete rules (list :: lists) (result.map fun saved => (saved.1, value :: saved.2)) ↔
      value.Complete rules list ∧ AllComplete rules lists result := by
  cases result with
  | error fault =>
    refine iff_of_false ?_ ?_
    · rintro ⟨_, _, hresult, _⟩
      cases hresult
    · rintro ⟨_, _, _, hresult, _⟩
      cases hresult
  | ok saved =>
    constructor
    · rintro ⟨_, _, hresult, hvalues⟩
      cases hresult
      obtain ⟨hvalue, hrest⟩ := forall₂_cons.mp hvalues
      exact ⟨hvalue, _, _, rfl, hrest⟩
    · rintro ⟨hvalue, _, _, hresult, hrest⟩
      cases hresult
      exact ⟨_, _, rfl, .cons hvalue hrest⟩

theorem CalcList.savesFrom_later {list : CalcList} {grown later : Nat} (hlater : grown ≤ later)
    (hgood : ∀ k, grown ≤ k → k < later → calcPlan.Good env.moves rebases k) :
    list.SavesFrom env rebases later ↔ list.SavesFrom env rebases grown := by
  constructor
  · rintro ⟨hsaves, hnames⟩
    refine ⟨fun k hlow hneed => ?_, hnames⟩
    grind
  · rintro ⟨hsaves, hnames⟩
    exact ⟨fun k hlow => hsaves k (hlater.trans hlow), hnames⟩

theorem saveLists_cons {list : CalcList} {lists : List CalcList} {call : Nat}
    {block : Block SavedAct} {filling : Filling SavedAct}
    (hfill : block.fill calcPlan env.moves rebases
      (list.actions.map (saveAct rules list.gid)) = .ok filling) :
    saveLists rules env rebases call block (list :: lists) =
      if env.stored call then
        (saveLists rules env rebases (call + 1) filling.block lists).map fun saved =>
          (saved.1, ⟨list.gid, list.userCnt, .ofNat filling.count, filling.entries⟩ :: saved.2)
      else .ok (-1, [⟨list.gid, list.userCnt, .ofNat filling.count, filling.entries⟩]) := by
  rw [saveLists, hfill]
  change (if env.stored call = true then
    saveLists rules env rebases (call + 1) filling.block lists >>= fun saved =>
      pure (saved.1, _ :: saved.2) else _) = _
  cases saveLists rules env rebases (call + 1) filling.block lists <;> rfl

theorem value_complete_iff {list : CalcList} {filling : Filling SavedAct}
    (hholds : filling.Holds calcPlan (list.actions.map (saveAct rules list.gid))) :
    CalcValue.Complete rules list ⟨list.gid, list.userCnt, .ofNat filling.count,
      filling.entries⟩ ↔ ∀ action ∈ list.actions, action.TextsFit := by
  have hcount : filling.count < 2 ^ 32 := by
    have hwithin := hholds.within
    rw [← hholds.count] at hwithin
    exact (hwithin.trans hholds.real).trans_lt (calcRoom_lt _)
  have hnum : (UInt32.ofNat filling.count).toNat = list.actions.length := by
    rw [UInt32.toNat_ofNat_of_lt' hcount, hholds.count, length_map]
  rw [← @forall₂_saved_iff rules list.gid, ← hholds.entries]
  exact ⟨fun hcomplete => hcomplete.entries, fun hentries => ⟨hnum, hentries⟩⟩

theorem saveLists_complete_iff {lists : List CalcList} {call : Nat} {block : Block SavedAct}
    (hreal : calcThreshold block.grown ≤ calcRoom block.grown) :
    AllComplete rules (attempted env call lists) (saveLists rules env rebases call block lists) ↔
      ∀ list ∈ attempted env call lists, list.SavesFrom env rebases block.grown := by
  induction lists generalizing call block with
  | nil => exact iff_of_true ⟨0, [], rfl, .nil⟩ (forall_mem_nil _)
  | cons list lists ih =>
    rw [attempted, forall_mem_cons]
    by_cases hgood : ∀ k, block.grown ≤ k → calcThreshold k < list.actions.length →
        calcPlan.Good env.moves rebases k
    · obtain ⟨filling, hfill, hholds, hgrown, hneeded⟩ :=
        @Block.fill_ok _ calcPlan env.moves rebases block
          (list.actions.map (saveAct rules list.gid)) hreal
          (by rwa [length_map])
      rw [length_map] at hneeded
      have hvalue := value_complete_iff hholds
      have hlist : list.SavesFrom env rebases block.grown ↔
          ∀ action ∈ list.actions, action.TextsFit :=
        ⟨fun hsaves => hsaves.2, fun hnames => ⟨hgood, hnames⟩⟩
      have hsame : ∀ other : CalcList, other.SavesFrom env rebases filling.block.grown ↔
          other.SavesFrom env rebases block.grown := fun other =>
        CalcList.savesFrom_later hgrown fun k hlow hhigh => hgood k hlow (hneeded k hlow hhigh)
      rw [saveLists_cons hfill, hlist, ← hvalue]
      by_cases hstored : env.stored call = true
      · rw [if_pos hstored, if_pos hstored]
        have hrest := @ih (call + 1) filling.block hholds.real
        simp only [hsame] at hrest
        rw [← hrest, ← allComplete_cons]
      · rw [if_neg hstored, if_neg hstored]
        refine (@allComplete_cons rules list [] _ (.ok (-1, []))).trans (and_congr_right ?_)
        intro _
        exact iff_of_true ⟨-1, [], rfl, .nil⟩ (forall_mem_nil _)
    · have hbad : ∃ k, block.grown ≤ k ∧
          calcThreshold k < (list.actions.map (saveAct rules list.gid)).length ∧
          ¬calcPlan.Good env.moves rebases k := by
        push Not at hgood
        rwa [length_map]
      obtain ⟨fault, hfill⟩ := @Block.fill_bad _ calcPlan env.moves rebases block _ hreal hbad
      rw [saveLists, hfill]
      refine iff_of_false ?_ ?_
      · rintro ⟨ret, values, hresult, _⟩
        cases hresult
      · rintro ⟨hsaves, _⟩
        exact hgood hsaves.1

end Lists

/-- The values of the four saves are complete, with all writes inside the block, exactly
if the lists can be saved that way: only the save of all users survives a doubling that
moves the block. -/
theorem calcValues_complete_iff (rules : CalcRules) (env : SaveEnv) :
    (∀ user : UserActions,
      AllComplete rules [user.calcList] (CalcValues.wwSaveUserCalcActToDb rules env user) ↔
        user.calcList.Saves env false) ∧
    (∀ (gid userCnt : UInt32) (nodes : List ActionNode),
      AllComplete rules [⟨gid, userCnt, nodes⟩]
        (CalcValues.wwSaveGroupCalcActToDb rules env gid userCnt nodes) ↔
        CalcList.Saves env false ⟨gid, userCnt, nodes⟩) ∧
    (∀ users : List UserActions,
      AllComplete rules (attempted env 0 (users.map UserActions.calcList))
        (CalcValues.wwSaveAllUserCalcActToDb rules env users) ↔
        ∀ list ∈ attempted env 0 (users.map UserActions.calcList), list.Saves env true) ∧
    (∀ (userCnt : UInt32 → UInt32) (groups : List GroupActions),
      AllComplete rules (attempted env 0 (groups.map (GroupActions.calcList userCnt)))
        (CalcValues.wwSaveAllGroupCalcActToDb rules env userCnt groups) ↔
        ∀ list ∈ attempted env 0 (groups.map (GroupActions.calcList userCnt)),
          list.Saves env false) := by
  have hlists : ∀ (rebases : Bool) (lists : List CalcList),
      AllComplete rules (attempted env 0 lists) (saveLists rules env rebases 0 freshBlock lists) ↔
        ∀ list ∈ attempted env 0 lists, list.Saves env rebases := by
    intro rebases lists
    rw [@saveLists_complete_iff _ _ _ _ _ freshBlock calcPlan.start]
    exact forall₂_congr fun list _ => CalcList.savesFrom_zero_iff
  have hsingle : ∀ list : CalcList, attempted env 0 [list] = [list] := by
    intro list
    rw [attempted, attempted, ite_self]
  have hone : ∀ list : CalcList,
      AllComplete rules [list] (saveLists rules env false 0 freshBlock [list]) ↔
        list.Saves env false := by
    grind
  exact ⟨fun _ => hone _, fun _ _ _ => hone _, fun _ => hlists true _, fun _ _ => hlists false _⟩

namespace SavedRecordsWitness

def noRules : CalcRules := ⟨fun _ _ _ => false, [], []⟩

/-- The first doubling moves the block. -/
def moving : SaveEnv := ⟨fun _ => true, fun _ => true⟩

/-- One action more than `act_num`. -/
def busyUser : UserActions := ⟨1, 3, 4000000000, List.replicate 1025 .zero⟩

/-- The entry behind the first 1024 is written into the old block. -/
theorem not_allComplete_busyUser :
    (∃ fault, CalcValues.wwSaveUserCalcActToDb noRules moving busyUser = .error fault) ∧
    ¬AllComplete noRules [busyUser.calcList]
      (CalcValues.wwSaveUserCalcActToDb noRules moving busyUser) := by
  have hbad : ∃ k, freshBlock.grown ≤ k ∧
      calcThreshold k < (busyUser.actions.map (saveAct noRules 3)).length ∧
      ¬calcPlan.Good moving.moves false k := by
    refine ⟨0, le_rfl, ?_, ?_⟩
    · rw [length_map]
      change calcThreshold 0 < (List.replicate 1025 ActionNode.zero).length
      rw [length_replicate]
      decide
    · rintro ⟨hvalid | hstays, _⟩
      · cases hvalid
      · cases hstays
  obtain ⟨fault, hfill⟩ :=
    @Block.fill_bad _ calcPlan moving.moves false freshBlock _ calcPlan.start hbad
  have hsave : CalcValues.wwSaveUserCalcActToDb noRules moving busyUser = .error fault := by
    rw [CalcValues.wwSaveUserCalcActToDb, saveLists]
    change (freshBlock.fill calcPlan moving.moves false
      (busyUser.actions.map (saveAct noRules 3)) >>= fun _ => _) = _
    rw [hfill]
    rfl
  refine ⟨⟨fault, hsave⟩, ?_⟩
  rintro ⟨ret, values, hresult, _⟩
  rw [hsave] at hresult
  cases hresult

end SavedRecordsWitness

end WaterWall
