/-
`ww_save_all_user_detail_act_to_db` of auto_data_save.c: the actions of every user are saved
hour by hour, one record for each category, and are then taken off the user's list.  The
pointers to the actions of an hour are kept in an array, `del_action`; times run backwards.
-/
import WaterWall.AnalyzerCleanup
import WaterWall.ByteText
import WaterWall.GrowingBlock
import WaterWall.NodeList

namespace WaterWall

open ByteText GrowingBlock NodeList List

/-- MAX_RULE_NUM. -/
def maxRuleNum : Nat := 1024

/-- The data of an `an_detail_act_t`, and of the entry that is saved for it; its names end
inside their arrays. -/
structure DetailAct where
  time : Nat
  type : UInt32
  category : Nat
  process : CString
  actname : CString
  processFits : process.text.length < 32
  actnameFits : actname.text.length < 128

/-- An `an_detail_user_t`. -/
structure DetailUser where
  uid : Int
  gid : Int
  startTime : Nat
  endTime : Nat
  actions : Nodes DetailAct

/-- An `an_user_detail_acts_t` as it is passed to `dbmulti_set`. -/
structure DetailValue where
  gid : Int
  num : UInt32
  entries : List (Option DetailAct)

/-- The call of `dbmulti_set` for an hour: the parts of the keys under
PRE_USER_DETAIL_ACTION, with the values of the categories, and the time that goes under
PRE_USER_DETAIL_ACTTIME. -/
structure HourSave where
  uid : Int
  day : Nat
  hour : Nat
  values : List DetailValue
  actTime : Nat

/-- The allocations at the start, the calls of `dbmulti_set`, the reallocations that move
a block, and the calendar. -/
structure DetailEnv where
  allocated : Bool
  stored : Nat → Bool
  moves : Nat → Nat → Bool
  dayOf : Nat → Nat
  hourOf : Nat → Nat

/-- Entries of 176 bytes behind the 8 of an `an_user_detail_acts_t`. -/
def detailPlan : Plan :=
  Plan.doubling (2 ^ 32) 8 176 maxRuleNum (by decide) u32Sizes_pos (by decide) (by decide)
    (by decide)

/-- The blocks of the categories, the calls that were made, and what was freed. -/
structure DetailRun where
  blocks : Nat → Block DetailAct
  saves : List HourSave
  freed : List Nat

/-- The walk over a user's list: what is on it, what was freed, what `del_action` holds and
where the entries of the categories go. -/
structure DetailWalk where
  nodes : Nodes DetailAct
  freed : List Nat
  marked : List Nat
  fillings : Nat → Filling DetailAct

/-- `save_time`. -/
def saveTime (endTime : Nat) : Nat := endTime - 3600 + 1

/-- One action of the walk.  `del_action` is written before it is enlarged, so the
enlargement (of a pointer into the block) is not reached without a write behind it. -/
def visitAct (env : DetailEnv) (endTime : Nat) (walk : DetailWalk) (node : Nat × DetailAct) :
    Except Fault DetailWalk :=
  if endTime < node.2.time then
    match delete walk.nodes node.1 with
    | some nodes => .ok { walk with nodes := nodes, freed := walk.freed ++ [node.1] }
    | none => .error .useAfterFree
  else if node.2.time < saveTime endTime then .ok walk
  else if maxRuleNum ≤ walk.marked.length then .error .outOfBounds
  else if anDetailMax ≤ node.2.category then .error .outOfBounds
  else do
    let filling ← (walk.fillings node.2.category).put detailPlan
      (env.moves node.2.category) true node.2
    return { walk with
      marked := walk.marked ++ [node.1]
      fillings := Function.update walk.fillings node.2.category filling }

def startWalk (user : DetailUser) (run : DetailRun) : DetailWalk where
  nodes := user.actions
  freed := run.freed
  marked := []
  fillings category := ⟨run.blocks category, 0, 0, (run.blocks category).base⟩

/-- The body of `while(user->end_time - user->start_time > 3600)`. -/
def saveHour (env : DetailEnv) (user : DetailUser) (run : DetailRun) :
    Except Fault (Int × DetailUser × DetailRun) := do
  let walk ← user.actions.foldlM (visitAct env user.endTime) (startWalk user run)
  let save : HourSave := ⟨user.uid, env.dayOf user.endTime, env.hourOf user.endTime,
    (List.range anDetailMax).map fun category =>
      ⟨user.gid, .ofNat (walk.fillings category).count, (walk.fillings category).entries⟩,
    user.endTime⟩
  let blocks := fun category => (walk.fillings category).block
  if user.endTime = 0 then
    return (-1, { user with actions := walk.nodes }, ⟨blocks, run.saves, walk.freed⟩)
  else if env.stored run.saves.length then
    match deleteAll walk.nodes walk.marked with
    | some nodes =>
      return (0, { user with endTime := user.endTime - 3600, actions := nodes },
        ⟨blocks, run.saves ++ [save], walk.freed ++ walk.marked⟩)
    | none => .error .useAfterFree
  else
    return (-1, { user with actions := walk.nodes }, ⟨blocks, run.saves ++ [save], walk.freed⟩)

/-- The hours of a user; the first argument bounds the rounds. -/
def saveHours (env : DetailEnv) :
    Nat → DetailUser → DetailRun → Except Fault (Int × DetailUser × DetailRun)
  | 0, user, run => .ok (0, user, run)
  | fuel + 1, user, run =>
    if 3600 < user.endTime - user.startTime then do
      let (ret, user, run) ← saveHour env user run
      if ret = 0 then saveHours env fuel user run else return (ret, user, run)
    else .ok (0, user, run)

/-- The loop over `an_detail_user_list`. -/
def saveDetailUsers (env : DetailEnv) :
    List DetailUser → DetailRun → Except Fault (Int × List DetailUser × DetailRun)
  | [], run => .ok (0, [], run)
  | user :: users, run => do
      let (ret, user, run) ← saveHours env user.endTime user run
      if ret = 0 then do
        let (ret, users, run) ← saveDetailUsers env users run
        return (ret, user :: users, run)
      else return (ret, user :: users, run)

def freshRun : DetailRun := ⟨fun _ => ⟨0, 0, fun _ => none⟩, [], []⟩

/-- `ww_save_all_user_detail_act_to_db`. -/
def wwSaveAllUserDetailActToDb (env : DetailEnv) (users : List DetailUser) :
    Except Fault (Int × List DetailUser × DetailRun) :=
  if env.allocated then saveDetailUsers env users freshRun else .ok (-1, users, freshRun)

/-- The ends of the hours that are saved for a user. -/
def hourEnds (startTime endTime : Nat) : List Nat :=
  (List.range ((endTime - startTime - 1) / 3600)).map fun round => endTime - 3600 * round

def InHour (endTime time : Nat) : Prop :=
  saveTime endTime ≤ time ∧ time ≤ endTime

instance (endTime time : Nat) : Decidable (InHour endTime time) :=
  inferInstanceAs (Decidable (_ ∧ _))

/-- The actions of an hour. -/
def hourActs (actions : Nodes DetailAct) (endTime : Nat) : Nodes DetailAct :=
  actions.filter fun node => InHour endTime node.2.time

/-- The value of a category for an hour. -/
def categoryValue (gid : Int) (acts : Nodes DetailAct) (category : Nat) : DetailValue :=
  let own := acts.filter fun node => node.2.category = category
  ⟨gid, .ofNat own.length, own.map fun node => some node.2⟩

/-- The call for an hour: every category has the actions of the hour in it. -/
def hourSave (env : DetailEnv) (user : DetailUser) (endTime : Nat) : HourSave where
  uid := user.uid
  day := env.dayOf endTime
  hour := env.hourOf endTime
  values := (List.range anDetailMax).map (categoryValue user.gid (hourActs user.actions endTime))
  actTime := endTime

/-- The end of the hour that is not over yet. -/
def lastEnd (startTime endTime : Nat) : Nat :=
  endTime - 3600 * (hourEnds startTime endTime).length

/-- What is newer than the hours that are saved is still there. -/
def leftActs (startTime endTime : Nat) (actions : Nodes DetailAct) : Nodes DetailAct :=
  if 3600 < endTime - startTime then
    actions.filter fun node => node.2.time ≤ lastEnd startTime endTime
  else actions

/-- The user behind its hours. -/
def DetailUser.behind (user : DetailUser) : DetailUser :=
  { user with
    endTime := lastEnd user.startTime user.endTime
    actions := leftActs user.startTime user.endTime user.actions }

section Walk

variable {env : DetailEnv} {endTime : Nat}

/-- The walk has seen the front of the list. -/
structure Walked (endTime : Nat) (freed : List Nat) (front rest : Nodes DetailAct)
    (walk : DetailWalk) : Prop where
  nodes : walk.nodes = (front.filter fun node => node.2.time ≤ endTime) ++ rest
  freed : walk.freed = freed ++ (front.filter fun node => endTime < node.2.time).map Prod.fst
  marked : walk.marked = (hourActs front endTime).map Prod.fst
  fillings : ∀ category, (walk.fillings category).Holds detailPlan
    (((hourActs front endTime).filter fun node => node.2.category = category).map Prod.snd)

theorem maxRuleNum_le_threshold (k : Nat) : maxRuleNum ≤ detailPlan.threshold k :=
  Nat.le_mul_of_pos_right _ (Nat.two_pow_pos k)

theorem filter_concat_of_pos {α : Type*} {p : α → Bool} {x : α} (hx : p x = true)
    (xs : List α) : (xs ++ [x]).filter p = xs.filter p ++ [x] := by
  rw [filter_append, filter_cons_of_pos hx, filter_nil]

theorem filter_concat_of_neg {α : Type*} {p : α → Bool} {x : α} (hx : ¬p x = true)
    (xs : List α) : (xs ++ [x]).filter p = xs.filter p := by
  rw [filter_append, filter_cons_of_neg hx, filter_nil, append_nil]

theorem hourActs_concat (front : Nodes DetailAct) (node : Nat × DetailAct) :
    hourActs (front ++ [node]) endTime =
      hourActs front endTime ++ if InHour endTime node.2.time then [node] else [] := by
  rw [hourActs, hourActs]
  by_cases hin : InHour endTime node.2.time
  · rw [if_pos hin, filter_concat_of_pos (by simpa using hin)]
  · rw [if_neg hin, filter_concat_of_neg (by simpa using hin), append_nil]

section Visit

variable {freed : List Nat} {front rest : Nodes DetailAct} {node : Nat × DetailAct}
  {walk : DetailWalk}

theorem Walked.visit_newer (hwalked : Walked endTime freed front (node :: rest) walk)
    (hnodup : ((front ++ node :: rest).map Prod.fst).Nodup) (hnewer : endTime < node.2.time) :
    ∃ next, visitAct env endTime walk node = .ok next ∧
      Walked endTime freed (front ++ [node]) rest next := by
  have hout : ¬InHour endTime node.2.time := fun hin => absurd hin.2 (not_le.mpr hnewer)
  have hkept : ((front.filter fun node => node.2.time ≤ endTime) ++ node :: rest).map
      Prod.fst |>.Nodup :=
    hnodup.sublist ((filter_sublist.append_right _).map _)
  rw [visitAct, if_pos hnewer, hwalked.nodes, delete_append hkept]
  refine ⟨_, rfl, ?_, ?_, ?_, ?_⟩
  · rw [filter_concat_of_neg (by simpa using hnewer)]
  · change walk.freed ++ [node.1] = _
    rw [hwalked.freed, filter_concat_of_pos (by simpa using hnewer), map_append,
      append_assoc]
    rfl
  · rw [hourActs_concat, if_neg hout, append_nil]
    exact hwalked.marked
  · rw [hourActs_concat, if_neg hout, append_nil]
    exact hwalked.fillings

theorem Walked.nodes_concat (hwalked : Walked endTime freed front (node :: rest) walk)
    (hkept : ¬endTime < node.2.time) :
    walk.nodes = (front ++ [node]).filter (fun node => node.2.time ≤ endTime) ++ rest := by
  rw [filter_concat_of_pos (by simpa using hkept), hwalked.nodes, append_assoc,
    singleton_append]

theorem Walked.freed_concat (hwalked : Walked endTime freed front (node :: rest) walk)
    (hkept : ¬endTime < node.2.time) :
    walk.freed =
      freed ++ ((front ++ [node]).filter fun node => endTime < node.2.time).map Prod.fst := by
  rw [filter_concat_of_neg (by simpa using hkept)]
  exact hwalked.freed

theorem Walked.visit_later (hwalked : Walked endTime freed front (node :: rest) walk)
    (hkept : ¬endTime < node.2.time) (hlater : node.2.time < saveTime endTime) :
    ∃ next, visitAct env endTime walk node = .ok next ∧
      Walked endTime freed (front ++ [node]) rest next := by
  have hout : ¬InHour endTime node.2.time := fun hin => absurd hin.1 (not_le.mpr hlater)
  rw [visitAct, if_neg hkept, if_pos hlater]
  refine ⟨walk, rfl, hwalked.nodes_concat hkept, hwalked.freed_concat hkept, ?_, ?_⟩
  · rw [hourActs_concat, if_neg hout, append_nil]
    exact hwalked.marked
  · rw [hourActs_concat, if_neg hout, append_nil]
    exact hwalked.fillings

theorem Walked.visit_hour (hwalked : Walked endTime freed front (node :: rest) walk)
    (hcategory : node.2.category < anDetailMax) (hin : InHour endTime node.2.time)
    (hroom : (hourActs front endTime).length < maxRuleNum) :
    ∃ next, visitAct env endTime walk node = .ok next ∧
      Walked endTime freed (front ++ [node]) rest next := by
  have hkept := not_lt.mpr hin.2
  have hspace : ¬maxRuleNum ≤ walk.marked.length := by
    rw [hwalked.marked, length_map]
    exact not_le.mpr hroom
  have hfew : (((hourActs front endTime).filter fun other =>
      other.2.category = node.2.category).map Prod.snd).length <
        detailPlan.threshold (walk.fillings node.2.category).block.grown := by
    rw [length_map]
    exact ((length_filter_le _ _).trans_lt hroom).trans_le (maxRuleNum_le_threshold _)
  obtain ⟨filling, hput, hholds, _⟩ := @Filling.Holds.put_within _ _
    (env.moves node.2.category) true _ _ (hwalked.fillings node.2.category) hfew node.2
  rw [visitAct, if_neg hkept, if_neg (not_lt.mpr hin.1), if_neg hspace,
    if_neg (not_le.mpr hcategory), hput]
  refine ⟨_, rfl, hwalked.nodes_concat hkept, hwalked.freed_concat hkept, ?_, ?_⟩
  · change walk.marked ++ [node.1] = _
    rw [hwalked.marked, hourActs_concat, if_pos hin, map_append]
    rfl
  · intro category
    rw [hourActs_concat, if_pos hin]
    change (Function.update walk.fillings node.2.category filling category).Holds _ _
    by_cases hsame : category = node.2.category
    · grind
    · rw [Function.update_of_ne hsame,
        filter_concat_of_neg (by simpa using fun h => hsame h.symm)]
      exact hwalked.fillings category

theorem Walked.visit (hwalked : Walked endTime freed front (node :: rest) walk)
    (hnodup : ((front ++ node :: rest).map Prod.fst).Nodup)
    (hcategory : node.2.category < anDetailMax)
    (hroom : (hourActs (front ++ [node]) endTime).length ≤ maxRuleNum) :
    ∃ next, visitAct env endTime walk node = .ok next ∧
      Walked endTime freed (front ++ [node]) rest next := by
  by_cases hnewer : endTime < node.2.time
  · exact hwalked.visit_newer hnodup hnewer
  · by_cases hlater : node.2.time < saveTime endTime
    · exact hwalked.visit_later hnewer hlater
    · have hin : InHour endTime node.2.time := ⟨not_lt.mp hlater, not_lt.mp hnewer⟩
      rw [hourActs_concat, if_pos hin, length_append, length_singleton] at hroom
      exact hwalked.visit_hour hcategory hin hroom

end Visit

theorem Walked.run {freed : List Nat} {front rest : Nodes DetailAct} {walk : DetailWalk}
    (hwalked : Walked endTime freed front rest walk)
    (hnodup : ((front ++ rest).map Prod.fst).Nodup)
    (hcategory : ∀ node ∈ rest, node.2.category < anDetailMax)
    (hroom : (hourActs (front ++ rest) endTime).length ≤ maxRuleNum) :
    ∃ final, rest.foldlM (visitAct env endTime) walk = .ok final ∧
      Walked endTime freed (front ++ rest) [] final := by
  induction rest generalizing front walk with
  | nil =>
    rw [append_nil]
    exact ⟨walk, rfl, hwalked⟩
  | cons node rest ih =>
    have hsplit : front ++ node :: rest = (front ++ [node]) ++ rest := by
      rw [append_assoc, singleton_append]
    have hfirst : (hourActs (front ++ [node]) endTime).length ≤ maxRuleNum := by
      rw [hsplit, hourActs, filter_append, length_append] at hroom
      exact (Nat.le_add_right _ _).trans hroom
    rw [forall_mem_cons] at hcategory
    obtain ⟨next, hvisit, hnext⟩ := @Walked.visit env _ _ _ _ _ _ hwalked hnodup
      hcategory.1 hfirst
    rw [hsplit] at hnodup hroom ⊢
    obtain ⟨final, hrun, hfinal⟩ := ih hnext hnodup hcategory.2 hroom
    rw [foldlM_cons, hvisit]
    exact ⟨final, hrun, hfinal⟩

theorem Walked.run_full {freed : List Nat} {front rest : Nodes DetailAct} {walk : DetailWalk}
    (hwalked : Walked endTime freed front rest walk)
    (hnodup : ((front ++ rest).map Prod.fst).Nodup)
    (hcategory : ∀ node ∈ rest, node.2.category < anDetailMax)
    (hfront : (hourActs front endTime).length ≤ maxRuleNum)
    (hfull : maxRuleNum < (hourActs (front ++ rest) endTime).length) :
    rest.foldlM (visitAct env endTime) walk = .error .outOfBounds := by
  induction rest generalizing front walk with
  | nil =>
    rw [append_nil] at hfull
    exact absurd hfull (not_lt.mpr hfront)
  | cons node rest ih =>
    have hsplit : front ++ node :: rest = (front ++ [node]) ++ rest := by
      rw [append_assoc, singleton_append]
    rw [forall_mem_cons] at hcategory
    rw [foldlM_cons]
    by_cases hroom : (hourActs (front ++ [node]) endTime).length ≤ maxRuleNum
    · obtain ⟨next, hvisit, hnext⟩ := @Walked.visit env _ _ _ _ _ _ hwalked hnodup
        hcategory.1 hroom
      rw [hsplit] at hnodup hfull
      rw [hvisit]
      exact ih hnext hnodup hcategory.2 hroom hfull
    · have hin : InHour endTime node.2.time := by
        by_contra hout
        rw [hourActs_concat, if_neg hout, append_nil] at hroom
        exact hroom hfront
      rw [hourActs_concat, if_pos hin, length_append, length_singleton] at hroom
      have hlast : maxRuleNum ≤ walk.marked.length := by
        rw [hwalked.marked, length_map]
        omega
      rw [visitAct, if_neg (not_lt.mpr hin.2), if_neg (not_lt.mpr hin.1), if_pos hlast]
      rfl

theorem startWalk_walked {user : DetailUser} {run : DetailRun}
    (hreal : ∀ category, detailPlan.threshold (run.blocks category).grown ≤
      detailPlan.room (run.blocks category).grown) :
    Walked endTime run.freed [] user.actions (startWalk user run) where
  nodes := rfl
  freed := (append_nil _).symm
  marked := rfl
  fillings category := Block.start_holds (hreal category)

end Walk

section Hours

variable {env : DetailEnv} {user : DetailUser} {run : DetailRun}

/-- Addresses are distinct, and categories index the arrays. -/
structure DetailUser.WellFormed (user : DetailUser) : Prop where
  started : user.startTime ≤ user.endTime
  distinct : (user.actions.map Prod.fst).Nodup
  categories : ∀ node ∈ user.actions, node.2.category < anDetailMax

/-- The blocks are as large as they are taken to be. -/
def DetailRun.Real (run : DetailRun) : Prop :=
  ∀ category, detailPlan.threshold (run.blocks category).grown ≤
    detailPlan.room (run.blocks category).grown

/-- The user behind one hour. -/
def DetailUser.nextHour (user : DetailUser) : DetailUser :=
  { user with
    endTime := user.endTime - 3600
    actions := user.actions.filter fun node => node.2.time ≤ user.endTime - 3600 }

/-- What is freed with an hour: what is newer than the list is taken to be, and the actions
of the hour. -/
def hourFreed (actions : Nodes DetailAct) (endTime : Nat) : List Nat :=
  (actions.filter fun node => endTime < node.2.time).map Prod.fst ++
    (hourActs actions endTime).map Prod.fst

theorem kept_iff {endTime time : Nat} :
    ¬endTime < time ∧ ¬InHour endTime time ↔ time ≤ endTime - 3600 := by
  rw [InHour, saveTime]
  omega

theorem hourFreed_perm (actions : Nodes DetailAct) (endTime : Nat) :
    (hourFreed actions endTime ++ (actions.filter fun node =>
      node.2.time ≤ endTime - 3600).map Prod.fst).Perm (actions.map Prod.fst) := by
  have hsplit := filter_append_perm (fun node : Nat × DetailAct =>
    decide (endTime < node.2.time)) actions
  have hrest := filter_append_perm (fun node : Nat × DetailAct =>
    decide (InHour endTime node.2.time))
      (actions.filter fun node => !decide (endTime < node.2.time))
  have hhour : (actions.filter fun node => !decide (endTime < node.2.time)).filter
      (fun node => decide (InHour endTime node.2.time)) = hourActs actions endTime := by
    rw [filter_filter]
    apply filter_congr
    intro node _
    rw [Bool.and_eq_left_iff_imp]
    intro hin
    rw [decide_eq_true_eq] at hin
    simpa using hin.2
  have hkept : (actions.filter fun node => !decide (endTime < node.2.time)).filter
      (fun node => !decide (InHour endTime node.2.time)) =
        actions.filter fun node => node.2.time ≤ endTime - 3600 := by
    rw [filter_filter]
    apply filter_congr
    intro node _
    simp only [← kept_iff, Bool.decide_and, decide_not]
    exact Bool.and_comm _ _
  rw [hhour, hkept] at hrest
  rw [hourFreed, append_assoc, ← map_append, ← map_append]
  exact ((hrest.append_left _).trans hsplit).map _

theorem Walked.value {endTime : Nat} {freed : List Nat} {actions : Nodes DetailAct}
    {walk : DetailWalk} (hwalked : Walked endTime freed actions [] walk) (gid : Int)
    (category : Nat) :
    (⟨gid, .ofNat (walk.fillings category).count, (walk.fillings category).entries⟩ :
      DetailValue) = categoryValue gid (hourActs actions endTime) category := by
  have hholds := hwalked.fillings category
  rw [categoryValue, hholds.count, hholds.entries, length_map, map_map]
  rfl

theorem saveHour_ok (hstored : ∀ call, env.stored call = true) (hwell : user.WellFormed)
    (hreal : run.Real) (hlate : 3600 < user.endTime)
    (hfew : (hourActs user.actions user.endTime).length ≤ maxRuleNum) :
    ∃ blocks, saveHour env user run = .ok (0, user.nextHour,
        ⟨blocks, run.saves ++ [hourSave env user user.endTime],
          run.freed ++ hourFreed user.actions user.endTime⟩) ∧
      DetailRun.Real ⟨blocks, run.saves ++ [hourSave env user user.endTime],
        run.freed ++ hourFreed user.actions user.endTime⟩ := by
  obtain ⟨walk, hwalk, hwalked⟩ := @Walked.run env _ _ _ _ _
    (startWalk_walked hreal) hwell.distinct hwell.categories hfew
  rw [nil_append] at hwalked
  have hnodes := hwalked.nodes
  rw [append_nil] at hnodes
  have hkept : deleteAll walk.nodes walk.marked = some user.nextHour.actions := by
    have hhour : hourActs user.actions user.endTime =
        walk.nodes.filter fun node => decide (InHour user.endTime node.2.time) := by
      rw [hnodes, filter_filter, hourActs]
      apply filter_congr
      intro node _
      rw [eq_comm, Bool.and_eq_left_iff_imp]
      intro hin
      rw [decide_eq_true_eq] at hin
      exact decide_eq_true hin.2
    have hnodup : (walk.nodes.map Prod.fst).Nodup := by
      rw [hnodes]
      exact hwell.distinct.sublist (filter_sublist.map _)
    rw [hwalked.marked, hhour, deleteAll_filter hnodup, hnodes, filter_filter]
    congr 1
    apply filter_congr
    intro node _
    simp only [← kept_iff, Bool.decide_and, decide_not, not_lt]
    exact Bool.and_comm _ _
  refine ⟨fun category => (walk.fillings category).block, ?_, ?_⟩
  · rw [saveHour, hwalk]
    change (if user.endTime = 0 then _ else if env.stored run.saves.length = true then
      (match deleteAll walk.nodes walk.marked with
        | some nodes => _
        | none => _) else _) = _
    rw [if_neg (by omega), if_pos (hstored _), hkept]
    simp only [hwalked.value]
    rw [hwalked.freed, hwalked.marked, append_assoc]
    rfl
  · intro category
    exact (hwalked.fillings category).real

theorem saveHour_overrun (hwell : user.WellFormed) (hreal : run.Real)
    (hfull : maxRuleNum < (hourActs user.actions user.endTime).length) :
    saveHour env user run = .error .outOfBounds := by
  have hwalk := @Walked.run_full env _ _ _ _ _ (startWalk_walked hreal) hwell.distinct
    hwell.categories (Nat.zero_le _) hfull
  rw [saveHour, hwalk]
  rfl

theorem hourEnds_step {startTime endTime : Nat} (hmore : 3600 < endTime - startTime) :
    hourEnds startTime endTime = endTime :: hourEnds startTime (endTime - 3600) := by
  have hrounds : (endTime - startTime - 1) / 3600 =
      (endTime - 3600 - startTime - 1) / 3600 + 1 := by omega
  rw [hourEnds, hourEnds, hrounds, range_succ_eq_map, map_cons, map_map]
  refine cons_eq_cons.mpr ⟨by omega, map_congr_left ?_⟩
  intro round _
  rw [Function.comp_apply]
  omega

theorem hourEnds_eq_nil {startTime endTime : Nat} (hdone : ¬3600 < endTime - startTime) :
    hourEnds startTime endTime = [] := by
  grind [hourEnds.eq_1]

theorem le_of_mem_hourEnds {startTime endTime hourEnd : Nat}
    (hmem : hourEnd ∈ hourEnds startTime endTime) : hourEnd ≤ endTime := by
  obtain ⟨round, _, rfl⟩ := mem_map.mp hmem
  exact Nat.sub_le _ _

theorem hourActs_nextHour {hourEnd : Nat} (hle : hourEnd ≤ user.endTime - 3600) :
    hourActs user.nextHour.actions hourEnd = hourActs user.actions hourEnd := by
  rw [hourActs, DetailUser.nextHour, filter_filter]
  apply filter_congr
  intro node _
  rw [Bool.and_eq_left_iff_imp]
  intro hin
  rw [decide_eq_true_eq] at hin
  exact decide_eq_true (hin.2.trans hle)

theorem DetailUser.WellFormed.nextHour (hwell : user.WellFormed)
    (hmore : 3600 < user.endTime - user.startTime) : user.nextHour.WellFormed where
  started := by
    simp only [DetailUser.nextHour]
    omega
  distinct := hwell.distinct.sublist (filter_sublist.map _)
  categories node hnode := hwell.categories node (mem_of_mem_filter hnode)

theorem lastEnd_step {startTime endTime : Nat} (hmore : 3600 < endTime - startTime) :
    lastEnd startTime (endTime - 3600) = lastEnd startTime endTime := by
  rw [lastEnd, lastEnd, hourEnds_step hmore, length_cons]
  omega

theorem lastEnd_le (startTime endTime : Nat) : lastEnd startTime endTime ≤ endTime :=
  Nat.sub_le _ _

theorem lastEnd_of_done {startTime endTime : Nat} (hdone : ¬3600 < endTime - startTime) :
    lastEnd startTime endTime = endTime := by
  rw [lastEnd, hourEnds_eq_nil hdone]
  exact Nat.sub_zero _

theorem leftActs_step {startTime endTime : Nat} (hmore : 3600 < endTime - startTime)
    (actions : Nodes DetailAct) :
    leftActs startTime (endTime - 3600)
        (actions.filter fun node => node.2.time ≤ endTime - 3600) =
      leftActs startTime endTime actions := by
  rw [leftActs, leftActs, if_pos hmore, ← lastEnd_step hmore]
  by_cases hagain : 3600 < endTime - 3600 - startTime
  · rw [if_pos hagain, filter_filter]
    apply filter_congr
    intro node _
    rw [Bool.and_eq_left_iff_imp]
    intro hkept
    rw [decide_eq_true_eq] at hkept ⊢
    exact hkept.trans (lastEnd_le _ _)
  · rw [if_neg hagain, lastEnd_of_done hagain]

theorem nextHour_startTime (user : DetailUser) : user.nextHour.startTime = user.startTime := by
  rw [DetailUser.nextHour]

theorem nextHour_endTime (user : DetailUser) : user.nextHour.endTime = user.endTime - 3600 := by
  rw [DetailUser.nextHour]

theorem DetailUser.behind_nextHour (hmore : 3600 < user.endTime - user.startTime) :
    user.nextHour.behind = user.behind := by
  simp only [DetailUser.behind, DetailUser.nextHour, lastEnd_step hmore, leftActs_step hmore]

theorem DetailUser.behind_of_done (hdone : ¬3600 < user.endTime - user.startTime) :
    user.behind = user := by
  rw [DetailUser.behind, lastEnd_of_done hdone, leftActs, if_neg hdone]

/-- The hours of a user are saved: one call for each of them, and every action is freed once
or still there. -/
structure HoursSaved (env : DetailEnv) (user : DetailUser) (run : DetailRun)
    (result : Int × DetailUser × DetailRun) : Prop where
  ret : result.1 = 0
  rests : result.2.1 = user.behind
  saves : result.2.2.saves =
    run.saves ++ (hourEnds user.startTime user.endTime).map (hourSave env user)
  real : result.2.2.Real
  freed : ∃ freed, result.2.2.freed = run.freed ++ freed ∧
    (freed ++ user.behind.actions.map Prod.fst).Perm (user.actions.map Prod.fst)

theorem HoursSaved.done (hdone : ¬3600 < user.endTime - user.startTime) (hreal : run.Real) :
    HoursSaved env user run (0, user, run) where
  ret := rfl
  rests := (DetailUser.behind_of_done hdone).symm
  saves := by
    rw [hourEnds_eq_nil hdone, map_nil, append_nil]
  real := hreal
  freed := by
    simp_all [DetailUser.behind_of_done]

theorem hourSave_nextHour {hourEnd : Nat} (hle : hourEnd ≤ user.endTime - 3600) :
    hourSave env user.nextHour hourEnd = hourSave env user hourEnd := by
  simp only [hourSave, hourActs_nextHour hle]
  simp only [DetailUser.nextHour]

theorem HoursSaved.step (hmore : 3600 < user.endTime - user.startTime)
    {blocks : Nat → Block DetailAct} {result : Int × DetailUser × DetailRun}
    (hrest : HoursSaved env user.nextHour
      ⟨blocks, run.saves ++ [hourSave env user user.endTime],
        run.freed ++ hourFreed user.actions user.endTime⟩ result) :
    HoursSaved env user run result := by
  obtain ⟨hret, hrests, hsaves, hreal, freed, hfreed, hperm⟩ := hrest
  have hsame : (hourEnds user.startTime (user.endTime - 3600)).map (hourSave env user.nextHour) =
      (hourEnds user.startTime (user.endTime - 3600)).map (hourSave env user) := by
    apply map_congr_left
    intro hourEnd hmem
    exact hourSave_nextHour (le_of_mem_hourEnds hmem)
  rw [DetailUser.behind_nextHour hmore] at hrests hperm
  rw [nextHour_startTime, nextHour_endTime, hsame, append_assoc, singleton_append,
    ← map_cons, ← hourEnds_step hmore] at hsaves
  refine ⟨hret, hrests, hsaves, hreal, hourFreed user.actions user.endTime ++ freed, ?_, ?_⟩
  · rw [hfreed, append_assoc]
  · rw [append_assoc]
    exact (hperm.append_left _).trans (hourFreed_perm _ _)

theorem saveHours_ok (hstored : ∀ call, env.stored call = true) {fuel : Nat}
    (hfuel : user.endTime ≤ fuel) (hwell : user.WellFormed) (hreal : run.Real)
    (hfew : ∀ hourEnd ∈ hourEnds user.startTime user.endTime,
      (hourActs user.actions hourEnd).length ≤ maxRuleNum) :
    ∃ result, saveHours env fuel user run = .ok result ∧ HoursSaved env user run result := by
  induction fuel generalizing user run with
  | zero => exact ⟨_, rfl, HoursSaved.done (by omega) hreal⟩
  | succ fuel ih =>
    rw [saveHours]
    by_cases hmore : 3600 < user.endTime - user.startTime
    · rw [hourEnds_step hmore, forall_mem_cons] at hfew
      obtain ⟨blocks, hhour, hblocks⟩ :=
        @saveHour_ok env user run hstored hwell hreal (by omega) hfew.1
      have hlater : ∀ hourEnd ∈ hourEnds user.nextHour.startTime user.nextHour.endTime,
          (hourActs user.nextHour.actions hourEnd).length ≤ maxRuleNum := by
        rw [nextHour_startTime, nextHour_endTime]
        grind [hourActs_nextHour, le_of_mem_hourEnds]
      have hless : user.nextHour.endTime ≤ fuel := by
        rw [nextHour_endTime]
        omega
      obtain ⟨result, hrest, hsaved⟩ := ih hless (hwell.nextHour hmore) hblocks hlater
      rw [if_pos hmore, hhour]
      exact ⟨result, hrest, hsaved.step hmore⟩
    · rw [if_neg hmore]
      exact ⟨_, rfl, HoursSaved.done hmore hreal⟩

theorem saveHours_overrun (hstored : ∀ call, env.stored call = true) {fuel : Nat}
    (hfuel : user.endTime ≤ fuel) (hwell : user.WellFormed) (hreal : run.Real) {hourEnd : Nat}
    (hmem : hourEnd ∈ hourEnds user.startTime user.endTime)
    (hfull : maxRuleNum < (hourActs user.actions hourEnd).length) :
    saveHours env fuel user run = .error .outOfBounds := by
  induction fuel generalizing user run with
  | zero =>
    rw [hourEnds_eq_nil (by omega)] at hmem
    exact absurd hmem not_mem_nil
  | succ fuel ih =>
    rw [saveHours]
    by_cases hmore : 3600 < user.endTime - user.startTime
    · rw [if_pos hmore]
      by_cases hfirst : (hourActs user.actions user.endTime).length ≤ maxRuleNum
      · obtain ⟨blocks, hhour, hblocks⟩ :=
          @saveHour_ok env user run hstored hwell hreal (by omega) hfirst
        rw [hourEnds_step hmore, mem_cons] at hmem
        have hlater : hourEnd ∈ hourEnds user.startTime (user.endTime - 3600) := by
          grind
        have hless : user.nextHour.endTime ≤ fuel := by
          rw [nextHour_endTime]
          omega
        rw [hhour]
        refine ih hless (hwell.nextHour hmore) hblocks ?_ ?_
        · rw [nextHour_startTime, nextHour_endTime]
          exact hlater
        · rw [hourActs_nextHour (le_of_mem_hourEnds hlater)]
          exact hfull
      · rw [saveHour_overrun hwell hreal (not_le.mp hfirst)]
        rfl
    · rw [hourEnds_eq_nil hmore] at hmem
      exact absurd hmem not_mem_nil

end Hours

section Users

variable {env : DetailEnv} {run : DetailRun}

/-- The addresses of the actions of all users. -/
def addresses (users : List DetailUser) : List Nat :=
  users.flatMap fun user => user.actions.map Prod.fst

/-- The calls for all hours of all users. -/
def allSaves (env : DetailEnv) (users : List DetailUser) : List HourSave :=
  users.flatMap fun user => (hourEnds user.startTime user.endTime).map (hourSave env user)

structure DetailSaved (env : DetailEnv) (users : List DetailUser) (run : DetailRun)
    (result : Int × List DetailUser × DetailRun) : Prop where
  ret : result.1 = 0
  rests : result.2.1 = users.map DetailUser.behind
  saves : result.2.2.saves = run.saves ++ allSaves env users
  freed : ∃ freed, result.2.2.freed = run.freed ++ freed ∧
    (freed ++ addresses (users.map DetailUser.behind)).Perm (addresses users)

/-- No hour of the users has more actions than the array has room for. -/
def FewPerHour (users : List DetailUser) : Prop :=
  ∀ user ∈ users, ∀ hourEnd ∈ hourEnds user.startTime user.endTime,
    (hourActs user.actions hourEnd).length ≤ maxRuleNum

theorem saveDetailUsers_ok (hstored : ∀ call, env.stored call = true) {users : List DetailUser}
    (hwell : ∀ user ∈ users, user.WellFormed) (hreal : run.Real) (hfew : FewPerHour users) :
    ∃ result, saveDetailUsers env users run = .ok result ∧ DetailSaved env users run result := by
  induction users generalizing run with
  | nil =>
    exact ⟨_, rfl, rfl, rfl, (append_nil _).symm, [], (append_nil _).symm,
      List.Perm.nil⟩
  | cons user users ih =>
    rw [forall_mem_cons] at hwell
    rw [FewPerHour, forall_mem_cons] at hfew
    obtain ⟨⟨ret, after, middle⟩, hhours, hsaved⟩ :=
      @saveHours_ok env user run hstored _ le_rfl hwell.1 hreal hfew.1
    obtain ⟨rfl, rfl, hsaves, hmiddle, freed, hfreed, hperm⟩ := hsaved
    obtain ⟨⟨ret, rest, final⟩, hrest, husers⟩ := ih hwell.2 hmiddle hfew.2
    obtain ⟨hret, hrests, hlater, others, hothers, hkept⟩ := husers
    refine ⟨(ret, user.behind :: rest, final), ?_, hret, congrArg _ hrests, ?_,
      freed ++ others, ?_, ?_⟩
    · rw [saveDetailUsers, hhours]
      change (saveDetailUsers env users middle >>= fun _ => _) = _
      rw [hrest]
      rfl
    · rw [hlater, hsaves, append_assoc]
      rfl
    · rw [hothers, hfreed, append_assoc]
    grind [addresses]

theorem saveDetailUsers_overrun (hstored : ∀ call, env.stored call = true)
    {users : List DetailUser} (hwell : ∀ user ∈ users, user.WellFormed) (hreal : run.Real)
    (hfull : ¬FewPerHour users) : saveDetailUsers env users run = .error .outOfBounds := by
  induction users generalizing run with
  | nil => exact absurd (forall_mem_nil _) hfull
  | cons user users ih =>
    rw [forall_mem_cons] at hwell
    rw [FewPerHour, forall_mem_cons] at hfull
    by_cases hfew : ∀ hourEnd ∈ hourEnds user.startTime user.endTime,
        (hourActs user.actions hourEnd).length ≤ maxRuleNum
    · obtain ⟨⟨ret, after, middle⟩, hhours, hsaved⟩ :=
        @saveHours_ok env user run hstored _ le_rfl hwell.1 hreal hfew
      obtain ⟨rfl, rfl, _, hmiddle, _⟩ := hsaved
      have hrest := ih hwell.2 hmiddle fun hothers => hfull ⟨hfew, hothers⟩
      rw [saveDetailUsers, hhours]
      change (saveDetailUsers env users middle >>= fun _ => _) = _
      rw [hrest]
      rfl
    · push Not at hfew
      obtain ⟨hourEnd, hmem, hmany⟩ := hfew
      rw [saveDetailUsers, saveHours_overrun hstored le_rfl hwell.1 hreal hmem hmany]
      rfl

theorem leftActs_sublist (startTime endTime : Nat) (actions : Nodes DetailAct) :
    (leftActs startTime endTime actions).Sublist actions := by
  rw [leftActs]
  split
  · exact filter_sublist
  · exact List.Sublist.refl _

theorem not_mem_leftActs {startTime endTime hourEnd : Nat} {actions : Nodes DetailAct}
    (hmem : hourEnd ∈ hourEnds startTime endTime) {node : Nat × DetailAct}
    (hnode : node ∈ hourActs actions hourEnd) : node ∉ leftActs startTime endTime actions := by
  have hmore : 3600 < endTime - startTime := by
    by_contra hdone
    rw [hourEnds_eq_nil hdone] at hmem
    exact not_mem_nil hmem
  have hin : InHour hourEnd node.2.time := by
    simpa using (mem_filter.mp hnode).2
  obtain ⟨round, hround, rfl⟩ := mem_map.mp hmem
  rw [mem_range] at hround
  rw [leftActs, if_pos hmore, mem_filter, decide_eq_true_eq]
  rintro ⟨_, hkept⟩
  have hstart := hin.1
  rw [saveTime] at hstart
  rw [lastEnd, hourEnds, length_map, length_range] at hkept
  omega

theorem count_freed {users : List DetailUser} {freed : List Nat}
    (hdistinct : (addresses users).Nodup)
    (hperm : (freed ++ addresses (users.map DetailUser.behind)).Perm (addresses users))
    {user : DetailUser} (huser : user ∈ users) {hourEnd : Nat}
    (hmem : hourEnd ∈ hourEnds user.startTime user.endTime) {node : Nat × DetailAct}
    (hnode : node ∈ hourActs user.actions hourEnd) : freed.count node.1 = 1 := by
  have hon : node ∈ user.actions := mem_of_mem_filter hnode
  have hall : node.1 ∈ addresses users :=
    mem_flatMap.mpr ⟨user, huser, mem_map_of_mem hon⟩
  have hgone : node.1 ∉ addresses (users.map DetailUser.behind) := by
    intro hstill
    obtain ⟨after, hafter, haddress⟩ := mem_flatMap.mp hstill
    obtain ⟨other, hother, rfl⟩ := mem_map.mp hafter
    obtain ⟨kept, hkept, hsame⟩ := mem_map.mp haddress
    have hlists := nodup_flatMap.mp hdistinct
    have hold : kept ∈ other.actions := (leftActs_sublist _ _ _).subset hkept
    by_cases hself : other = user
    · subst hself
      obtain rfl := node_of_address (hlists.1 other hother) hold hon hsame
      exact not_mem_leftActs hmem hnode hkept
    · have hsymm : Std.Symm (Function.onFun List.Disjoint
          fun user : DetailUser => user.actions.map Prod.fst) := ⟨fun _ _ hapart => hapart.symm⟩
      have hapart := hlists.2.forall hother huser hself
      refine hapart (mem_map_of_mem hold) ?_
      rw [hsame]
      exact mem_map_of_mem hon
  grind

/-- There is a record for each hour and category with the actions of the hour in it, they
are freed once, the newer ones are still there, and no array is left. -/
def MovesOnce (env : DetailEnv) (users : List DetailUser)
    (result : Except Fault (Int × List DetailUser × DetailRun)) : Prop :=
  ∃ final run, result = .ok (0, final, run) ∧ final = users.map DetailUser.behind ∧
    run.saves = allSaves env users ∧
    ∀ user ∈ users, ∀ hourEnd ∈ hourEnds user.startTime user.endTime,
      ∀ node ∈ hourActs user.actions hourEnd, run.freed.count node.1 = 1

theorem freshRun_real : freshRun.Real := fun _ => detailPlan.start

/-- The actions are moved exactly if no hour has more than 1024 of them. -/
theorem detailSave_movesOnce_iff (env : DetailEnv) (hallocated : env.allocated = true)
    (hstored : ∀ call, env.stored call = true) (users : List DetailUser)
    (hstarted : ∀ user ∈ users, user.startTime ≤ user.endTime)
    (hcategories : ∀ user ∈ users, ∀ node ∈ user.actions, node.2.category < anDetailMax)
    (hdistinct : (addresses users).Nodup) :
    MovesOnce env users (wwSaveAllUserDetailActToDb env users) ↔
      ∀ user ∈ users, ∀ hourEnd ∈ hourEnds user.startTime user.endTime,
        (hourActs user.actions hourEnd).length ≤ 1024 := by
  have hwell : ∀ user ∈ users, user.WellFormed := by
    intro user huser
    exact ⟨hstarted user huser, (nodup_flatMap.mp hdistinct).1 user huser,
      hcategories user huser⟩
  rw [wwSaveAllUserDetailActToDb, if_pos hallocated]
  constructor
  · rintro ⟨final, run, hresult, _⟩
    by_contra hfull
    rw [saveDetailUsers_overrun hstored hwell freshRun_real hfull] at hresult
    cases hresult
  · intro hfew
    obtain ⟨⟨ret, final, run⟩, hresult, hsaved⟩ :=
      saveDetailUsers_ok hstored hwell freshRun_real hfew
    obtain ⟨rfl, hrests, hsaves, freed, hfreed, hperm⟩ := hsaved
    refine ⟨final, run, hresult, hrests, hsaves, ?_⟩
    intro user huser hourEnd hmem node hnode
    change run.freed = [] ++ freed at hfreed
    rw [hfreed, nil_append]
    exact count_freed hdistinct hperm huser hmem hnode

end Users

namespace DetailSaveWitness

/-- Everything succeeds; days and hours are counted from the start. -/
def calm : DetailEnv where
  allocated := true
  stored _ := true
  moves _ _ := false
  dayOf time := time / 86400
  hourOf time := time / 3600 % 24

def word : CString := ⟨[119], by decide⟩

/-- An action of a category, at a time. -/
def act (time category : Nat) : DetailAct :=
  ⟨time, 1, category, word, word, by decide, by decide⟩

/-- Two actions in the hour that is over, one in the next. -/
def quiet : DetailUser := ⟨1, 3, 0, 7200, [(10, act 7000 1), (11, act 100 2), (12, act 5000 4)]⟩

theorem movesOnce_quiet : MovesOnce calm [quiet] (wwSaveAllUserDetailActToDb calm [quiet]) := by
  refine (detailSave_movesOnce_iff calm rfl (fun _ => rfl) [quiet] (by decide) ?_ ?_).mpr ?_
  · decide
  · decide
  · decide

/-- So many actions in one hour. -/
def crowd (size : Nat) : DetailUser :=
  ⟨1, 3, 0, 7200, (List.range size).map fun address => (address, act 7000 1)⟩

theorem addresses_crowd (size : Nat) : addresses [crowd size] = List.range size := by
  simp [addresses, crowd, Function.comp_def]

theorem crowd_wellFormed (size : Nat) : (crowd size).WellFormed where
  started := Nat.zero_le _
  distinct := by
    grind [crowd, addresses_crowd, nodup_range]
  categories node hnode := by
    obtain ⟨address, _, rfl⟩ := mem_map.mp hnode
    exact (by decide : (act 7000 1).category < anDetailMax)

theorem length_hourActs_crowd (size : Nat) :
    (hourActs (crowd size).actions 7200).length = size := by
  have hall : hourActs (crowd size).actions 7200 = (crowd size).actions := by
    rw [hourActs, filter_eq_self]
    intro node hnode
    obtain ⟨address, _, rfl⟩ := mem_map.mp hnode
    exact (by decide : decide (InHour 7200 7000) = true)
  rw [hall, crowd, length_map, length_range]

/-- The hour has one action more than there is room for. -/
theorem not_movesOnce_crowd : (addresses [crowd 1025]).Nodup ∧
    wwSaveAllUserDetailActToDb calm [crowd 1025] = .error .outOfBounds ∧
    ¬MovesOnce calm [crowd 1025] (wwSaveAllUserDetailActToDb calm [crowd 1025]) := by
  have hfull : ¬FewPerHour [crowd 1025] := by
    intro hfew
    have hmem : 7200 ∈ hourEnds (crowd 1025).startTime (crowd 1025).endTime :=
      (by decide : 7200 ∈ hourEnds 0 7200)
    have hhour := hfew (crowd 1025) mem_cons_self 7200 hmem
    rw [length_hourActs_crowd] at hhour
    exact absurd hhour (by decide)
  have hsave : wwSaveAllUserDetailActToDb calm [crowd 1025] = .error .outOfBounds :=
    saveDetailUsers_overrun (fun _ => rfl)
      (forall_mem_singleton.mpr (crowd_wellFormed 1025)) freshRun_real hfull
  refine ⟨?_, hsave, ?_⟩
  · rw [addresses_crowd]
    exact nodup_range
  · rintro ⟨_, _, hresult, _⟩
    rw [hsave] at hresult
    cases hresult

end DetailSaveWitness

end WaterWall
