/-
`ww_save_all_user_calc_act_to_db` of auto_data_save.c: the nightly pass over
`ww_user_list` saves every user's record and adds the user's actions to an entry
of the user's group and to one for everybody, group 0.
-/
import WaterWall.GroupTable

namespace WaterWall

open ByteText List Function

universe u v

section Distinct

variable {α : Type u} {κ : Type v} [DecidableEq κ] {entries : List α} {key : α → κ} {entry : α}

theorem modify_eq_map (hnodup : (entries.map key).Nodup) {i : Nat}
    (hentry : entries[i]? = some entry) (change : α → α) :
    entries.modify i change =
      entries.map fun other => if key other = key entry then change other else other := by
  apply List.ext_getElem?
  intro j
  rw [List.getElem?_modify, List.getElem?_map]
  cases hother : entries[j]? with
  | none => rfl
  | some other =>
    by_cases hsame : i = j
    · subst hsame
      obtain rfl := Option.some.inj (hentry.symm.trans hother)
      simp
    · have hkeys : key other ≠ key entry := by
        intro heq
        have hbound : j < (entries.map key).length := by
          rw [List.length_map]
          exact (List.getElem?_eq_some_iff.mp hother).1
        have hpositions : (entries.map key)[j]? = (entries.map key)[i]? := by
          rw [List.getElem?_map, List.getElem?_map, hother, hentry, Option.map_some,
            Option.map_some, heq]
        exact hsame ((List.getElem?_inj hbound hnodup).mp hpositions).symm
      simp [hsame, hkeys]

end Distinct

/-- A user of `ww_user_list`, with the nodes of `action_list`. -/
structure UserActions where
  userId : UInt32
  groupId : UInt32
  dayTime : UInt64
  actions : List ActionNode

/-- An entry of `auto_save_user_group_list`. -/
structure GroupActions where
  groupId : UInt32
  dayTime : UInt64
  table : ActionTable

/-- An `an_user_calc_acts_t`. -/
structure CalcActs where
  gid : UInt32
  userCnt : UInt32
  data : List SavedAct

/-- The rows of the statistics: the ids that stand under PRE_USER_ID in the order of
their keys, the groups under PRE_USER_GROUP, and the records of users and groups by id
and day, the newest first. -/
structure StatDb where
  userIds : List UInt32
  userGroup : UInt32 → Option UInt32
  userCalc : List ((UInt32 × UInt64) × CalcActs)
  groupCalc : List ((UInt32 × UInt64) × CalcActs)

/-- `auto_save_user_group_list`, `auto_save_user_group_user_cnt` and the database. -/
structure NightState where
  groups : List GroupActions
  userCnt : UInt32 → UInt32
  db : StatDb

/-- GROUP_ID_MAX. -/
def groupIdMax : UInt32 := 256

/-- The rules by which an action that is no violation is sorted:
`an_work_rule_t_find_by_type_name_gid_all`, `ww_chat_list` and `ww_move_list`. -/
structure CalcRules where
  work : UInt32 → Bytes → UInt32 → Bool
  chatList : List Bytes
  moveList : List Bytes

def lowerByte (byte : Byte) : Byte :=
  if 65 ≤ byte ∧ byte ≤ 90 then byte + 32 else byte

/-- `strcasecmp(left, right) == 0`. -/
def sameButCase (left right : Bytes) : Bool :=
  left.map lowerByte == right.map lowerByte

/-- `ww_get_category_by_ww_action_list_st`. -/
def wwGetCategory (rules : CalcRules) (act : ActionNode) (gid : UInt32) : UInt32 :=
  if act.category = 1 ∨ act.category = 2 then anCalcAttempt
  else if rules.work 0 act.proText gid || rules.work 1 act.actText gid then 5
  else if act.type = 300 ∨ act.type = otBrowserCloseUrl then 4
  else if rules.chatList.any (sameButCase · act.proText) then 3
  else if rules.moveList.any (sameButCase · act.proText) then 2
  else 6

/-- The entry that is saved for a node. -/
def saveAct (rules : CalcRules) (gid : UInt32) (action : ActionNode) : SavedAct where
  actName := ⟨action.actText.take 47, fun hmem =>
    zero_not_mem_cstr _ (mem_of_mem_take hmem)⟩
  proName := ⟨action.proText.take 31, fun hmem =>
    zero_not_mem_cstr _ (mem_of_mem_take hmem)⟩
  time := action.time
  type := action.type
  category := wwGetCategory rules action gid
  keyClick := action.keyClick
  mouClick := action.mouClick

/-- `ww_auto_save_syn_to_group`, whose result is not looked at. -/
def ActionTable.syn (table : ActionTable) (action : ActionNode) : ActionTable :=
  (table.synToGroup action).getD table

def GroupActions.syn (group : GroupActions) (action : ActionNode) : GroupActions :=
  { group with table := group.table.syn action }

/-- `ww_user_action_find_by_gid`, as a position. -/
def findByGid (groups : List GroupActions) (gid : UInt32) : Option Nat :=
  groups.findIdx? fun group => group.groupId = gid

/-- The position of a user's group, which is added to the list if it is new; `none` is
an entry of the list that is added to it again. -/
def enterGroup (groups : List GroupActions) (all : Nat) (user : UserActions) :
    Option (Nat × List GroupActions) :=
  match findByGid groups user.groupId with
  | some i => if user.groupId = 0 then none else some (i, groups)
  | none =>
    let groups := groups.modify all fun group =>
      if group.dayTime < user.dayTime then { group with dayTime := user.dayTime }
      else group
    some (groups.length, groups ++ [⟨user.groupId, user.dayTime, .empty⟩])

/-- One action goes to the user's group and to everybody's. -/
def synAction (i all : Nat) (groups : List GroupActions) (action : ActionNode) :
    List GroupActions :=
  (groups.modify i (·.syn action)).modify all (·.syn action)

def countUser (userCnt : UInt32 → UInt32) (gid : UInt32) : UInt32 → UInt32 :=
  Function.update userCnt gid (userCnt gid + 1)

/-- The record that is saved for a user. -/
def userRecord (rules : CalcRules) (user : UserActions) : CalcActs :=
  ⟨user.groupId, 0, user.actions.map (saveAct rules user.groupId)⟩

/-- The loop over `ww_user_list`; `stored` tells which calls of `dbmulti_set` succeed. -/
def saveUsers (rules : CalcRules) (stored : Nat → Bool) (all : Nat) :
    Nat → List UserActions → NightState → Option (Int × NightState)
  | _, [], state => some (0, state)
  | call, user :: users, state => do
      let (i, groups) ← enterGroup state.groups all user
      if user.groupId < groupIdMax then
        let state :=
          { state with
            groups := user.actions.foldl (synAction i all) groups
            userCnt := countUser (countUser state.userCnt user.groupId) 0 }
        if stored call then
          saveUsers rules stored all (call + 1) users
            { state with
              db.userCalc := ((user.userId, user.dayTime), userRecord rules user) ::
                state.db.userCalc }
        else some (-1, state)
      else none

/-- `ww_save_all_user_calc_act_to_db`. -/
def wwSaveAllUserCalcActToDb (rules : CalcRules) (stored : Nat → Bool)
    (users : List UserActions) (state : NightState) : Option (Int × NightState) :=
  match findByGid state.groups 0 with
  | some _ => none
  | none =>
    saveUsers rules stored state.groups.length 0 users
      { state with
        groups := state.groups ++ [⟨0, 0, .empty⟩]
        userCnt := fun _ => 0 }

/-- The users whose actions are counted for a group. -/
def membersOf (gid : UInt32) (users : List UserActions) : List UserActions :=
  users.filter fun user => gid = 0 ∨ user.groupId = gid

def memberActions (gid : UInt32) (users : List UserActions) : List ActionNode :=
  (membersOf gid users).flatMap UserActions.actions

/-- There is one entry for group 0 and for each group that occurs, it holds the totals of
its users, and they are counted. -/
structure Conserves (users : List UserActions) (state : NightState) : Prop where
  nodup : (state.groups.map GroupActions.groupId).Nodup
  occurs : ∀ gid, gid ∈ state.groups.map GroupActions.groupId ↔
    gid = 0 ∨ gid ∈ users.map UserActions.groupId
  totals : ∀ group ∈ state.groups,
    group.table.sum = ((memberActions group.groupId users).map ActionNode.totals).sum
  counts : ∀ group ∈ state.groups,
    (state.userCnt group.groupId).toNat = (membersOf group.groupId users).length % 2 ^ 32

section Merging

variable {table : ActionTable} {actions : List ActionNode}

def ActionTable.synAll (table : ActionTable) (actions : List ActionNode) : ActionTable :=
  actions.foldl ActionTable.syn table

theorem synAll_append (table : ActionTable) (front back : List ActionNode) :
    table.synAll (front ++ back) = (table.synAll front).synAll back :=
  foldl_append

theorem syn_eq (hlinked : Linked table) {action : ActionNode} (hcounts : Counts action.type) :
    table.syn action = table.merge
      (table.findByUserNameType action.group.name action.type action.category)
      action.groupNode action.groupNode.index action.totals := by
  rw [ActionTable.syn, synToGroup_eq hcounts]
  · rfl
  · intro id hfind
    exact hlinked.typed id (hlinked.listed _ (mem_of_findByUserNameType hfind))

theorem Linked.syn (hlinked : Linked table) {action : ActionNode}
    (hcounts : Counts action.type) : Linked (table.syn action) := by
  have htype : action.groupNode.type ≠ 0 := hcounts.ne_zero
  rw [syn_eq hlinked hcounts]
  exact hlinked.merge htype _ _ _

theorem sum_syn (hlinked : Linked table) {action : ActionNode}
    (hcounts : Counts action.type) :
    (table.syn action).sum = table.sum + action.totals := by
  have htype : action.groupNode.type ≠ 0 := hcounts.ne_zero
  rw [syn_eq hlinked hcounts]
  apply sum_merge hlinked htype rfl
  intro id hfind
  exact hlinked.listed _ (mem_of_findByUserNameType hfind)

theorem sum_synAll (hlinked : Linked table) (hcounts : ∀ action ∈ actions, Counts action.type) :
    (table.synAll actions).sum = table.sum + (actions.map ActionNode.totals).sum := by
  induction actions generalizing table with
  | nil => simp [ActionTable.synAll]
  | cons action actions ih =>
    rw [forall_mem_cons] at hcounts
    change ((table.syn action).synAll actions).sum = _
    rw [ih (hlinked.syn hcounts.1) hcounts.2, sum_syn hlinked hcounts.1, map_cons,
      sum_cons, add_assoc]

end Merging

def GroupActions.synAll (group : GroupActions) (actions : List ActionNode) : GroupActions :=
  { group with table := group.table.synAll actions }

/-- The entries after some users: everybody's first, then one for each group that has
occurred, each with the actions of its users. -/
structure Tallied (gids : List UInt32) (done : List UserActions)
    (groups : List GroupActions) : Prop where
  first : ∃ rest, groups.map GroupActions.groupId = 0 :: rest
  nodup : (groups.map GroupActions.groupId).Nodup
  occurs : ∀ gid, gid ∈ groups.map GroupActions.groupId ↔ gid = 0 ∨ gid ∈ gids
  tables : ∀ group ∈ groups,
    group.table = ActionTable.empty.synAll (memberActions group.groupId done)

section Groups

variable {done : List UserActions} {groups : List GroupActions} {user : UserActions}
  {gids : List UInt32}

theorem foldl_synAction {i all : Nat} (hne : i ≠ all) (actions : List ActionNode)
    (groups : List GroupActions) :
    actions.foldl (synAction i all) groups =
      (groups.modify i (·.synAll actions)).modify all (·.synAll actions) := by
  induction actions generalizing groups with
  | nil =>
    change groups = (groups.modify i id).modify all id
    rw [modify_id, modify_id]
  | cons action actions ih =>
    rw [foldl_cons, ih, synAction, modify_modify_ne _ _ _ hne.symm,
      modify_modify_eq, modify_modify_eq]
    rfl

theorem membersOf_append (gid : UInt32) (user : UserActions) (done : List UserActions) :
    membersOf gid (done ++ [user]) =
      membersOf gid done ++ if gid = 0 ∨ user.groupId = gid then [user] else [] := by
  rw [membersOf, filter_append, membersOf]
  grind

theorem memberActions_append (gid : UInt32) (user : UserActions) (done : List UserActions) :
    memberActions gid (done ++ [user]) =
      memberActions gid done ++
        if gid = 0 ∨ user.groupId = gid then user.actions else [] := by
  rw [memberActions, membersOf_append, flatMap_append]
  split
  · rw [flatMap_singleton]
    rfl
  · rfl

theorem memberActions_of_not_mem {gid : UInt32} (hgid : gid ≠ 0)
    (hnew : gid ∉ done.map UserActions.groupId) : memberActions gid done = [] := by
  simp_all [membersOf.eq_1, memberActions.eq_1]

theorem Tallied.map (htallied : Tallied gids done groups)
    {change : GroupActions → GroupActions} {later : List UserActions}
    (hgid : ∀ group, (change group).groupId = group.groupId)
    (htable : ∀ group ∈ groups, (change group).table =
      ActionTable.empty.synAll (memberActions group.groupId later)) :
    Tallied gids later (groups.map change) := by
  have hgids : (groups.map change).map GroupActions.groupId =
      groups.map GroupActions.groupId := by
    rw [map_map]
    exact map_congr_left fun group _ => hgid group
  refine ⟨by rw [hgids]; exact htallied.first, by rw [hgids]; exact htallied.nodup,
    by rw [hgids]; exact htallied.occurs, ?_⟩
  grind

theorem Tallied.position (htallied : Tallied gids done groups) :
    ∃ entry, groups[0]? = some entry ∧ entry.groupId = 0 := by
  obtain ⟨rest, hfirst⟩ := htallied.first
  cases groups with
  | nil => cases hfirst
  | cons entry groups =>
    rw [map_cons, List.cons.injEq] at hfirst
    exact ⟨entry, rfl, hfirst.1⟩

theorem Tallied.again (htallied : Tallied gids done groups) {gid : UInt32}
    (hgid : gid ∈ gids) : Tallied (gids ++ [gid]) done groups := by
  refine ⟨htallied.first, htallied.nodup, ?_, htallied.tables⟩
  grind [occurs]

theorem Tallied.raiseDay (htallied : Tallied gids done groups) (dayTime : UInt64) :
    Tallied gids done (groups.modify 0 fun group =>
      if group.dayTime < dayTime then { group with dayTime := dayTime } else group) := by
  obtain ⟨all, hall, _⟩ := htallied.position
  rw [modify_eq_map htallied.nodup hall]
  apply htallied.map
  · intro group
    split_ifs <;> rfl
  · intro group hgroup
    rw [← htallied.tables group hgroup]
    split_ifs <;> rfl

theorem Tallied.concat (htallied : Tallied gids done groups) {gid : UInt32}
    (hgid : gid ≠ 0) (hnew : gid ∉ gids) (hnone : memberActions gid done = [])
    (dayTime : UInt64) :
    Tallied (gids ++ [gid]) done (groups ++ [⟨gid, dayTime, .empty⟩]) := by
  obtain ⟨rest, hfirst⟩ := htallied.first
  refine ⟨⟨rest ++ [gid], ?_⟩, ?_, ?_, ?_⟩
  · rw [map_append, hfirst]
    rfl
  · rw [map_append, map_singleton, ← concat_eq_append, nodup_concat]
    refine ⟨?_, htallied.nodup⟩
    intro hmem
    exact ((htallied.occurs gid).mp hmem).elim hgid hnew
  · intro other
    rw [map_append, mem_append, htallied.occurs, mem_append, or_assoc]
    rfl
  · intro group hgroup
    rw [mem_append, mem_singleton] at hgroup
    rcases hgroup with hold | rfl
    · exact htallied.tables group hold
    · rw [hnone]
      rfl

theorem Tallied.enterGroup (htallied : Tallied (done.map UserActions.groupId) done groups)
    (hgid : user.groupId ≠ 0) :
    ∃ i next, enterGroup groups 0 user = some (i, next) ∧ i ≠ 0 ∧
      (∃ entry, next[i]? = some entry ∧ entry.groupId = user.groupId) ∧
      Tallied ((done ++ [user]).map UserActions.groupId) done next := by
  obtain ⟨all, hall, hallGid⟩ := htallied.position
  rw [WaterWall.enterGroup, findByGid, map_append, map_singleton]
  cases hfind : groups.findIdx? fun group => decide (group.groupId = user.groupId) with
  | some i =>
    rw [List.findIdx?_eq_some_iff_getElem] at hfind
    obtain ⟨hbound, hmatch, _⟩ := hfind
    rw [decide_eq_true_eq] at hmatch
    have hentry : groups[i]? = some groups[i] := List.getElem?_eq_getElem hbound
    have hknown := (htallied.occurs user.groupId).mp
      (hmatch ▸ mem_map_of_mem (getElem_mem hbound))
    refine ⟨i, groups, by simp [hgid], ?_, ⟨groups[i], hentry, hmatch⟩,
      htallied.again (hknown.resolve_left hgid)⟩
    grind
  | none =>
    rw [List.findIdx?_eq_none_iff] at hfind
    have hnew : user.groupId ∉ done.map UserActions.groupId := by
      intro hmem
      obtain ⟨group, hgroup, hsame⟩ :=
        mem_map.mp ((htallied.occurs user.groupId).mpr (Or.inr hmem))
      exact of_decide_eq_false (hfind group hgroup) hsame
    refine ⟨_, _, rfl, ?_, ⟨_, by rw [List.getElem?_concat_length], rfl⟩,
      (htallied.raiseDay user.dayTime).concat hgid hnew
        (memberActions_of_not_mem hgid hnew) user.dayTime⟩
    rw [length_modify]
    intro hzero
    rw [eq_nil_of_length_eq_zero hzero] at hall
    cases hall

theorem Tallied.synActions (htallied : Tallied gids done groups) (hgid : user.groupId ≠ 0)
    {i : Nat} (hne : i ≠ 0) {entry : GroupActions} (hentry : groups[i]? = some entry)
    (hsame : entry.groupId = user.groupId) :
    Tallied gids (done ++ [user]) (user.actions.foldl (synAction i 0) groups) := by
  obtain ⟨all, hall, hallGid⟩ := htallied.position
  have hall' : (groups.modify i (·.synAll user.actions))[0]? = some all := by
    rw [List.getElem?_modify, hall]
    simp [hne]
  have hnodup' : ((groups.modify i (·.synAll user.actions)).map
      GroupActions.groupId).Nodup := by
    rw [modify_eq_map htallied.nodup hentry, map_map]
    convert htallied.nodup using 2
    funext group
    simp only [comp_apply]
    split_ifs <;> rfl
  rw [foldl_synAction hne, modify_eq_map hnodup' hall', modify_eq_map htallied.nodup hentry,
    map_map]
  apply htallied.map
  · intro group
    simp only [comp_apply]
    split_ifs <;> rfl
  · intro group hgroup
    have htable := htallied.tables group hgroup
    rw [memberActions_append, synAll_append, ← htable, comp_apply, hallGid, hsame]
    by_cases hown : group.groupId = user.groupId
    · have hother : group.groupId ≠ 0 := by
        rw [hown]
        exact hgid
      rw [if_pos hown, if_pos (Or.inr hown.symm)]
      exact congrArg GroupActions.table (if_neg hother)
    · rw [if_neg hown]
      by_cases hzero : group.groupId = 0
      · rw [if_pos hzero, if_pos (Or.inl hzero)]
        rfl
      · rw [if_neg hzero, if_neg (not_or.mpr ⟨hzero, Ne.symm hown⟩)]
        rfl

end Groups

/-- The counters after some users. -/
def UsersCounted (done : List UserActions) (userCnt : UInt32 → UInt32) : Prop :=
  ∀ gid, userCnt gid = UInt32.ofNat (membersOf gid done).length

section Night

variable {rules : CalcRules} {stored : Nat → Bool} {done users : List UserActions}
  {user : UserActions} {state final : NightState}

theorem UsersCounted.countUser {userCnt : UInt32 → UInt32}
    (hcounted : UsersCounted done userCnt) (hgid : user.groupId ≠ 0) :
    UsersCounted (done ++ [user]) (countUser (countUser userCnt user.groupId) 0) := by
  intro gid
  have hadd : ∀ n : Nat, UInt32.ofNat (n + 1) = UInt32.ofNat n + 1 := fun n =>
    UInt32.ofNat_add n 1
  rw [membersOf_append, length_append]
  by_cases hzero : gid = 0
  · subst hzero
    rw [if_pos (Or.inl rfl), length_singleton, hadd, ← hcounted 0, WaterWall.countUser,
      update_self, WaterWall.countUser, update_of_ne hgid.symm]
  · rw [WaterWall.countUser, update_of_ne hzero, WaterWall.countUser]
    by_cases hown : gid = user.groupId
    · subst hown
      rw [update_self, if_pos (Or.inr rfl), length_singleton, hadd, hcounted]
    · rw [update_of_ne hown, if_neg (not_or.mpr ⟨hzero, Ne.symm hown⟩), hcounted]
      rfl

theorem saveUsers_cons (htallied : Tallied (done.map UserActions.groupId) done state.groups)
    (hgid : user.groupId ≠ 0 ∧ user.groupId < groupIdMax) (call : Nat) :
    ∃ groups, Tallied ((done ++ [user]).map UserActions.groupId) (done ++ [user]) groups ∧
      saveUsers rules stored 0 call (user :: users) state =
        if stored call then
          saveUsers rules stored 0 (call + 1) users
            { state with
              groups := groups
              userCnt := countUser (countUser state.userCnt user.groupId) 0
              db.userCalc := ((user.userId, user.dayTime), userRecord rules user) ::
                state.db.userCalc }
        else
          some (-1,
            { state with
              groups := groups
              userCnt := countUser (countUser state.userCnt user.groupId) 0 }) := by
  obtain ⟨i, next, henter, hne, ⟨entry, hentry, hsame⟩, hnext⟩ := htallied.enterGroup hgid.1
  refine ⟨_, hnext.synActions hgid.1 hne hentry hsame, ?_⟩
  rw [saveUsers, henter]
  simp only [Option.bind_eq_bind, Option.bind_some, if_pos hgid.2]

theorem saveUsers_tallied
    (htallied : Tallied (done.map UserActions.groupId) done state.groups)
    (hcounted : UsersCounted done state.userCnt)
    (hgids : ∀ user ∈ users, user.groupId ≠ 0 ∧ user.groupId < groupIdMax) {call : Nat}
    (hrun : saveUsers rules stored 0 call users state = some (0, final)) :
    Tallied ((done ++ users).map UserActions.groupId) (done ++ users) final.groups ∧
      UsersCounted (done ++ users) final.userCnt := by
  induction users generalizing done state call with
  | nil =>
    obtain rfl := congrArg Prod.snd (Option.some.inj hrun)
    rw [append_nil]
    exact ⟨htallied, hcounted⟩
  | cons user users ih =>
    rw [forall_mem_cons] at hgids
    obtain ⟨groups, hgroups, hstep⟩ := @saveUsers_cons rules stored done users user state
      htallied hgids.1 call
    rw [hstep] at hrun
    split at hrun
    · have hlater := ih hgroups (hcounted.countUser hgids.1.1) hgids.2 hrun
      rwa [append_assoc, singleton_append] at hlater
    · cases hrun

theorem saveUsers_returns
    (htallied : Tallied (done.map UserActions.groupId) done state.groups)
    (hgids : ∀ user ∈ users, user.groupId ≠ 0 ∧ user.groupId < groupIdMax) {call : Nat}
    (hstored : ∀ later, call ≤ later → later < call + users.length → stored later = true) :
    ∃ final, saveUsers rules stored 0 call users state = some (0, final) := by
  induction users generalizing done state call with
  | nil => exact ⟨state, rfl⟩
  | cons user users ih =>
    rw [forall_mem_cons] at hgids
    rw [length_cons] at hstored
    obtain ⟨groups, hgroups, hstep⟩ := @saveUsers_cons rules stored done users user state
      htallied hgids.1 call
    rw [hstep, if_pos (hstored call le_rfl (by omega))]
    exact ih hgroups hgids.2 fun later hlow hhigh => hstored later (by omega) (by omega)

/-- The state in which the loop starts: there is an entry for everybody. -/
def nightStart (db : StatDb) : NightState :=
  ⟨[⟨0, 0, .empty⟩], fun _ => 0, db⟩

theorem wwSaveAllUserCalcActToDb_eq (userCnt : UInt32 → UInt32) (db : StatDb) :
    wwSaveAllUserCalcActToDb rules stored users ⟨[], userCnt, db⟩ =
      saveUsers rules stored 0 0 users (nightStart db) :=
  rfl

theorem tallied_start (db : StatDb) :
    Tallied (([] : List UserActions).map UserActions.groupId) [] (nightStart db).groups := by
  refine ⟨⟨[], rfl⟩, nodup_singleton _, by simp [nightStart], ?_⟩
  intro group hgroup
  rw [mem_singleton.mp hgroup]
  rfl

theorem counted_start (db : StatDb) : UsersCounted [] (nightStart db).userCnt :=
  fun _ => rfl

theorem counts_memberActions
    (htypes : ∀ user ∈ users, ∀ action ∈ user.actions, Counts action.type) (gid : UInt32) :
    ∀ action ∈ memberActions gid users, Counts action.type := by
  intro action haction
  obtain ⟨user, huser, hmem⟩ := mem_flatMap.mp haction
  exact htypes user (mem_of_mem_filter huser) action hmem

end Night

/-- Starting from no entries, the pass returns 0 when every record is stored, and whenever
it returns 0 the entries hold the totals and the numbers of their users. -/
theorem groupTotals_conserved (rules : CalcRules) (stored : Nat → Bool)
    (users : List UserActions) (userCnt : UInt32 → UInt32) (db : StatDb)
    (hgids : ∀ user ∈ users, user.groupId ≠ 0 ∧ user.groupId < groupIdMax)
    (htypes : ∀ user ∈ users, ∀ action ∈ user.actions, Counts action.type) :
    ((∀ call < users.length, stored call = true) → ∃ final,
      wwSaveAllUserCalcActToDb rules stored users ⟨[], userCnt, db⟩ = some (0, final)) ∧
    ∀ final, wwSaveAllUserCalcActToDb rules stored users ⟨[], userCnt, db⟩ = some (0, final) →
      Conserves users final := by
  rw [wwSaveAllUserCalcActToDb_eq]
  constructor
  · intro hstored
    exact saveUsers_returns (tallied_start db) hgids fun later _ hhigh =>
      hstored later (by omega)
  · intro final hrun
    obtain ⟨htallied, hcounted⟩ :=
      saveUsers_tallied (tallied_start db) (counted_start db) hgids hrun
    rw [nil_append] at htallied hcounted
    refine ⟨htallied.nodup, htallied.occurs, ?_, ?_⟩
    · intro group hgroup
      rw [htallied.tables group hgroup,
        sum_synAll linked_empty (counts_memberActions htypes group.groupId)]
      exact zero_add _
    · intro group _
      rw [hcounted]
      exact UInt32.toNat_ofNat'

namespace TotalsWitness

/-- Two users of group 3 with a window and a URL, and one of group 7 without actions. -/
def users : List UserActions :=
  [⟨10001, 3, 2794967295,
      [⟨strncpy 48 (ascii "chat"), strncpy 32 (ascii "qq.exe"), 60, 151, 5, 7, 0⟩]⟩,
    ⟨10002, 7, 2794967295, []⟩,
    ⟨10003, 3, 2794967295,
      [⟨strncpy 48 (ascii "a.cn"), strncpy 32 (ascii "ie.exe"), 30, 301, 1, 2, 1⟩]⟩]

def rules : CalcRules := ⟨fun _ _ _ => false, [], []⟩

theorem groupTotals_conserved_users :
    ∃ final, wwSaveAllUserCalcActToDb rules (fun _ => true) users
        ⟨[], fun _ => 0, ⟨[], fun _ => none, [], []⟩⟩ = some (0, final) ∧
      Conserves users final := by
  obtain ⟨hreturns, hconserves⟩ := groupTotals_conserved rules (fun _ => true) users
    (fun _ => 0) ⟨[], fun _ => none, [], []⟩ (by decide) (by decide)
  obtain ⟨final, hrun⟩ := hreturns fun _ _ => rfl
  exact ⟨final, hrun, hconserves final hrun⟩

end TotalsWitness

end WaterWall
