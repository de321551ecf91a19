/-
`ww_del_all_analyzer_data` of auto_data_save.c: the half-year clean-up goes
through the users and the groups and delegates to the retention deletes.  The
clean-up of the chat statistics stands behind both loops, where `user` is the
last user of the list, or null.
-/
import WaterWall.AccountSweep

namespace WaterWall

open ByteText List

/-- GMT_REVERS_MASK minus a time. -/
def reversedGmt (gmt : UInt64) : UInt64 :=
  0xffffffff - gmt

/-- AN_DETAIL_MAX. -/
def anDetailMax : Nat := 8

/-- A call of one of the retention deletes. -/
inductive CleanUp where
  | userDbDataByUidTypeGmt (gmt : UInt64) (uid : UInt32) (pre : CString) (type : UInt32)
  | userDbDataByGmtUid (gmt : UInt64) (uid : UInt32) (pre : CString)
  | groupDbDataByGmtGid (gmt : UInt64) (gid : UInt32) (pre : CString)
  | userQqDataByGmtUid (gmt : UInt64) (uid : UInt32) (pre : CString)
  deriving DecidableEq

def CleanUp.cutoff : CleanUp → UInt64
  | .userDbDataByUidTypeGmt gmt _ _ _ => gmt
  | .userDbDataByGmtUid gmt _ _ => gmt
  | .groupDbDataByGmtGid gmt _ _ => gmt
  | .userQqDataByGmtUid gmt _ _ => gmt

/-- The body of the loop over `ww_user_list`. -/
def userCleanUps (tm : UInt64) (uid : UInt32) : List CleanUp :=
  (List.range anDetailMax).map (fun i =>
    .userDbDataByUidTypeGmt tm uid userDetailPre (UInt32.ofNat i)) ++
    [.userDbDataByGmtUid tm uid userCalcPre]

def groupCleanUp (tm : UInt64) (gid : UInt32) : CleanUp :=
  .groupDbDataByGmtGid tm gid usergroupCalcPre

/-- The calls in their order, for the ids of the users and of the groups; `none` is
the access to the id of a null user. -/
def wwDelAllAnalyzerData (gmt : UInt64) (users groups : List UInt32) :
    Option (List CleanUp) := do
  let tm := reversedGmt gmt
  let loops := users.flatMap (userCleanUps tm) ++ groupCleanUp tm 0 ::
    groups.map (groupCleanUp tm)
  let user ← users.getLast?
  some (loops ++ [.userQqDataByGmtUid tm user qqTimePre])

/-- No null user is accessed, every user and every group gets its clean-ups, and every
call has the reversed cutoff. -/
def ReachesAll (gmt : UInt64) (users groups : List UInt32) : Prop :=
  ∃ calls, wwDelAllAnalyzerData gmt users groups = some calls ∧
    (∀ user ∈ users,
      (∀ i < anDetailMax, CleanUp.userDbDataByUidTypeGmt (reversedGmt gmt) user
        userDetailPre (UInt32.ofNat i) ∈ calls) ∧
      CleanUp.userDbDataByGmtUid (reversedGmt gmt) user userCalcPre ∈ calls ∧
      CleanUp.userQqDataByGmtUid (reversedGmt gmt) user qqTimePre ∈ calls) ∧
    (∀ group ∈ 0 :: groups, CleanUp.groupDbDataByGmtGid (reversedGmt gmt) group
      usergroupCalcPre ∈ calls) ∧
    ∀ call ∈ calls, call.cutoff = reversedGmt gmt

section Calls

variable {gmt : UInt64} {users groups : List UInt32} {last : UInt32}

theorem wwDelAllAnalyzerData_eq (hlast : users.getLast? = some last) :
    wwDelAllAnalyzerData gmt users groups =
      some (users.flatMap (userCleanUps (reversedGmt gmt)) ++
        groupCleanUp (reversedGmt gmt) 0 :: groups.map (groupCleanUp (reversedGmt gmt)) ++
        [.userQqDataByGmtUid (reversedGmt gmt) last qqTimePre]) := by
  simp [wwDelAllAnalyzerData, hlast]

theorem cutoff_of_mem_userCleanUps {tm : UInt64} {uid : UInt32} {call : CleanUp}
    (hcall : call ∈ userCleanUps tm uid) : call.cutoff = tm := by
  simp only [userCleanUps, mem_append, mem_map, mem_singleton] at hcall
  rcases hcall with ⟨_, _, rfl⟩ | rfl
  · rfl
  · rfl

theorem qq_mem_calls_iff {uid : UInt32} {tm : UInt64} :
    CleanUp.userQqDataByGmtUid tm uid qqTimePre ∈
        users.flatMap (userCleanUps tm) ++ groupCleanUp tm 0 ::
          groups.map (groupCleanUp tm) ++ [.userQqDataByGmtUid tm last qqTimePre] ↔
      uid = last := by
  simp [userCleanUps, groupCleanUp]

end Calls

/-- The clean-up reaches everyone if there are users and all of them are the last one,
and in no other case. -/
theorem analyzerCleanup_reachesAll_iff (gmt : UInt64) (users groups : List UInt32) :
    ReachesAll gmt users groups ↔
      ∃ last, users.getLast? = some last ∧ ∀ user ∈ users, user = last := by
  constructor
  · rintro ⟨calls, hcalls, husers, _⟩
    grind [wwDelAllAnalyzerData, qq_mem_calls_iff]
  · rintro ⟨last, hlast, hall⟩
    refine ⟨_, wwDelAllAnalyzerData_eq hlast, fun user huser => ⟨?_, ?_, ?_⟩, ?_, ?_⟩
    · grind [userCleanUps]
    · grind [userCleanUps]
    · exact qq_mem_calls_iff.mpr (hall user huser)
    · grind [groupCleanUp]
    · intro call hcall
      simp only [mem_append, mem_flatMap, mem_cons, mem_map,
        not_mem_nil, or_false] at hcall
      rcases hcall with (⟨user, _, hcall⟩ | rfl | ⟨group, _, rfl⟩) | rfl
      · exact cutoff_of_mem_userCleanUps hcall
      · rfl
      · rfl
      · rfl

/-- Of two users only the last one gets the clean-up of the chat statistics. -/
theorem analyzerCleanup_misses_first_user : ¬ ReachesAll 1700000000 [10001, 10002] [] := by
  rintro ⟨calls, hcalls, husers, _⟩
  rw [@wwDelAllAnalyzerData_eq _ _ _ 10002 rfl, Option.some.injEq] at hcalls
  grind [qq_mem_calls_iff]

end WaterWall
