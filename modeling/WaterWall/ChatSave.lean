/-
`ww_save_all_user_qq_msg_to_db` of auto_data_save.c: the messages of every chat object of a
user are saved hour by hour.  One block with its header, its size and an offset into it, and
one array of pointers, serve all objects, hours and users.
-/
import WaterWall.DetailSave

namespace WaterWall

open ByteText GrowingBlock NodeList List

/-- The data of an `an_qq_msg_t`, and of the `an_qq_calc_msg_t` that is saved for it; its
texts end inside their arrays. -/
structure QqMsg where
  time : Nat
  userAccount : UInt32
  userName : CString
  objName : CString
  issend : UInt32
  msgLen : UInt32
  data : CString
  userNameFits : userName.text.length < 32
  objNameFits : objName.text.length < 32
  dataFits : data.text.length < msgLen.toNat

/-- An `an_qq_obj_t`. -/
structure QqObj where
  qqAccount : UInt32
  msgNum : UInt32
  endTime : Nat
  msgs : Nodes QqMsg

/-- An `an_qq_user_t`. -/
structure QqUser where
  uid : UInt32
  startTime : Nat
  endTime : Nat
  objs : List QqObj

/-- The value under PRE_USER_QQ_CALC_MSG, with the parts of its key: the header, the length
of the data, and the entries with their places in it. -/
structure ChatRecord where
  uid : UInt32
  qqAccount : UInt32
  day : Nat
  hour : Nat
  time : Nat
  num : UInt32
  len : Int
  writes : List (Int × QqMsg)

/-- The allocations at the start, the calls of `dbget` and `dbmulti_set`, the growths of
`save_datas`, and the calendar. -/
structure ChatEnv where
  allocated : Bool
  got : Nat → Bool
  stored : Nat → Bool
  regrown : Int → Bool
  dayOf : Nat → Nat
  hourOf : Nat → Nat

/-- What lives on from one object to the next: `base_buf_len`, `offset_len` and
`save_datas->time`. -/
structure ChatBlock where
  baseBufLen : Int
  offsetLen : Int
  time : Nat

/-- The bytes behind the header, which has 12; the size is passed as `_u32`. -/
def ChatBlock.room (block : ChatBlock) : Int := (12 + block.baseBufLen) % 2 ^ 32 - 12

/-- The walk over the messages of an object: `save_data` as an offset, `msg_save_len`, what
`del_msg` holds, and the entries that were written. -/
structure ChatWalk where
  block : ChatBlock
  place : Int
  saveLen : Int
  marked : List Nat
  writes : List (Int × QqMsg)

inductive ChatStop where
  | fault (fault : Fault)
  | noMemory

/-- `msg->msg_len + sizeof(an_qq_calc_msg_t)`. -/
def QqMsg.size (msg : QqMsg) : Int := msg.msgLen.toNat + 84

/-- `save_datas->time` behind a message. -/
def stamp (time : Nat) (msg : QqMsg) : Nat :=
  if time = 0 ∨ time < msg.time then msg.time else time

/-- The entry is written where `save_data` points; its text takes a NUL more than it has
characters. -/
def writeMsg (walk : ChatWalk) (saveLen : Int) (node : Nat × QqMsg) : Except ChatStop ChatWalk :=
  if walk.place < 0 ∨ walk.block.room < walk.place + 84 + (node.2.data.text.length + 1) then
    .error (.fault .outOfBounds)
  else
    .ok {
      block := ⟨walk.block.baseBufLen, saveLen, stamp walk.block.time node.2⟩
      place := saveLen
      saveLen := saveLen
      marked := walk.marked ++ [node.1]
      writes := walk.writes ++ [(walk.place, node.2)] }

/-- One message of the walk.  `del_msg` is written before it is enlarged, and `save_datas`
is doubled once, whatever the message needs; `offset_len` is that of the message before, which
may be one of another object. -/
def visitMsg (env : ChatEnv) (endTime : Nat) (walk : ChatWalk) (node : Nat × QqMsg) :
    Except ChatStop ChatWalk :=
  if node.2.time < saveTime endTime then .ok walk
  else if maxRuleNum ≤ walk.marked.length then .error (.fault .outOfBounds)
  else
    let saveLen := (walk.saveLen + node.2.size).bmod (2 ^ 32)
    let baseBufLen := (2 * walk.block.baseBufLen).bmod (2 ^ 32)
    if walk.block.baseBufLen < saveLen then
      if env.regrown baseBufLen then
        writeMsg { walk with
          block := { walk.block with baseBufLen := baseBufLen }
          place := walk.block.offsetLen } saveLen node
      else .error .noMemory
    else writeMsg walk saveLen node

/-- The block, the records, what was freed, and how often `dbget` was called. -/
structure ChatRun where
  block : ChatBlock
  records : List ChatRecord
  freed : List Nat
  gets : Nat

def startMsgs (block : ChatBlock) : ChatWalk := ⟨block, 0, 0, [], []⟩

/-- The body of the loop over `user->qq_list`. -/
def saveObj (env : ChatEnv) (uid : UInt32) (endTime : Nat) (obj : QqObj) (run : ChatRun) :
    Except Fault (Int × QqObj × ChatRun) :=
  if obj.endTime < saveTime endTime then .ok (0, obj, run)
  else if env.got run.gets then
    match obj.msgs.foldlM (visitMsg env endTime) (startMsgs run.block) with
    | .error (.fault fault) => .error fault
    | .error .noMemory => .ok (-1, obj, { run with gets := run.gets + 1 })
    | .ok walk =>
      -- `dbmulti_set` reads `msg_save_len` bytes behind the header
      if walk.saveLen < 0 ∨ walk.block.room < walk.saveLen then .error .outOfBounds
      else
        let record : ChatRecord := ⟨uid, obj.qqAccount, env.dayOf endTime, env.hourOf endTime,
          walk.block.time, .ofNat walk.marked.length, walk.saveLen, walk.writes⟩
        if env.stored run.records.length then
          match deleteAll obj.msgs walk.marked with
          | some msgs => .ok (0,
              { obj with
                msgNum := obj.msgNum - .ofNat walk.marked.length
                endTime := endTime
                msgs := msgs },
              ⟨walk.block, run.records ++ [record], run.freed ++ walk.marked, run.gets + 1⟩)
          | none => .error .useAfterFree
        else .ok (-1, obj,
          ⟨walk.block, run.records ++ [record], run.freed, run.gets + 1⟩)
  else .ok (-1, obj, { run with gets := run.gets + 1 })

def saveObjs (env : ChatEnv) (uid : UInt32) (endTime : Nat) :
    List QqObj → ChatRun → Except Fault (Int × List QqObj × ChatRun)
  | [], run => .ok (0, [], run)
  | obj :: objs, run => do
      let (ret, obj, run) ← saveObj env uid endTime obj run
      if ret = 0 then do
        let (ret, objs, run) ← saveObjs env uid endTime objs run
        return (ret, obj :: objs, run)
      else return (ret, obj :: objs, run)

/-- The hours of a user; the first argument bounds the rounds. -/
def saveChatHours (env : ChatEnv) :
    Nat → QqUser → ChatRun → Except Fault (Int × QqUser × ChatRun)
  | 0, user, run => .ok (0, user, run)
  | fuel + 1, user, run =>
    if 3600 < user.endTime - user.startTime then do
      let (ret, objs, run) ← saveObjs env user.uid user.endTime user.objs run
      if ret = 0 then
        saveChatHours env fuel { user with endTime := user.endTime - 3600, objs := objs } run
      else return (ret, { user with objs := objs }, run)
    else .ok (0, user, run)

/-- The loop over `an_qq_user_list`. -/
def saveChatUsers (env : ChatEnv) :
    List QqUser → ChatRun → Except Fault (Int × List QqUser × ChatRun)
  | [], run => .ok (0, [], run)
  | user :: users, run => do
      let (ret, user, run) ← saveChatHours env user.endTime user run
      if ret = 0 then do
        let (ret, users, run) ← saveChatUsers env users run
        return (ret, user :: users, run)
      else return (ret, user :: users, run)

def freshChatRun : ChatRun := ⟨⟨102400, 0, 0⟩, [], [], 0⟩

/-- `ww_save_all_user_qq_msg_to_db`. -/
def wwSaveAllUserQqMsgToDb (env : ChatEnv) (users : List QqUser) :
    Except Fault (Int × List QqUser × ChatRun) :=
  if env.allocated then saveChatUsers env users freshChatRun else .ok (-1, users, freshChatRun)

/-- An object that is saved for an hour, with its list as it is then. -/
structure ChatVisit where
  uid : UInt32
  qqAccount : UInt32
  endTime : Nat
  msgs : Nodes QqMsg

/-- The messages that the walk takes: those of the hour and newer ones. -/
def takenMsgs (endTime : Nat) (msgs : Nodes QqMsg) : Nodes QqMsg :=
  msgs.filter fun node => saveTime endTime ≤ node.2.time

def ChatVisit.taken (visit : ChatVisit) : List QqMsg :=
  (takenMsgs visit.endTime visit.msgs).map Prod.snd

/-- The messages of the hour. -/
def ChatVisit.own (visit : ChatVisit) : List QqMsg :=
  (visit.msgs.filter fun node => InHour visit.endTime node.2.time).map Prod.snd

/-- The object behind an hour. -/
def QqObj.past (endTime : Nat) (obj : QqObj) : QqObj :=
  if obj.endTime < saveTime endTime then obj
  else
    { obj with
      msgNum := obj.msgNum - .ofNat (takenMsgs endTime obj.msgs).length
      endTime := endTime
      msgs := obj.msgs.filter fun node => !decide (saveTime endTime ≤ node.2.time) }

def QqUser.nextHour (user : QqUser) : QqUser :=
  { user with endTime := user.endTime - 3600, objs := user.objs.map (QqObj.past user.endTime) }

/-- An object is saved for an hour or left for a later one. -/
def objVisit (uid : UInt32) (endTime : Nat) (obj : QqObj) : List ChatVisit :=
  if obj.endTime < saveTime endTime then [] else [⟨uid, obj.qqAccount, endTime, obj.msgs⟩]

def hourVisits : Nat → QqUser → List ChatVisit
  | 0, _ => []
  | fuel + 1, user =>
    if 3600 < user.endTime - user.startTime then
      user.objs.flatMap (objVisit user.uid user.endTime) ++ hourVisits fuel user.nextHour
    else []

/-- All that is saved, in order. -/
def chatVisits (users : List QqUser) : List ChatVisit :=
  users.flatMap fun user => hourVisits user.endTime user

/-- The length of the entries of some messages. -/
def totalSize (msgs : List QqMsg) : Int := (msgs.map QqMsg.size).sum

/-- The entries one behind the other. -/
def layout (place : Int) : List QqMsg → List (Int × QqMsg)
  | [] => []
  | msg :: msgs => (place, msg) :: layout (place + msg.size) msgs

/-- The largest of the times. -/
def latest (msgs : List QqMsg) : Nat := (msgs.map QqMsg.time).foldr max 0

/-- The record for some messages, in a block whose header has a time already. -/
def chatRecord (env : ChatEnv) (time : Nat) (visit : ChatVisit) (msgs : List QqMsg) :
    ChatRecord where
  uid := visit.uid
  qqAccount := visit.qqAccount
  day := env.dayOf visit.endTime
  hour := env.hourOf visit.endTime
  time := max time (latest msgs)
  num := .ofNat msgs.length
  len := totalSize msgs
  writes := layout 0 msgs

/-- The records as they come out, with the time of the header carried along. -/
def chatRecords (env : ChatEnv) : Nat → List ChatVisit → List ChatRecord
  | _, [] => []
  | time, visit :: visits =>
    chatRecord env time visit visit.taken ::
      chatRecords env (max time (latest visit.taken)) visits

/-- The record that depends on the messages of the hour only. -/
def ownRecord (env : ChatEnv) (visit : ChatVisit) : ChatRecord :=
  chatRecord env 0 visit visit.own

/-- The size of the block behind some messages, if each growth is large enough and finds the
offset of the message before. -/
def growth (base offset total : Int) : List QqMsg → Option Int
  | [] => some base
  | msg :: msgs =>
    let next := total + msg.size
    if next ≤ base then growth base next next msgs
    else if offset = total ∧ next ≤ 2 * base ∧ 12 + 2 * base < 2 ^ 31 then
      growth (2 * base) next next msgs
    else none

/-- `base_buf_len` and `offset_len` behind an object, if its messages have room. -/
def roomPast (room : Int × Int) (visit : ChatVisit) : Option (Int × Int) :=
  if visit.taken.length ≤ maxRuleNum then
    (growth room.1 room.2 0 visit.taken).map fun base =>
      (base, if visit.taken.isEmpty then room.2 else totalSize visit.taken)
  else none

/-- Every object's messages have room. -/
def Roomy (users : List QqUser) : Prop :=
  ((chatVisits users).foldlM roomPast (102400, 0)).isSome

instance (users : List QqUser) : Decidable (Roomy users) :=
  inferInstanceAs (Decidable (_ = true))

section Walk

variable {env : ChatEnv} {endTime : Nat}

theorem size_pos (msg : QqMsg) : 84 < msg.size := by
  have hfits := msg.dataFits
  rw [QqMsg.size]
  omega

theorem totalSize_cons (msg : QqMsg) (msgs : List QqMsg) :
    totalSize (msg :: msgs) = msg.size + totalSize msgs := by
  rw [totalSize, map_cons, sum_cons, totalSize]

theorem stamp_eq_max (time : Nat) (msg : QqMsg) : stamp time msg = max time msg.time := by
  rw [stamp]
  split <;> omega

theorem bmod_of_small {len : Int} (hpos : 0 ≤ len) (hsmall : len < 2 ^ 31) :
    len.bmod (2 ^ 32) = len :=
  Int.bmod_eq_of_le (by omega) (by omega)

theorem room_of_small {block : ChatBlock} (hpos : 0 ≤ block.baseBufLen)
    (hsmall : 12 + block.baseBufLen < 2 ^ 31) : block.room = block.baseBufLen := by
  rw [ChatBlock.room, Int.emod_eq_of_lt (by omega) (by omega)]
  omega

/-- The size of the block is one the code can work with. -/
structure ChatBlock.Sound (block : ChatBlock) : Prop where
  pos : 0 ≤ block.baseBufLen
  small : 12 + block.baseBufLen < 2 ^ 31

/-- The walk behind some messages. -/
def ChatWalk.past (walk : ChatWalk) (base : Int) (nodes : Nodes QqMsg) : ChatWalk where
  block :=
    { baseBufLen := base
      offsetLen := if nodes.isEmpty then walk.block.offsetLen
        else walk.saveLen + totalSize (nodes.map Prod.snd)
      time := max walk.block.time (latest (nodes.map Prod.snd)) }
  place := walk.saveLen + totalSize (nodes.map Prod.snd)
  saveLen := walk.saveLen + totalSize (nodes.map Prod.snd)
  marked := walk.marked ++ nodes.map Prod.fst
  writes := walk.writes ++ layout walk.saveLen (nodes.map Prod.snd)

theorem ChatWalk.past_nil {walk : ChatWalk} (hplace : walk.place = walk.saveLen) :
    walk.past walk.block.baseBufLen [] = walk := by
  obtain ⟨⟨base, offset, time⟩, place, saveLen, marked, writes⟩ := walk
  grind [past, totalSize, latest, layout]

theorem ChatWalk.past_cons (walk : ChatWalk) (middle base : Int) (node : Nat × QqMsg)
    (nodes : Nodes QqMsg) :
    (walk.past middle [node]).past base nodes = walk.past base (node :: nodes) := by
  cases nodes with
  | nil => simp [ChatWalk.past, totalSize, latest, layout]
  | cons other nodes =>
    simp [ChatWalk.past, totalSize, latest, layout, add_assoc, max_assoc]

theorem writeMsg_ok {walk : ChatWalk} {node : Nat × QqMsg} {base : Int}
    (hlen : 0 ≤ walk.saveLen) (hbase : walk.saveLen + node.2.size ≤ base)
    (hsmall : 12 + base < 2 ^ 31) :
    writeMsg { walk with
      block := { walk.block with baseBufLen := base }
      place := walk.saveLen } (walk.saveLen + node.2.size) node = .ok (walk.past base [node]) := by
  have hsize := size_pos node.2
  have hroom : ({ walk.block with baseBufLen := base } : ChatBlock).room = base :=
    room_of_small (show 0 ≤ base by omega) hsmall
  have hinside : ¬(walk.saveLen < 0 ∨
      base < walk.saveLen + 84 + (node.2.data.text.length + 1)) := by
    have hfits := node.2.dataFits
    rw [QqMsg.size] at hbase
    omega
  rw [writeMsg, hroom, if_neg hinside, stamp_eq_max]
  simp [ChatWalk.past, totalSize, latest, layout]

theorem visitMsg_ok (hregrown : ∀ base, env.regrown base = true) {walk : ChatWalk}
    {node : Nat × QqMsg} {msgs : List QqMsg} {final : Int}
    (htaken : saveTime endTime ≤ node.2.time) (hfew : walk.marked.length < maxRuleNum)
    (hplace : walk.place = walk.saveLen) (hlen : 0 ≤ walk.saveLen) (hsound : walk.block.Sound)
    (hgrowth : growth walk.block.baseBufLen walk.block.offsetLen walk.saveLen
      (node.2 :: msgs) = some final) :
    ∃ base, visitMsg env endTime walk node = .ok (walk.past base [node]) ∧
      walk.saveLen + node.2.size ≤ base ∧ 12 + base < 2 ^ 31 ∧
      growth base (walk.saveLen + node.2.size) (walk.saveLen + node.2.size) msgs =
        some final := by
  have hsize := size_pos node.2
  have hpos := hsound.pos
  have hsmall := hsound.small
  rw [growth] at hgrowth
  rw [visitMsg, if_neg (not_lt.mpr htaken), if_neg (not_le.mpr hfew)]
  by_cases hfits : walk.saveLen + node.2.size ≤ walk.block.baseBufLen
  · have hwrite := writeMsg_ok hlen hfits hsmall
    rw [← hplace] at hwrite
    rw [if_pos hfits] at hgrowth
    refine ⟨walk.block.baseBufLen, ?_, hfits, hsmall, hgrowth⟩
    simp only [bmod_of_small (show 0 ≤ walk.saveLen + node.2.size by omega) (by omega)]
    rw [if_neg (not_lt.mpr hfits), ← hplace]
    exact hwrite
  · rw [if_neg hfits] at hgrowth
    split at hgrowth
    case isTrue hroom =>
      obtain ⟨hoffset, hdouble, hlimit⟩ := hroom
      have hwrite := @writeMsg_ok walk node _ hlen hdouble hlimit
      grind
    case isFalse => cases hgrowth

theorem foldlM_visitMsg (hregrown : ∀ base, env.regrown base = true) {walk : ChatWalk}
    {msgs : Nodes QqMsg} {final : Int}
    (hfew : walk.marked.length + (takenMsgs endTime msgs).length ≤ maxRuleNum)
    (hplace : walk.place = walk.saveLen) (hlen : 0 ≤ walk.saveLen)
    (hinside : walk.saveLen ≤ walk.block.baseBufLen) (hsound : walk.block.Sound)
    (hgrowth : growth walk.block.baseBufLen walk.block.offsetLen walk.saveLen
      ((takenMsgs endTime msgs).map Prod.snd) = some final) :
    msgs.foldlM (visitMsg env endTime) walk =
        .ok (walk.past final (takenMsgs endTime msgs)) ∧
      0 ≤ walk.saveLen + totalSize ((takenMsgs endTime msgs).map Prod.snd) ∧
      walk.saveLen + totalSize ((takenMsgs endTime msgs).map Prod.snd) ≤ final ∧
      12 + final < 2 ^ 31 := by
  induction msgs generalizing walk with
  | nil =>
    obtain rfl : walk.block.baseBufLen = final := Option.some.inj hgrowth
    refine ⟨?_, ?_, ?_, hsound.small⟩
    · rw [takenMsgs, filter_nil, ChatWalk.past_nil hplace]
      rfl
    · simpa [takenMsgs, totalSize] using hlen
    · simpa [takenMsgs, totalSize] using hinside
  | cons node msgs ih =>
    by_cases htaken : saveTime endTime ≤ node.2.time
    · have hcons : takenMsgs endTime (node :: msgs) = node :: takenMsgs endTime msgs :=
        filter_cons_of_pos (by simpa using htaken)
      rw [hcons, map_cons] at hgrowth
      rw [hcons, length_cons] at hfew
      obtain ⟨base, hvisit, hbase, hsmall, hrest⟩ := visitMsg_ok hregrown htaken (by omega)
        hplace hlen hsound hgrowth
      have hsize := size_pos node.2
      have hnext : (walk.past base [node]).saveLen = walk.saveLen + node.2.size := by
        simp [ChatWalk.past, totalSize]
      have hoffset : (walk.past base [node]).block.offsetLen =
          walk.saveLen + node.2.size := by
        simp [ChatWalk.past, totalSize]
      obtain ⟨hrun, hpos, hend, hlast⟩ := @ih (walk.past base [node])
        (by simp only [ChatWalk.past, length_append, map_cons, map_nil,
              length_singleton]
            omega)
        rfl (by omega) (by rw [hnext]; exact hbase) ⟨by change 0 ≤ base; omega, hsmall⟩
        (by rw [hnext, hoffset]; exact hrest)
      rw [hnext] at hpos hend
      rw [foldlM_cons, hvisit, hcons, map_cons, totalSize_cons, ← add_assoc]
      refine ⟨?_, hpos, hend, hlast⟩
      rw [← ChatWalk.past_cons walk base final node]
      exact hrun
    · have hcons : takenMsgs endTime (node :: msgs) = takenMsgs endTime msgs :=
        filter_cons_of_neg (by simpa using htaken)
      rw [hcons] at hgrowth hfew ⊢
      rw [foldlM_cons, visitMsg, if_pos (not_le.mp htaken)]
      exact ih hfew hplace hlen hinside hsound hgrowth

end Walk

section Runs

variable {env : ChatEnv} {run middle final : ChatRun}

def ChatBlock.roomPair (block : ChatBlock) : Int × Int := (block.baseBufLen, block.offsetLen)

/-- The time of the header behind some objects. -/
def timePast (time : Nat) (visits : List ChatVisit) : Nat :=
  visits.foldl (fun time visit => max time (latest visit.taken)) time

theorem chatRecords_append (time : Nat) (visits others : List ChatVisit) :
    chatRecords env time (visits ++ others) =
      chatRecords env time visits ++ chatRecords env (timePast time visits) others := by
  induction visits generalizing time with
  | nil => rfl
  | cons visit visits ih => rw [cons_append, chatRecords, ih, chatRecords, cons_append,
      timePast, timePast, foldl_cons]

/-- Some objects are saved, each from what the ones before it left. -/
structure ChatPast (env : ChatEnv) (run : ChatRun) (visits : List ChatVisit) (final : ChatRun) :
    Prop where
  room : visits.foldlM roomPast run.block.roomPair = some final.block.roomPair
  time : final.block.time = timePast run.block.time visits
  records : final.records = run.records ++ chatRecords env run.block.time visits
  sound : final.block.Sound

theorem ChatPast.refl (hsound : run.block.Sound) : ChatPast env run [] run :=
  ⟨rfl, rfl, (append_nil _).symm, hsound⟩

theorem ChatPast.trans {visits others : List ChatVisit} (hfirst : ChatPast env run visits middle)
    (hrest : ChatPast env middle others final) : ChatPast env run (visits ++ others) final where
  room := by
    rw [foldlM_append, hfirst.room]
    exact hrest.room
  time := by
    rw [hrest.time, hfirst.time, timePast, timePast, timePast, foldl_append]
  records := by
    rw [hrest.records, hfirst.records, hfirst.time, chatRecords_append, append_assoc]
  sound := hrest.sound

theorem isSome_foldlM_append {room : Int × Int} {visits others : List ChatVisit}
    (hroom : ((visits ++ others).foldlM roomPast room).isSome) :
    (visits.foldlM roomPast room).isSome ∧
      ∀ next, visits.foldlM roomPast room = some next → (others.foldlM roomPast next).isSome := by
  rw [foldlM_append] at hroom
  cases hfirst : visits.foldlM roomPast room with
  | none =>
    rw [hfirst] at hroom
    cases hroom
  | some next =>
    rw [hfirst] at hroom
    refine ⟨rfl, ?_⟩
    rintro _ ⟨⟩
    exact hroom

theorem foldlM_roomPast_singleton (room : Int × Int) (visit : ChatVisit) :
    [visit].foldlM roomPast room = roomPast room visit := by
  rw [foldlM_cons]
  exact bind_pure _

/-- All operations succeed. -/
structure ChatEnv.Succeeds (env : ChatEnv) : Prop where
  got : ∀ call, env.got call = true
  stored : ∀ call, env.stored call = true
  regrown : ∀ base, env.regrown base = true

/-- The walk over the messages of a visit, behind the last of them. -/
def visitWalk (block : ChatBlock) (base : Int) (visit : ChatVisit) : ChatWalk :=
  (startMsgs block).past base (takenMsgs visit.endTime visit.msgs)

theorem visitWalk_saveLen (block : ChatBlock) (base : Int) (visit : ChatVisit) :
    (visitWalk block base visit).saveLen = totalSize visit.taken :=
  zero_add _

theorem visitWalk_marked (block : ChatBlock) (base : Int) (visit : ChatVisit) :
    (visitWalk block base visit).marked =
      (takenMsgs visit.endTime visit.msgs).map Prod.fst :=
  nil_append _

theorem visitWalk_writes (block : ChatBlock) (base : Int) (visit : ChatVisit) :
    (visitWalk block base visit).writes = layout 0 visit.taken :=
  nil_append _

theorem visitWalk_roomPair (block : ChatBlock) (base : Int) (visit : ChatVisit) :
    (visitWalk block base visit).block.roomPair =
      (base, if visit.taken.isEmpty then block.offsetLen else totalSize visit.taken) := by
  simp [visitWalk, startMsgs, ChatWalk.past, ChatBlock.roomPair, ChatVisit.taken]

theorem walk_of_roomPast (hsucceeds : env.Succeeds) {block : ChatBlock} {visit : ChatVisit}
    (hsound : block.Sound) (hroom : (roomPast block.roomPair visit).isSome) :
    ∃ base, roomPast block.roomPair visit = some (visitWalk block base visit).block.roomPair ∧
      visit.msgs.foldlM (visitMsg env visit.endTime) (startMsgs block) =
        .ok (visitWalk block base visit) ∧
      0 ≤ totalSize visit.taken ∧ totalSize visit.taken ≤ base ∧ 12 + base < 2 ^ 31 := by
  obtain ⟨room, hpast⟩ := Option.isSome_iff_exists.mp hroom
  rw [roomPast] at hpast ⊢
  split at hpast
  case isFalse => cases hpast
  case isTrue hfew =>
    obtain ⟨base, hgrowth, _⟩ := Option.map_eq_some_iff.mp hpast
    rw [if_pos hfew, hgrowth]
    rw [ChatVisit.taken, length_map] at hfew
    obtain ⟨hwalk, hpos, hend, hsmall⟩ := @foldlM_visitMsg env visit.endTime hsucceeds.regrown
      (startMsgs block) visit.msgs base (by simpa [startMsgs] using hfew) rfl le_rfl
      hsound.pos hsound hgrowth
    refine ⟨base, ?_, hwalk, ?_, ?_, hsmall⟩
    · rw [visitWalk_roomPair]
      rfl
    · exact hpos.trans_eq (visitWalk_saveLen block base visit)
    · exact (visitWalk_saveLen block base visit).symm.trans_le hend

theorem saveObj_ok (hsucceeds : env.Succeeds) {uid : UInt32} {endTime : Nat} {obj : QqObj}
    (hdistinct : (obj.msgs.map Prod.fst).Nodup) (hsound : run.block.Sound)
    (hroom : ((objVisit uid endTime obj).foldlM roomPast run.block.roomPair).isSome) :
    ∃ final, saveObj env uid endTime obj run = .ok (0, obj.past endTime, final) ∧
      ChatPast env run (objVisit uid endTime obj) final := by
  rw [saveObj, QqObj.past]
  rw [objVisit] at hroom ⊢
  by_cases hskip : obj.endTime < saveTime endTime
  · rw [if_pos hskip, if_pos hskip, if_pos hskip]
    exact ⟨run, rfl, ChatPast.refl hsound⟩
  · let visit : ChatVisit := ⟨uid, obj.qqAccount, endTime, obj.msgs⟩
    rw [if_neg hskip, foldlM_roomPast_singleton] at hroom
    rw [if_neg hskip, if_neg hskip, if_neg hskip, if_pos (hsucceeds.got _)]
    obtain ⟨base, hpair, hwalk, hpos, hend, hsmall⟩ := walk_of_roomPast hsucceeds hsound hroom
    have hblock : (visitWalk run.block base visit).block.room = base :=
      room_of_small (show 0 ≤ base by omega) hsmall
    have hread : ¬(totalSize visit.taken < 0 ∨ base < totalSize visit.taken) :=
      not_or.mpr ⟨not_lt.mpr hpos, not_lt.mpr hend⟩
    have hdelete : deleteAll obj.msgs ((takenMsgs endTime obj.msgs).map Prod.fst) =
        some (obj.msgs.filter fun node => !decide (saveTime endTime ≤ node.2.time)) :=
      deleteAll_filter hdistinct _
    refine ⟨⟨(visitWalk run.block base visit).block,
      run.records ++ [chatRecord env run.block.time visit visit.taken],
      run.freed ++ (takenMsgs endTime obj.msgs).map Prod.fst, run.gets + 1⟩, ?_, ?_, rfl, rfl, ?_⟩
    · rw [hwalk]
      simp only [visitWalk_saveLen, visitWalk_marked, visitWalk_writes]
      rw [hblock, if_neg hread, if_pos (hsucceeds.stored _), hdelete]
      simp only [length_map, chatRecord, ChatVisit.taken, visit]
      rfl
    · rw [foldlM_roomPast_singleton]
      exact hpair
    · exact ⟨show 0 ≤ base by omega, hsmall⟩

/-- The list does not start behind its end (times are unsigned), and the nodes of an object
are distinct. -/
structure QqUser.WellFormed (user : QqUser) : Prop where
  started : user.startTime ≤ user.endTime
  distinct : ∀ obj ∈ user.objs, (obj.msgs.map Prod.fst).Nodup

theorem saveObjs_ok (hsucceeds : env.Succeeds) {uid : UInt32} {endTime : Nat}
    {objs : List QqObj} (hdistinct : ∀ obj ∈ objs, (obj.msgs.map Prod.fst).Nodup)
    (hsound : run.block.Sound)
    (hroom : ((objs.flatMap (objVisit uid endTime)).foldlM roomPast
      run.block.roomPair).isSome) :
    ∃ final, saveObjs env uid endTime objs run = .ok (0, objs.map (QqObj.past endTime), final) ∧
      ChatPast env run (objs.flatMap (objVisit uid endTime)) final := by
  induction objs generalizing run with
  | nil => exact ⟨run, rfl, ChatPast.refl hsound⟩
  | cons obj objs ih =>
    rw [forall_mem_cons] at hdistinct
    rw [flatMap_cons] at hroom ⊢
    obtain ⟨hfirst, hothers⟩ := isSome_foldlM_append hroom
    obtain ⟨middle, hobj, hpast⟩ := saveObj_ok hsucceeds hdistinct.1 hsound hfirst
    obtain ⟨final, hobjs, hrest⟩ := ih hdistinct.2 hpast.sound (hothers _ hpast.room)
    refine ⟨final, ?_, hpast.trans hrest⟩
    rw [saveObjs, hobj]
    change (saveObjs env uid endTime objs middle >>= fun _ => _) = _
    rw [hobjs]
    rfl

theorem QqUser.WellFormed.nextHour {user : QqUser} (hwell : user.WellFormed)
    (hmore : 3600 < user.endTime - user.startTime) : user.nextHour.WellFormed where
  started := by
    simp only [QqUser.nextHour]
    omega
  distinct after hafter := by
    obtain ⟨obj, hobj, rfl⟩ := mem_map.mp hafter
    rw [QqObj.past]
    split
    · exact hwell.distinct obj hobj
    · exact (hwell.distinct obj hobj).sublist (filter_sublist.map _)

theorem saveChatHours_ok (hsucceeds : env.Succeeds) {fuel : Nat} {user : QqUser}
    (hwell : user.WellFormed) (hsound : run.block.Sound)
    (hroom : ((hourVisits fuel user).foldlM roomPast run.block.roomPair).isSome) :
    ∃ after final, saveChatHours env fuel user run = .ok (0, after, final) ∧
      ChatPast env run (hourVisits fuel user) final := by
  induction fuel generalizing user run with
  | zero => exact ⟨user, run, rfl, ChatPast.refl hsound⟩
  | succ fuel ih =>
    rw [hourVisits] at hroom ⊢
    rw [saveChatHours]
    by_cases hmore : 3600 < user.endTime - user.startTime
    · rw [if_pos hmore] at hroom
      rw [if_pos hmore, if_pos hmore]
      obtain ⟨hfirst, hothers⟩ := isSome_foldlM_append hroom
      obtain ⟨middle, hobjs, hpast⟩ := saveObjs_ok hsucceeds hwell.distinct hsound hfirst
      obtain ⟨after, final, hrest, hlater⟩ :=
        ih (hwell.nextHour hmore) hpast.sound (hothers _ hpast.room)
      refine ⟨after, final, ?_, hpast.trans hlater⟩
      rw [hobjs]
      exact hrest
    simp_all [if_neg, ChatPast.refl]

theorem saveChatUsers_ok (hsucceeds : env.Succeeds) {users : List QqUser}
    (hwell : ∀ user ∈ users, user.WellFormed) (hsound : run.block.Sound)
    (hroom : ((chatVisits users).foldlM roomPast run.block.roomPair).isSome) :
    ∃ rests final, saveChatUsers env users run = .ok (0, rests, final) ∧
      ChatPast env run (chatVisits users) final := by
  induction users generalizing run with
  | nil => exact ⟨[], run, rfl, ChatPast.refl hsound⟩
  | cons user users ih =>
    rw [forall_mem_cons] at hwell
    rw [chatVisits, flatMap_cons] at hroom ⊢
    obtain ⟨hfirst, hothers⟩ := isSome_foldlM_append hroom
    obtain ⟨after, middle, huser, hpast⟩ := saveChatHours_ok hsucceeds hwell.1 hsound hfirst
    obtain ⟨rests, final, husers, hrest⟩ := ih hwell.2 hpast.sound (hothers _ hpast.room)
    refine ⟨after :: rests, final, ?_, hpast.trans hrest⟩
    rw [saveChatUsers, huser]
    change (saveChatUsers env users middle >>= fun _ => _) = _
    rw [husers]
    rfl

end Runs

section Records

variable {env : ChatEnv}

theorem layout_length (place : Int) (msgs : List QqMsg) :
    (layout place msgs).length = msgs.length := by
  induction msgs generalizing place with
  | nil => rfl
  | cons msg msgs ih => rw [layout, length_cons, ih, length_cons]

theorem own_eq_filter (visit : ChatVisit) :
    visit.own = visit.taken.filter fun msg => msg.time ≤ visit.endTime := by
  rw [ChatVisit.own, ChatVisit.taken, takenMsgs, filter_map, filter_filter]
  congr 1
  apply filter_congr
  intro node _
  rw [Bool.eq_iff_iff]
  simp [InHour, and_comm]

theorem own_eq_taken_iff (visit : ChatVisit) :
    visit.own = visit.taken ↔ ∀ node ∈ visit.msgs, node.2.time ≤ visit.endTime := by
  rw [own_eq_filter, filter_eq_self]
  constructor
  · intro htaken node hnode
    by_cases hearly : saveTime visit.endTime ≤ node.2.time
    · have hmem : node.2 ∈ visit.taken :=
        mem_map_of_mem (mem_filter.mpr ⟨hnode, by simpa using hearly⟩)
      simpa using htaken node.2 hmem
    · rw [saveTime] at hearly
      omega
  · intro hnone msg hmsg
    obtain ⟨node, hnode, rfl⟩ := mem_map.mp hmsg
    simpa using hnone node (mem_of_mem_filter hnode)

/-- A record is right if only messages of the hour are taken and the time of the header is
not above theirs. -/
theorem chatRecord_eq_own_iff (time : Nat) (visit : ChatVisit) :
    chatRecord env time visit visit.taken = ownRecord env visit ↔
      (∀ node ∈ visit.msgs, node.2.time ≤ visit.endTime) ∧ time ≤ latest visit.taken := by
  rw [← own_eq_taken_iff, ownRecord]
  constructor
  · intro hsame
    have hwrites := congrArg (fun record => record.writes.length) hsame
    simp only [chatRecord, layout_length] at hwrites
    have hown : visit.own = visit.taken := by
      rw [own_eq_filter] at hwrites ⊢
      exact filter_sublist.eq_of_length hwrites.symm
    have htime := congrArg ChatRecord.time hsame
    simp only [chatRecord, hown] at htime
    exact ⟨hown, by omega⟩
  grind [chatRecord.eq_1]

/-- The records depend on the messages of their hours exactly if none of those is newer than
its hour and no object has a message newer than what came before. -/
theorem chatRecords_eq_own_iff (time : Nat) (visits : List ChatVisit) :
    chatRecords env time visits = visits.map (ownRecord env) ↔
      (∀ visit ∈ visits, ∀ node ∈ visit.msgs, node.2.time ≤ visit.endTime) ∧
        (∀ visit ∈ visits, time ≤ latest visit.taken) ∧
        visits.Pairwise fun earlier later => latest earlier.taken ≤ latest later.taken := by
  induction visits generalizing time with
  | nil => simp [chatRecords]
  | cons visit visits ih =>
    rw [chatRecords, map_cons, cons_eq_cons, ih, chatRecord_eq_own_iff,
      forall_mem_cons, forall_mem_cons, pairwise_cons]
    simp only [max_le_iff, forall_and]
    tauto

end Records

/-- Every record is that of the messages that its object has in the hour, and no block is
left. -/
def PerObject (env : ChatEnv) (users : List QqUser)
    (result : Except Fault (Int × List QqUser × ChatRun)) : Prop :=
  ∃ rests run, result = .ok (0, rests, run) ∧
    run.records = (chatVisits users).map (ownRecord env)

theorem chatSave_records {env : ChatEnv} (hallocated : env.allocated = true)
    (hsucceeds : env.Succeeds) {users : List QqUser}
    (hwell : ∀ user ∈ users, user.WellFormed) (hroomy : Roomy users) :
    ∃ rests run, wwSaveAllUserQqMsgToDb env users = .ok (0, rests, run) ∧
      run.records = chatRecords env 0 (chatVisits users) := by
  obtain ⟨rests, run, hresult, hpast⟩ := @saveChatUsers_ok env freshChatRun hsucceeds users
    hwell ⟨by decide, by decide⟩ hroomy
  refine ⟨rests, run, ?_, hpast.records⟩
  rw [wwSaveAllUserQqMsgToDb, if_pos hallocated]
  exact hresult

namespace ChatSaveWitness

/-- Everything succeeds; days and hours are counted from the start. -/
def calm : ChatEnv where
  allocated := true
  got _ := true
  stored _ := true
  regrown _ := true
  dayOf time := time / 86400
  hourOf time := time / 3600 % 24

theorem calm_succeeds : calm.Succeeds := ⟨fun _ => rfl, fun _ => rfl, fun _ => rfl⟩

def hello : CString := ⟨[104, 105], by decide⟩

def msg (time : Nat) : QqMsg :=
  ⟨time, 10001, hello, hello, 1, 3, hello, by decide, by decide, by decide⟩

/-- One user and two objects, each with a message in the hour that is over. -/
def chats (first second : Nat) : QqUser :=
  ⟨1, 0, 7200, [⟨20001, 1, 7200, [(10, msg first)]⟩, ⟨20002, 1, 7200, [(11, msg second)]⟩]⟩

theorem chats_wellFormed (first second : Nat) : (chats first second).WellFormed where
  started := Nat.zero_le _
  distinct obj hobj := by
    simp only [chats, mem_cons, not_mem_nil, or_false] at hobj
    rcases hobj with rfl | rfl <;> exact nodup_singleton _

end ChatSaveWitness

end WaterWall
