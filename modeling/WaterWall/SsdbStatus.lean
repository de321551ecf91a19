/-
`_dbphrase` of db.c: the status block of a reply selects a failure code or lets
control go on to the body, which is decoded by command.  The `default:` branch
of the status switch sets a failure code but not the flag that skips the body.
-/
import WaterWall.SsdbReply

namespace WaterWall

open ByteText List Option

inductive DbCmd where
  | set | get | scan | del | exists | multiGet | multiSet | multiDel | flushdb
  | dbsize | clrBinlog | compact
  deriving DecidableEq, Repr

/-- `memchr`: the outer `none` is a read behind the buffer, the inner one the
null result. -/
def memchr (mem : Bytes) (p count : Nat) (b : Byte) : Option (Option Nat) :=
  match ((mem.drop p).take count).findIdx? (fun c => c == b) with
  | some i => some (some (p + i))
  | none => if p + count ≤ mem.length then some none else none

/-- `rcv_len - (p - buf)`, unsigned. -/
def remaining (rcvLen p : Nat) : Nat :=
  (((rcvLen : Int) - p) % 2 ^ 32).toNat

/-- `p = memchr(p,'\n',…); p++;` where the result is then used. -/
def nextLine (mem : Bytes) (rcvLen p : Nat) : Option Nat :=
  match memchr mem p (remaining rcvLen p) 10 with
  | some (some q) => some (q + 1)
  | _ => none

/-- A store of the value fields of `db->kvs[0]`. -/
def setVal0 (kvs : Option (List DbKv)) (val : DbPtr) (valLen : Int) :
    Option (List DbKv) :=
  match kvs with
  | some (kv :: rest) => some ({ kv with val := val, valLen := valLen } :: rest)
  | _ => none

/-- The bodies of DB_GET and DB_DBSIZE. -/
def phraseValue (db : Db) (rcvLen p : Nat) (code : DbRno) : Option Db := do
  let len ← dbatoi db.srcBuf p
  let val ← nextLine db.srcBuf rcvLen p
  let mem ← writeByte db.srcBuf ((val : Int) + len).toNat 0
  let kvs ← setVal0 db.kvs (.src val) len
  some { db with
    rno := code, srcBuf := mem, kvs := some kvs, kvn := (db.kvn + 1) % 2 ^ 16 }

/-- The bodies of DB_MULTI_SET and DB_MULTI_DEL. -/
def phraseCount (db : Db) (rcvLen p : Nat) (code : DbRno) : Option Db := do
  let q ← nextLine db.srcBuf rcvLen p
  let count ← dbatoi db.srcBuf q
  some { db with rno := if (db.kvn : Int) ≠ count then .err else code, kvn := 0 }

/-- The bodies of DB_MULTI_GET and DB_SCAN. -/
def phrasePairs (kvsAlloc : Bool) (db : Db) (rcvLen p : Nat) (code : DbRno) :
    Option Db := do
  let (rno, db) ← dbsplitkv kvsAlloc db p ((rcvLen : Int) - p) code
  some { db with rno := rno }

/-- The second switch of `_dbphrase`. -/
def phraseBody (kvsAlloc : Bool) (db : Db) (rcvLen p : Nat) : DbCmd → Option Db
  | .get => phraseValue db rcvLen p .getOk
  | .multiGet => phrasePairs kvsAlloc db rcvLen p .multiGetOk
  | .del => some { db with rno := .delOk }
  | .set => do
      let len ← dbatoi db.srcBuf p
      let _ ← memchr db.srcBuf p (remaining rcvLen p) 10
      some { db with rno := if len ≠ 1 then .err else .setOk }
  | .multiSet => phraseCount db rcvLen p .multiSetOk
  | .multiDel => phraseCount db rcvLen p .multiDelOk
  | .exists => do
      let first ← dbatoi db.srcBuf p
      if first = 1 then
        let second ← dbatoi db.srcBuf (p + 2)
        some { db with rno := if second = 1 then .exist else .noExist }
      else some { db with rno := .noExist }
  | .scan => phrasePairs kvsAlloc db rcvLen p .scanOk
  | .flushdb => some { db with rno := .flushdbOk }
  | .dbsize => phraseValue db rcvLen p .dbsizeOk
  | .clrBinlog => some db
  | .compact => some db

/-- The first switch: the code it stores, if any, and the flag. -/
def phraseStatus (len : Nat) (msg : Bytes) (rno : DbRno) : DbRno × Bool :=
  if len = 2 then
    if msg.take 2 = ascii "ok" then (rno, false) else (.noret, true)
  else if len = 9 then
    if msg.take 9 = ascii "not_found" then (.notFound, true) else (.noret, true)
  else (.noret, false)

/-- The release of the key that `dbget` stored, on the flag path. -/
def freeKey0 (db : Db) : DbCmd → Option Db
  | .get =>
    match db.kvs with
    | some (_ :: _) => some { db with freeKvs0Key := false }
    | _ => none
  | _ => some db

/-- sizeof(msg) - 1. -/
def msgMax : Nat := 127

/-- `_dbphrase` on the received buffer `db.srcBuf`; `none` is a read or write
outside it, a null pointer used, or a failed assertion. -/
def dbphrase (kvsAlloc : Bool) (rcvLen : Nat) (db : Db) (cmd : DbCmd) :
    Option Db := do
  let len ← dbatoi db.srcBuf 0
  if len ≤ 0 then some { db with rno := .err }
  else
    let p ← nextLine db.srcBuf rcvLen 0
    let copied := min len.toNat msgMax
    if p + copied ≤ db.srcBuf.length then
      let msg := (db.srcBuf.drop p).take copied
      let (rno, flag) := phraseStatus len.toNat msg db.rno
      let db := { db with rno := rno }
      if flag then freeKey0 db cmd
      else phraseBody kvsAlloc db rcvLen (p + len.toNat + 1) cmd
    else none

/-- A reply on the wire: its blocks, then an empty line. -/
def replyText (blocks : List Bytes) : Bytes :=
  blocks.flatMap blockText ++ [10]

/-- What the callers set up before `_dbcmd`: DB_MULTI_SET and DB_MULTI_DEL
store the number of requested pairs, DB_GET and DB_DBSIZE an array of one
entry. -/
def Prepared (cmd : DbCmd) (db : Db) : Prop :=
  (cmd ≠ .multiSet → cmd ≠ .multiDel → db.kvn = 0) ∧
    (cmd = .get ∨ cmd = .dbsize → ∃ kv, db.kvs = some [kv])

/-- The reply is reported as a failure, without key/value pairs. -/
def ReportedFailure (result : Option Db) : Prop :=
  ∃ final, result = some final ∧
    (final.rno = .noret ∨ final.rno = .err ∨ final.rno = .notFound) ∧
    final.kvn = 0

/-- Where the bodies of DB_MULTI_SET and DB_MULTI_DEL read the count: the
payload of the block behind the status, or the byte behind the reply. -/
def countPosition (status : Bytes) (rest : List Bytes) : Nat :=
  match rest with
  | [] => (blockText status).length + 1
  | data :: _ => (blockText status).length + (decimal data.length).length + 1

/-- The replies with a failure status that are reported as such: those whose
status has the length of `ok` or `not_found` (and no requested count is left
over), a SET whose next block is not one byte long, and a MULTI_SET or
MULTI_DEL whose count differs from the requested one. -/
def FailureRecognised (db : Db) (status : Bytes) (rest : List Bytes)
    (slack : Bytes) (cmd : DbCmd) : Prop :=
  if status.length = 2 ∨ status.length = 9 then db.kvn = 0
  else
    match cmd with
    | .set => rest.head?.map List.length ≠ some 1
    | .multiSet | .multiDel =>
      ∃ count, dbatoi (replyText (status :: rest) ++ slack)
        (countPosition status rest) = some count ∧ count ≠ db.kvn
    | .clrBinlog | .compact => True
    | _ => False

section Status

variable {db : Db} {status : Bytes} {rest : List Bytes} {slack : Bytes}

theorem replyText_cons (data : Bytes) (blocks : List Bytes) :
    replyText (data :: blocks) = blockText data ++ replyText blocks := by
  simp [replyText]

theorem newline_not_mem_decimal (n : Nat) : (10 : Byte) ∉ decimal n :=
  not_mem_decimal (by decide) n

theorem memchr_line {mem line tail : Bytes} {p count : Nat} {b : Byte}
    (hmem : mem.drop p = line ++ b :: tail) (hline : b ∉ line)
    (hcount : line.length < count) :
    memchr mem p count b = some (some (p + line.length)) := by
  have htake : (mem.drop p).take count =
      line ++ b :: tail.take (count - line.length - 1) := by
    rw [hmem, take_append, take_of_length_le (by omega),
      take_cons (by omega)]
  have hnone : line.findIdx? (fun c => c == b) = none := by
    rw [List.findIdx?_eq_none_iff]
    intro c hc
    simp only [beq_eq_false_iff_ne, ne_eq]
    rintro rfl
    exact hline hc
  have hfind : ((mem.drop p).take count).findIdx? (fun c => c == b) =
      some line.length := by
    rw [htake, List.findIdx?_append, hnone]
    simp [List.findIdx?_cons]
  rw [memchr, hfind]

theorem remaining_eq {rcvLen p : Nat} (hp : p ≤ rcvLen) (hlen : rcvLen < 2 ^ 31) :
    remaining rcvLen p = rcvLen - p := by
  rw [remaining, Int.emod_eq_of_lt (by omega) (by omega)]
  omega

theorem nextLine_line {mem line tail : Bytes} {rcvLen p : Nat}
    (hmem : mem.drop p = line ++ 10 :: tail) (hline : (10 : Byte) ∉ line)
    (hp : p + line.length < rcvLen) (hlen : rcvLen < 2 ^ 31) :
    nextLine mem rcvLen p = some (p + line.length + 1) := by
  rw [nextLine, remaining_eq (by omega) hlen, memchr_line hmem hline (by omega)]

theorem dbphrase_reply (kvsAlloc : Bool) (cmd : DbCmd)
    (hbuf : db.srcBuf = replyText (status :: rest) ++ slack)
    (hstatus : 0 < status.length)
    (hsize : (replyText (status :: rest)).length < 2 ^ 31) :
    dbphrase kvsAlloc (replyText (status :: rest)).length db cmd =
      let code := phraseStatus status.length (status.take msgMax) db.rno
      if code.2 then freeKey0 { db with rno := code.1 } cmd
      else phraseBody kvsAlloc { db with rno := code.1 }
        (replyText (status :: rest)).length (blockText status).length cmd := by
  have hmem : db.srcBuf.drop 0 = decimal status.length ++
      10 :: (status ++ 10 :: (replyText rest ++ slack)) := by
    rw [hbuf, replyText_cons]
    simp [blockText]
  have hlength : (replyText (status :: rest)).length =
      (decimal status.length).length + status.length + 2 +
        (replyText rest).length := by
    rw [replyText_cons, length_append, blockText_length]
  have hlen := dbatoi_decimal hmem (by omega)
  have hline : nextLine db.srcBuf (replyText (status :: rest)).length 0 =
      some (0 + (decimal status.length).length + 1) :=
    nextLine_line hmem (newline_not_mem_decimal _) (by omega) hsize
  have htotal : db.srcBuf.length =
      (replyText (status :: rest)).length + slack.length := by
    rw [hbuf, length_append]
  have hmsg : (db.srcBuf.drop (0 + (decimal status.length).length + 1)).take
      (min status.length msgMax) = status.take msgMax := by
    have hsplit : db.srcBuf = (decimal status.length ++ [10]) ++
        (status ++ 10 :: (replyText rest ++ slack)) := by
      rw [drop_zero] at hmem
      rw [hmem]
      simp
    have hstart : 0 + (decimal status.length).length + 1 =
        (decimal status.length ++ [10]).length := by
      simp
    rw [hsplit, hstart, drop_left, take_append_of_le_length (by omega),
      Nat.min_comm, ← take_take, take_length]
  have hnext : 0 + (decimal status.length).length + 1 + status.length + 1 =
      (blockText status).length := by
    rw [blockText_length]
    omega
  simp only [dbphrase, hlen, hline, hmsg, bind_eq_bind, bind_some,
    Int.toNat_natCast, hnext]
  rw [if_neg (by omega), if_pos (by omega)]

theorem freeKey0_reportedFailure_iff {cmd : DbCmd} (hprepared : Prepared cmd db)
    {code : DbRno} (hcode : code = .noret ∨ code = .err ∨ code = .notFound) :
    ReportedFailure (freeKey0 { db with rno := code } cmd) ↔ db.kvn = 0 := by
  have hfree : ∃ final, freeKey0 { db with rno := code } cmd = some final ∧
      final.rno = code ∧ final.kvn = db.kvn := by
    cases cmd with
    | get =>
      obtain ⟨kv, hkv⟩ := hprepared.2 (Or.inl rfl)
      exact ⟨{ db with rno := code, freeKvs0Key := false }, by
        simp [freeKey0, hkv], rfl, rfl⟩
    | _ => exact ⟨_, rfl, rfl, rfl⟩
  obtain ⟨final, hfinal, hrno, hkvn⟩ := hfree
  constructor
  · rintro ⟨other, hother, _, hzero⟩
    rw [hfinal, Option.some.injEq] at hother
    rw [← hkvn, hother, hzero]
  · intro hzero
    exact ⟨final, hfinal, hrno ▸ hcode, hkvn.trans hzero⟩

theorem phraseValue_rno {rcvLen p : Nat} {code : DbRno} {final : Db}
    (hfinal : phraseValue db rcvLen p code = some final) : final.rno = code := by
  simp only [phraseValue, bind_eq_bind, bind_eq_some_iff] at hfinal
  grind

theorem dbsplitkv_rno {kvsAlloc : Bool} {buf : Nat} {bufLen : Int}
    {initState rno : DbRno} {final : Db}
    (hfinal : dbsplitkv kvsAlloc db buf bufLen initState = some (rno, final)) :
    rno = initState ∨ rno = .outMem := by
  grind [dbsplitkv, bind_eq_some_iff]

theorem phrasePairs_rno {kvsAlloc : Bool} {rcvLen p : Nat} {code : DbRno}
    {final : Db} (hfinal : phrasePairs kvsAlloc db rcvLen p code = some final) :
    final.rno = code ∨ final.rno = .outMem := by
  grind [phrasePairs, bind_eq_some_iff, dbsplitkv_rno]

theorem not_reportedFailure_of_rno {result : Option Db}
    (hrno : ∀ final, result = some final →
      final.rno ≠ .noret ∧ final.rno ≠ .err ∧ final.rno ≠ .notFound) :
    ¬ ReportedFailure result := by
  rintro ⟨final, hfinal, hcode, _⟩
  have hne := hrno final hfinal
  tauto

variable (hbuf : db.srcBuf = replyText (status :: rest) ++ slack)

include hbuf

theorem drop_status :
    db.srcBuf.drop (blockText status).length = replyText rest ++ slack := by
  rw [hbuf, replyText_cons, append_assoc, drop_left]

variable (hsize : (replyText (status :: rest)).length < 2 ^ 31)

include hsize

theorem dbatoi_behind_status :
    dbatoi db.srcBuf (blockText status).length =
      some ((rest.head?.map fun data => (data.length : Int)).getD (-1)) := by
  have hdrop := drop_status hbuf
  cases rest with
  | nil =>
    rw [dbatoi, hdrop]
    rfl
  | cons data rest =>
    have hmem : db.srcBuf.drop (blockText status).length =
        decimal data.length ++ 10 :: (data ++ 10 :: (replyText rest ++ slack)) := by
      rw [hdrop, replyText_cons]
      simp [blockText]
    simp only [replyText_cons, length_append, blockText_length] at hsize
    rw [dbatoi_decimal hmem (by omega)]
    rfl

theorem nextLine_behind_status :
    nextLine db.srcBuf (replyText (status :: rest)).length
      (blockText status).length = some (countPosition status rest) := by
  have hdrop := drop_status hbuf
  cases rest with
  | nil =>
    have hmem : db.srcBuf.drop (blockText status).length = [] ++ 10 :: slack := by
      rw [hdrop]
      rfl
    have hlength : (replyText [status]).length = (blockText status).length + 1 := by
      simp [replyText]
    exact nextLine_line hmem not_mem_nil
      (by rw [length_nil]; omega) hsize
  | cons data rest =>
    have hmem : db.srcBuf.drop (blockText status).length =
        decimal data.length ++ 10 :: (data ++ 10 :: (replyText rest ++ slack)) := by
      rw [hdrop, replyText_cons]
      simp [blockText]
    have hlength : (replyText (status :: data :: rest)).length =
        (blockText status).length + (decimal data.length).length +
          data.length + 2 + (replyText rest).length := by
      simp only [replyText_cons, length_append, blockText_length]
      omega
    exact nextLine_line hmem (newline_not_mem_decimal _) (by omega) hsize

theorem memchr_behind_status :
    ∃ found, memchr db.srcBuf (blockText status).length
      (remaining (replyText (status :: rest)).length (blockText status).length)
      10 = some found := by
  have hline := nextLine_behind_status hbuf hsize
  rw [nextLine] at hline
  split at hline
  · exact ⟨_, ‹_›⟩
  · exact absurd hline (by simp)

theorem phraseCount_reportedFailure_iff {code : DbRno} (hcode : code ≠ .noret)
    (herr : code ≠ .err) (hfound : code ≠ .notFound) :
    ReportedFailure (phraseCount db (replyText (status :: rest)).length
        (blockText status).length code) ↔
      ∃ count, dbatoi (replyText (status :: rest) ++ slack)
        (countPosition status rest) = some count ∧ count ≠ db.kvn := by
  simp only [phraseCount, nextLine_behind_status hbuf hsize, bind_eq_bind,
    bind_some, ← hbuf]
  cases hcount : dbatoi db.srcBuf (countPosition status rest) with
  | none => simp [ReportedFailure]
  | some count =>
    by_cases hsame : (db.kvn : Int) = count
    · simp [ReportedFailure, hsame, hcode, herr, hfound]
    · simp [ReportedFailure, hsame, Ne.symm hsame]

theorem phraseSet_reportedFailure_iff (kvsAlloc : Bool) (hkvn : db.kvn = 0) :
    ReportedFailure (phraseBody kvsAlloc db (replyText (status :: rest)).length
        (blockText status).length .set) ↔
      rest.head?.map List.length ≠ some 1 := by
  obtain ⟨found, hfound⟩ := memchr_behind_status hbuf hsize
  simp only [phraseBody, dbatoi_behind_status hbuf hsize, hfound,
    bind_eq_bind, bind_some]
  cases rest with
  | nil => simp [ReportedFailure, hkvn]
  | cons data rest =>
    by_cases hone : data.length = 1
    · simp [ReportedFailure, hone]
    · have hnum : ¬ ((data.length : Int) = 1) := by omega
      simp [ReportedFailure, hkvn, hone, hnum]

/-- The second switch, entered with the failure code of the `default:` branch:
most commands overwrite it with their success code. -/
theorem phraseBody_reportedFailure_iff (kvsAlloc : Bool) {cmd : DbCmd}
    (hprepared : Prepared cmd db) (hrno : db.rno = .noret)
    (hother : ¬ (status.length = 2 ∨ status.length = 9)) :
    ReportedFailure (phraseBody kvsAlloc db (replyText (status :: rest)).length
        (blockText status).length cmd) ↔
      FailureRecognised db status rest slack cmd := by
  unfold FailureRecognised
  rw [if_neg hother]
  cases cmd with
  | set =>
    exact phraseSet_reportedFailure_iff hbuf hsize kvsAlloc
      (hprepared.1 (by decide) (by decide))
  | multiSet =>
    exact phraseCount_reportedFailure_iff hbuf hsize (by decide) (by decide) (by decide)
  | multiDel =>
    exact phraseCount_reportedFailure_iff hbuf hsize (by decide) (by decide) (by decide)
  | get | dbsize =>
    refine iff_false_intro (not_reportedFailure_of_rno fun final hfinal => ?_)
    rw [phraseValue_rno hfinal]
    decide
  | multiGet | scan =>
    refine iff_false_intro (not_reportedFailure_of_rno fun final hfinal => ?_)
    rcases phrasePairs_rno hfinal with hcode | hcode <;> rw [hcode] <;> decide
  | del | flushdb =>
    refine iff_false_intro (not_reportedFailure_of_rno fun final hfinal => ?_)
    rw [← Option.some.inj hfinal]
    simp
  | «exists» =>
    refine iff_false_intro (not_reportedFailure_of_rno fun final hfinal => ?_)
    grind [phraseBody, bind_eq_some_iff]
  | clrBinlog | compact =>
    exact iff_true_intro ⟨db, rfl, Or.inl hrno,
      hprepared.1 (by decide) (by decide)⟩

end Status

/-- A reply whose status is not `ok` is reported as a failure without pairs
exactly when `FailureRecognised` says so. -/
theorem dbphrase_failure_iff (kvsAlloc : Bool) (cmd : DbCmd) (db : Db)
    (status : Bytes) (rest : List Bytes) (slack : Bytes)
    (hprepared : Prepared cmd db)
    (hbuf : db.srcBuf = replyText (status :: rest) ++ slack)
    (hsize : (replyText (status :: rest)).length < 2 ^ 31)
    (hpos : 0 < status.length) (hstatus : status ≠ ascii "ok") :
    ReportedFailure (dbphrase kvsAlloc (replyText (status :: rest)).length db cmd) ↔
      FailureRecognised db status rest slack cmd := by
  rw [dbphrase_reply kvsAlloc cmd hbuf hpos hsize]
  by_cases htwo : status.length = 2
  · have hmsg : (status.take msgMax).take 2 ≠ ascii "ok" := by
      rw [take_take, take_of_length_le (by rw [htwo]; decide)]
      exact hstatus
    simp only [phraseStatus, htwo, ↓reduceIte, hmsg]
    rw [freeKey0_reportedFailure_iff hprepared (Or.inl rfl)]
    unfold FailureRecognised
    rw [if_pos (Or.inl htwo)]
  · by_cases hnine : status.length = 9
    · simp only [phraseStatus, hnine, ↓reduceIte, Nat.reduceEqDiff]
      unfold FailureRecognised
      rw [if_pos (Or.inr hnine)]
      grind [freeKey0_reportedFailure_iff]
    · simp only [phraseStatus, htwo, hnine, ↓reduceIte, Bool.false_eq_true]
      exact @phraseBody_reportedFailure_iff { db with rno := .noret } status rest
        slack hbuf hsize kvsAlloc cmd hprepared rfl (by tauto)

/-- A SET answered with `error` and no further block is reported as an error. -/
theorem dbphrase_failure_iff_set :
    ReportedFailure (dbphrase true (replyText [ascii "error"]).length
        ⟨0, .noret, false, replyText [ascii "error"] ++ [0], none⟩ .set) :=
  (dbphrase_failure_iff true .set
    ⟨0, .noret, false, replyText [ascii "error"] ++ [0], none⟩ (ascii "error") []
    [0] ⟨fun _ _ => rfl, by simp⟩ rfl (by decide) (by decide) (by decide)).mpr
    (by simp [FailureRecognised, ascii])

/-- A DEL answered with `error` is reported as a success. -/
theorem dbphrase_del_error :
    Prepared .del ⟨0, .noret, false, replyText [ascii "error"] ++ [0], none⟩ ∧
      dbphrase true (replyText [ascii "error"]).length
        ⟨0, .noret, false, replyText [ascii "error"] ++ [0], none⟩ .del =
        some ⟨0, .delOk, false, replyText [ascii "error"] ++ [0], none⟩ ∧
      ¬ ReportedFailure (dbphrase true (replyText [ascii "error"]).length
        ⟨0, .noret, false, replyText [ascii "error"] ++ [0], none⟩ .del) := by
  have hrun : dbphrase true (replyText [ascii "error"]).length
      ⟨0, .noret, false, replyText [ascii "error"] ++ [0], none⟩ .del =
      some ⟨0, .delOk, false, replyText [ascii "error"] ++ [0], none⟩ := by
    decide
  refine ⟨⟨fun _ _ => rfl, by simp⟩, hrun, ?_⟩
  rintro ⟨final, hfinal, hcode, _⟩
  rw [hrun, Option.some.injEq] at hfinal
  rw [← hfinal] at hcode
  simp at hcode

end WaterWall
