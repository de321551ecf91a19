/-
Who frees what in db.c.  A command allocates its result, a text and a request, `_dbdo` takes
or makes a connection and receives the reply into a buffer that the result takes over, and
`dbfree` gives the result back.  Blocks and descriptors are known by the allocation they come
from, not by their address or number, which may be used again.
-/
import WaterWall.Ledger
import WaterWall.SsdbRequest
import WaterWall.SsdbSession

namespace WaterWall

namespace Ownership

open ByteText Ledger
open Request (KvArg KeyArg)

/-- `dbconn_t`, with the block it is stored in. -/
structure PoolConn where
  record : Nat
  fd : Nat
  deriving DecidableEq, Repr

/-- The blocks of the registry, the descriptors and `_db_free_conn_list`.  `connectErrors` are
the descriptors that `connect` failed on and `recvErrors` the buffers that `recv` left when it
returned 0 or -1. -/
structure World where
  blocks : Ledger
  files : Ledger
  freeConns : List PoolConn
  connectErrors : Multiset Nat
  recvErrors : Multiset Nat
  deriving DecidableEq

def dbinit : World := ⟨.empty, .empty, [], 0, 0⟩

/-- What one round of the loop of `_dbrecv` meets: `wys_realloc` has memory or not and moves
the block or not, and `recv` delivers these bytes as far as it is asked for them, or fails if
there are none. -/
structure RecvAnswer where
  reallocOk : Bool
  moved : Bool
  data : Bytes

/-- What one round of `_dbdo` meets.  Behind the last answer of `later`, `recv` fails;
`before` is the byte in front of the buffer and `stale` what is behind the received bytes. -/
structure Round where
  recordOk : Bool
  socketOk : Bool
  connectOk : Bool
  sends : Nat → Int
  bufOk : Bool
  first : Bytes
  later : List RecvAnswer
  before : Byte
  stale : Nat → Byte

/-- What a command meets: whether there is memory for each of its blocks, and the rounds. -/
structure Answers where
  dbOk : Bool
  kvsOk : Bool
  keyOk : Bool
  dataOk : Bool
  requestOk : Bool
  splitOk : Bool
  rounds : Nat → Round

namespace World

def wysMalloc (ok : Bool) (world : World) : Option Nat × World :=
  if ok then (some world.blocks.next, { world with blocks := world.blocks.acquire })
  else (none, world)

def wysFree (ptr : Option Nat) (world : World) : World :=
  { world with blocks := world.blocks.release ptr }

/-- A block that `_realloc` moves is a new one; without memory it frees the old one. -/
def wysRealloc (ptr : Nat) (ok moved : Bool) (world : World) : Option Nat × World :=
  if ok then
    if moved then
      (some world.blocks.next,
        wysFree (some ptr) { world with blocks := world.blocks.acquire })
    else (some ptr, world)
  else (none, world.wysFree (some ptr))

/-- `socket` returns a descriptor. -/
def openSocket (world : World) : Nat × World :=
  (world.files.next, { world with files := world.files.acquire })

def connectFailed (fd : Nat) (world : World) : World :=
  { world with connectErrors := {fd} + world.connectErrors }

def recvFailed (buf : Nat) (world : World) : World :=
  { world with recvErrors := {buf} + world.recvErrors }

def dbConnDestory (conn : PoolConn) (world : World) : World :=
  wysFree (some conn.record) { world with files := world.files.release (some conn.fd) }

/-- `_dbpush_free_conn_list`. -/
def dbConnFree (conn : PoolConn) (world : World) : World :=
  { world with freeConns := world.freeConns ++ [conn] }

end World

section Connections

def dbNewConn (round : Round) (world : World) : Option PoolConn × World :=
  match world.wysMalloc round.recordOk with
  | (none, world) => (none, world)
  | (some record, world) =>
    if round.socketOk then
      let (fd, world) := world.openSocket
      if round.connectOk then (some ⟨record, fd⟩, world)
      else (none, (world.connectFailed fd).wysFree (some record))
    else (none, world.wysFree (some record))

def dbGetConn (round : Round) (world : World) : Option PoolConn × World :=
  match world.freeConns with
  | [] => dbNewConn round world
  | conn :: rest => (some conn, { world with freeConns := rest })

/-- The loop of `_dbsend` with `left` bytes to go; each `send` takes one at least. -/
def dbsendLoop (sends : Nat → Int) : Nat → Nat → Nat → Bool
  | 0, _, left => left == 0
  | fuel + 1, round, left =>
    if left = 0 then true
    else
      let len := min (sends round) left
      if len ≤ 0 then false else dbsendLoop sends fuel (round + 1) (left - len.toNat)

def dbsend (round : Round) (data : Bytes) : Bool :=
  dbsendLoop round.sends data.length 0 data.length

/-- `received` has the buffer, its memory and how much of it was received; `overrun` is a
write behind the block. -/
inductive RecvEnd where
  | received (buf : Nat) (mem : Bytes) (rcvLen : Nat)
  | failed
  | overrun

/-- The buffer is grown when it is full. -/
def growFull (answer : RecvAnswer) (full : Bool) (buf : Nat) (world : World) :
    Option Nat × World :=
  if full then world.wysRealloc buf answer.reallocOk answer.moved else (some buf, world)

/-- The loop of `_dbrecv`: `data` has been received into the block `buf` of `rBuflen` bytes,
`rLen` of it by the last `recv`. -/
def dbrecvLoop (round : Round) :
    List RecvAnswer → Nat → Bytes → Nat → Nat → World → RecvEnd × World
  | later, buf, data, rLen, rBuflen, world =>
    if dbcheck round.before data ≠ 0 then
      let behind := (List.range (rBuflen - data.length)).map round.stale
      (.received buf (data ++ behind) data.length, world)
    else
      match later with
      | [] => (.failed, world.recvFailed buf)
      | answer :: later =>
        let full := data.length == rBuflen
        match growFull answer full buf world with
        | (none, world) => (.failed, world)
        | (some buf, world) =>
          let request := if full then dbBuflen else dbBuflen - rLen
          let space := if full then rBuflen + dbBuflen else rBuflen
          let got := answer.data.take request
          if got.length = 0 then (.failed, world.recvFailed buf)
          else if space < data.length + got.length then (.overrun, world)
          else dbrecvLoop round later buf (data ++ got) got.length space world

def dbrecv (round : Round) (world : World) : RecvEnd × World :=
  match world.wysMalloc round.bufOk with
  | (none, world) => (.failed, world)
  | (some buf, world) =>
    let got := round.first.take dbBuflen
    if got.length = 0 then (.failed, world.recvFailed buf)
    else dbrecvLoop round round.later buf got got.length dbBuflen world

end Connections

/-- A result with the blocks that its pointers lead to. -/
structure OwnedDb extends Db where
  block : Nat
  kvsBlock : Option Nat
  keyBlock : Option Nat
  bufBlock : Option Nat

/-- The result as `wys_malloc` clears it. -/
def OwnedDb.cleared (block : Nat) : OwnedDb :=
  ⟨⟨0, .noret, false, [], none⟩, block, none, none, none⟩

section Replies

def freeKey0 (db : OwnedDb) (cmd : DbCmd) (world : World) : Option (OwnedDb × World) := do
  let plain ← WaterWall.freeKey0 db.toDb cmd
  let world := if cmd = .get then world.wysFree db.keyBlock else world
  some ({ db with toDb := plain }, world)

/-- The commands whose replies `_dbsplitkv` reads into an array of its own. -/
def splits (cmd : DbCmd) : Bool :=
  cmd == .multiGet || cmd == .scan

def phraseBody (splitOk : Bool) (db : OwnedDb) (rcvLen p : Nat) (cmd : DbCmd) (world : World) :
    Option (OwnedDb × World) := do
  let plain ← WaterWall.phraseBody splitOk db.toDb rcvLen p cmd
  if splits cmd then
    let (kvs, world) := world.wysMalloc splitOk
    some ({ db with toDb := plain, kvsBlock := kvs }, world)
  else some ({ db with toDb := plain }, world)

/-- `_dbphrase`; `none` is a fault. -/
def dbphrase (splitOk : Bool) (rcvLen : Nat) (db : OwnedDb) (cmd : DbCmd) (world : World) :
    Option (OwnedDb × World) := do
  let len ← dbatoi db.srcBuf 0
  if len ≤ 0 then some ({ db with rno := .err }, world)
  else
    let p ← nextLine db.srcBuf rcvLen 0
    let copied := min len.toNat msgMax
    if p + copied ≤ db.srcBuf.length then
      let msg := (db.srcBuf.drop p).take copied
      let (rno, flag) := phraseStatus len.toNat msg db.rno
      let db := { db with rno := rno }
      if flag then freeKey0 db cmd world
      else phraseBody splitOk db rcvLen (p + len.toNat + 1) cmd world
    else none

/-- The rounds of `_dbdo`; `none` is a fault. -/
def dbdoLoop (answers : Answers) (request : Bytes) (cmd : DbCmd) :
    Nat → Nat → OwnedDb → World → Option (OwnedDb × World)
  | 0, _, db, world => some (db, world)
  | tries + 1, index, db, world =>
    let round := answers.rounds index
    let lost := { db with rno := .connectErr }
    match dbGetConn round world with
    | (none, world) => some (lost, world)
    | (some conn, world) =>
      if dbsend round request then
        match dbrecv round world with
        | (.received buf mem rcvLen, world) =>
          dbphrase answers.splitOk rcvLen { db with srcBuf := mem, bufBlock := some buf }
            cmd (world.dbConnFree conn)
        | (.failed, world) =>
          dbdoLoop answers request cmd tries (index + 1) lost (world.dbConnDestory conn)
        | (.overrun, _) => none
      else dbdoLoop answers request cmd tries (index + 1) lost (world.dbConnDestory conn)

def dbdo (answers : Answers) (request : Bytes) (cmd : DbCmd) (db : OwnedDb) (world : World) :
    Option (OwnedDb × World) :=
  dbdoLoop answers request cmd dbdoTries 0 db world

end Replies

section Commands

def dbcmd (answers : Answers) (cmd : DbCmd) (data : Bytes) (datalen : Int) (db : OwnedDb)
    (world : World) : Option (OwnedDb × World) :=
  match world.wysMalloc answers.requestOk with
  | (none, world) => some ({ db with rno := .outMem }, world)
  | (some block, world) =>
    match Request.dbcmd cmd (some data) datalen with
    | .error _ => none
    | .ok request => do
        let (db, world) ← dbdo answers request cmd db world
        some (db, world.wysFree (some block))

def dbcreate (ok : Bool) (world : World) : Option OwnedDb × World :=
  match world.wysMalloc ok with
  | (none, world) => (none, world)
  | (some block, world) => (some (.cleared block), world)

/-- The end of every command: the text is formatted into a block of its own, `db->kvn` is set
where the reply is compared with it, and the block is freed behind `_dbcmd`. -/
def sendText (answers : Answers) (cmd : DbCmd) (kvn : Nat)
    (format : Except Request.Stop (Bytes × Int)) (db : OwnedDb) (world : World) :
    Option (OwnedDb × World) :=
  match world.wysMalloc answers.dataOk with
  | (none, world) => some ({ db with rno := .outMem }, world)
  | (some block, world) =>
    match format with
    | .error _ => none
    | .ok (data, datalen) => do
        let (db, world) ← dbcmd answers cmd data datalen { db with kvn := kvn } world
        some (db, world.wysFree (some block))

/-- What a command does with its arguments: `none` if it refuses them, then what it computes
before the block for its text is allocated, and then the text. -/
abbrev Text := Option (Except Request.Stop (Except Request.Stop (Bytes × Int)))

/-- The bytes for `_dbdo` when every allocation succeeds. -/
def Text.request (cmd : DbCmd) : Text → Except Request.Stop Bytes
  | none => .error .invalidParms
  | some staged => do
      let format ← staged
      let (data, datalen) ← format
      Request.dbcmd cmd (some data) datalen

/-- The commands that own nothing but their result. -/
def command (answers : Answers) (cmd : DbCmd) (kvn : Nat) (text : Text) (world : World) :
    Option (Option OwnedDb × World) :=
  match dbcreate answers.dbOk world with
  | (none, world) => some (none, world)
  | (some db, world) =>
    match text with
    | none => some (some { db with rno := .invalidParms }, world)
    | some (.error _) => none
    | some (.ok format) => do
        let (db, world) ← sendText answers cmd kvn format db world
        some (some db, world)

/-- The text of `dbget` and `dbdel`. -/
def keyText (key : CString) (keyLen : Int) : Except Request.Stop (Bytes × Int) := do
  let (data, dataLen) ← Request.sprintf (Request.wysMalloc (keyLen + 16)) 0
    (Request.line (Request.printS32 keyLen) ++ Request.line key.text)
  return (data, dataLen)

/-- `dbget` with a key it accepts: the result owns an array of one entry and a copy of the
key. -/
def getKey (answers : Answers) (key : CString) (keyLen : Int) (db : OwnedDb) (world : World) :
    Option (OwnedDb × World) :=
  match world.wysMalloc answers.kvsOk with
  | (none, world) => some ({ db with rno := .outMem }, world)
  | (some kvs, world) =>
    let kv := { DbKv.zero with keyLen := keyLen }
    let db := { db with kvs := some [kv], kvsBlock := some kvs }
    match world.wysMalloc answers.keyOk with
    | (none, world) => some ({ db with rno := .outMem }, world)
    | (some copy, world) =>
      match Request.memcpy (Request.wysMalloc (keyLen + 1)) 0 (key.text ++ [0]) keyLen with
      | .error _ => none
      | .ok _ =>
        let db := { db with
          kvs := some [{ kv with key := .own }], keyBlock := some copy
          freeKvs0Key := true }
        sendText answers .get 0 (keyText key keyLen) db world

def dbget (answers : Answers) (key : Option CString) (keyLen : Int) (world : World) :
    Option (Option OwnedDb × World) :=
  match dbcreate answers.dbOk world with
  | (none, world) => some (none, world)
  | (some db, world) =>
    match key with
    | none => some (some { db with rno := .invalidParms }, world)
    | some key =>
      if keyLen = 0 then some (some { db with rno := .invalidParms }, world)
      else do
        let (db, world) ← getKey answers key keyLen db world
        some (some db, world)

def delText (key : Option CString) (keyLen : Int) : Text :=
  match key with
  | none => none
  | some key => if keyLen = 0 then none else some (.ok (keyText key keyLen))

def dbdel (answers : Answers) (key : Option CString) (keyLen : Int) (world : World) :
    Option (Option OwnedDb × World) :=
  command answers .del 0 (delText key keyLen) world

def setText (key : Option CString) (keyLen : Int) (val : Option Bytes) (valLen : Int) : Text :=
  match key, val with
  | some key, some val =>
    if key.text.length = 0 ∨ valLen ≤ 0 then none
    else some <| .ok do
      let size := keyLen + valLen + 64
      let (data, datalen) ← Request.snprintfTo (Request.wysMalloc size) (size % 2 ^ 32).toNat
        (Request.line (Request.printS32 keyLen) ++ Request.line key.text ++
          Request.line (Request.printS32 valLen))
      let data ← Request.memcpy data datalen val valLen
      let data ← Request.memcpy data (datalen + valLen) [10, 0] 1
      return (data, datalen + valLen + 1)
  | _, _ => none

def dbset (answers : Answers) (key : Option CString) (keyLen : Int) (val : Option Bytes)
    (valLen : Int) (world : World) : Option (Option OwnedDb × World) :=
  command answers .set 0 (setText key keyLen val valLen) world

def scanText (start : Option CString) (startLen : Int) (stop : Option CString)
    (stopLen max : Int) : Text :=
  match start, stop with
  | some start, some stop =>
    if max < 1 then none
    else some do
      let maxLen ← Request.numlen max
      return do
        let (data, written) ← Request.sprintf
          (Request.wysMalloc (startLen + stopLen + maxLen + 64)) 0
          (Request.line (Request.printS32 startLen) ++ Request.line start.text ++
            Request.line (Request.printS32 stopLen) ++ Request.line stop.text ++
            Request.line (Request.printS32 maxLen) ++ Request.line (Request.printS32 max))
        return (data, Request.s8 written)
  | _, _ => none

def dbscan (answers : Answers) (start : Option CString) (startLen : Int)
    (stop : Option CString) (stopLen max : Int) (world : World) :
    Option (Option OwnedDb × World) :=
  command answers .scan 0 (scanText start startLen stop stopLen max) world

def kvsText (kvs : List KvArg) : Text :=
  if kvs.length < 1 then none
  else some do
    let total ← Request.kvsTotal kvs 0
    return do
      let (data, dataLen) ← Request.kvsFill kvs (Request.wysMalloc (total + 64)) 0
      return (data, dataLen)

/-- `db->kvn` has 16 bits. -/
def dbmultiSet (answers : Answers) (kvs : List KvArg) (world : World) :
    Option (Option OwnedDb × World) :=
  command answers .multiSet (kvs.length % 2 ^ 16) (kvsText kvs) world

def keysText (keys : List KeyArg) : Text :=
  if keys.length < 1 then none
  else some do
    let total ← Request.keysTotal keys 0
    return do
      let (data, dataLen) ← Request.keysFill keys (Request.wysMalloc (total + 64)) 0
      return (data, dataLen)

def dbmultiGet (answers : Answers) (keys : List KeyArg) (world : World) :
    Option (Option OwnedDb × World) :=
  command answers .multiGet 0 (keysText keys) world

def dbmultiDel (answers : Answers) (keys : List KeyArg) (world : World) :
    Option (Option OwnedDb × World) :=
  command answers .multiDel (keys.length % 2 ^ 16) (keysText keys) world

def dbfree (db : Option OwnedDb) (world : World) : World :=
  match db with
  | none => world
  | some db =>
    let world := if db.freeKvs0Key then world.wysFree db.keyBlock else world
    ((world.wysFree db.bufBlock).wysFree db.kvsBlock).wysFree (some db.block)

end Commands

section Layers

theorem freeKey0_toDb (db : OwnedDb) (cmd : DbCmd) (world : World) :
    (freeKey0 db cmd world).map (fun result => result.1.toDb) =
      WaterWall.freeKey0 db.toDb cmd := by
  rw [freeKey0]
  cases WaterWall.freeKey0 db.toDb cmd <;> rfl

theorem phraseBody_toDb (splitOk : Bool) (db : OwnedDb) (rcvLen p : Nat) (cmd : DbCmd)
    (world : World) :
    (phraseBody splitOk db rcvLen p cmd world).map (fun result => result.1.toDb) =
      WaterWall.phraseBody splitOk db.toDb rcvLen p cmd := by
  rw [phraseBody]
  cases WaterWall.phraseBody splitOk db.toDb rcvLen p cmd with
  | none => rfl
  | some plain => cases splits cmd <;> simp

/-- The ownership model decodes replies as the model of `_dbphrase` does. -/
theorem dbphrase_toDb (splitOk : Bool) (rcvLen : Nat) (db : OwnedDb) (cmd : DbCmd)
    (world : World) :
    (dbphrase splitOk rcvLen db cmd world).map (fun result => result.1.toDb) =
      WaterWall.dbphrase splitOk rcvLen db.toDb cmd := by
  simp only [dbphrase, WaterWall.dbphrase, Option.bind_eq_bind]
  cases dbatoi db.srcBuf 0 with
  | none => rfl
  | some len =>
    simp only [Option.bind_some]
    split_ifs
    · rfl
    · cases nextLine db.srcBuf rcvLen 0 with
      | none => rfl
      | some p =>
        grind [freeKey0_toDb, phraseBody_toDb]

theorem setText_request (key : Option CString) (keyLen : Int) (val : Option Bytes)
    (valLen : Int) :
    (setText key keyLen val valLen).request .set = Request.dbset key keyLen val valLen := by
  cases key with
  | none => rfl
  | some key =>
    cases val with
    | none => rfl
    | some val =>
      simp only [setText, Request.dbset]
      split_ifs
      · rfl
      · simp only [Text.request, Request.ok_bind, bind_assoc, pure_bind]

theorem keyText_request (cmd : DbCmd) (key : CString) (keyLen : Int) :
    Text.request cmd (some (.ok (keyText key keyLen))) = Request.keyCommand cmd key keyLen := by
  simp only [Text.request, keyText, Request.keyCommand, Request.ok_bind, bind_assoc, pure_bind]

theorem delText_request (key : Option CString) (keyLen : Int) :
    (delText key keyLen).request .del = Request.dbdel key keyLen := by
  cases key with
  | none => rfl
  | some key =>
    simp only [delText, Request.dbdel, Request.dbdelExists]
    split_ifs
    · rfl
    · exact keyText_request .del key keyLen

theorem scanText_request (start : Option CString) (startLen : Int) (stop : Option CString)
    (stopLen max : Int) :
    (scanText start startLen stop stopLen max).request .scan =
      Request.dbscan start startLen stop stopLen max := by
  cases start with
  | none => rfl
  | some start =>
    cases stop with
    | none => rfl
    | some stop =>
      grind [scanText, Request.dbscan, Text.request, bind_assoc]

theorem kvsText_request (kvs : List KvArg) :
    (kvsText kvs).request .multiSet = Request.dbmultiSet kvs := by
  grind [kvsText, Request.dbmultiSet, Text.request, bind_assoc]

theorem keysText_request (cmd : DbCmd) (keys : List KeyArg) :
    (keysText keys).request cmd = Request.dbmultiKeys cmd keys := by
  grind [keysText, Request.dbmultiKeys, Text.request, bind_assoc]

end Layers

/-- The records of the free list. -/
def World.poolBlocks (world : World) : Multiset Nat :=
  ↑(world.freeConns.map PoolConn.record)

def World.poolFiles (world : World) : Multiset Nat :=
  ↑(world.freeConns.map PoolConn.fd)

/-- Every block and descriptor has been given back once, is on the free list, is one of `held`
or `heldFiles`, which somebody else still has, or is one that an error left behind. -/
structure World.Settled (world : World) (held heldFiles : Multiset Nat) : Prop where
  blocks : world.blocks.Settled (held + world.poolBlocks + world.recvErrors)
  files : world.files.Settled (heldFiles + world.poolFiles + world.connectErrors)

/-- The account of a call so far. -/
structure Account (start world : World) (held heldFiles : Multiset Nat) : Prop where
  blocks : Kept start.blocks world.blocks start.recvErrors world.recvErrors
    (held + world.poolBlocks)
  files : Kept start.files world.files start.connectErrors world.connectErrors
    (heldFiles + world.poolFiles)

/-- What a result owns: the key copy only while it says so. -/
def OwnedDb.owns (db : OwnedDb) : Multiset Nat :=
  {db.block} + owned db.kvsBlock + owned db.bufBlock +
    if db.freeKvs0Key then owned db.keyBlock else 0

section Account

variable {start world : World} {held heldFiles : Multiset Nat}

theorem World.Settled.account (hsettled : start.Settled held heldFiles) :
    Account start start held heldFiles where
  blocks := hsettled.blocks.kept
  files := hsettled.files.kept

theorem Account.settled (haccount : Account start world held heldFiles) :
    world.Settled held heldFiles where
  blocks := haccount.blocks.settled
  files := haccount.files.settled

theorem Account.ofZero (haccount : Account start world (0 + held) heldFiles) :
    Account start world held heldFiles := by
  rwa [zero_add] at haccount

theorem Account.malloc (haccount : Account start world held heldFiles) (ok : Bool) :
    Account start (world.wysMalloc ok).2 (owned (world.wysMalloc ok).1 + held) heldFiles := by
  cases ok with
  | false =>
    rw [← zero_add held] at haccount
    exact haccount
  | true =>
    refine ⟨?_, haccount.files⟩
    change Kept _ _ _ _ ({world.blocks.next} + held + world.poolBlocks)
    rw [add_assoc]
    exact haccount.blocks.acquire

theorem Account.free {ptr : Option Nat}
    (haccount : Account start world (owned ptr + held) heldFiles) :
    Account start (world.wysFree ptr) held heldFiles where
  blocks := by
    have hblocks := haccount.blocks
    rw [add_assoc] at hblocks
    exact hblocks.release
  files := haccount.files

theorem Account.malloc_fresh (haccount : Account start world held heldFiles) (ok : Bool) :
    ∀ buf, (world.wysMalloc ok).1 = some buf → start.blocks.next ≤ buf := by
  intro buf hbuf
  cases ok with
  | false => cases hbuf
  | true =>
    cases hbuf
    exact haccount.blocks.grows

theorem Account.recvFailed {buf : Nat} (haccount : Account start world ({buf} + held) heldFiles)
    (hfresh : start.blocks.next ≤ buf) :
    Account start (world.recvFailed buf) held heldFiles where
  blocks := by
    have hblocks := haccount.blocks
    rw [add_assoc] at hblocks
    exact hblocks.lose hfresh
  files := haccount.files

theorem Account.openSocket (haccount : Account start world held heldFiles) :
    Account start world.openSocket.2 held ({world.openSocket.1} + heldFiles) where
  blocks := haccount.blocks
  files := by
    rw [add_assoc]
    exact haccount.files.acquire

theorem Account.connectFailed {fd : Nat}
    (haccount : Account start world held ({fd} + heldFiles)) (hfresh : start.files.next ≤ fd) :
    Account start (world.connectFailed fd) held heldFiles where
  blocks := haccount.blocks
  files := by
    have hfiles := haccount.files
    rw [add_assoc] at hfiles
    exact hfiles.lose hfresh

theorem Account.destory {conn : PoolConn}
    (haccount : Account start world ({conn.record} + held) ({conn.fd} + heldFiles)) :
    Account start (world.dbConnDestory conn) held heldFiles := by
  have hclosed : Account start { world with files := world.files.release (some conn.fd) }
      ({conn.record} + held) heldFiles := by
    refine ⟨haccount.blocks, ?_⟩
    have hfiles := haccount.files
    rw [add_assoc] at hfiles
    exact hfiles.release
  exact Account.free hclosed

theorem poolBlocks_dbConnFree (conn : PoolConn) :
    (world.dbConnFree conn).poolBlocks = {conn.record} + world.poolBlocks := by
  simp [World.dbConnFree, World.poolBlocks, ← Multiset.coe_add, add_comm]

theorem poolFiles_dbConnFree (conn : PoolConn) :
    (world.dbConnFree conn).poolFiles = {conn.fd} + world.poolFiles := by
  simp [World.dbConnFree, World.poolFiles, ← Multiset.coe_add, add_comm]

theorem Account.connFree {conn : PoolConn}
    (haccount : Account start world ({conn.record} + held) ({conn.fd} + heldFiles)) :
    Account start (world.dbConnFree conn) held heldFiles where
  blocks := by
    rw [poolBlocks_dbConnFree, add_left_comm, ← add_assoc]
    exact haccount.blocks
  files := by
    rw [poolFiles_dbConnFree, add_left_comm, ← add_assoc]
    exact haccount.files

theorem Account.newConn (haccount : Account start world held heldFiles) (round : Round) :
    Account start (dbNewConn round world).2
      (owned ((dbNewConn round world).1.map PoolConn.record) + held)
      (owned ((dbNewConn round world).1.map PoolConn.fd) + heldFiles) := by
  have hmalloc := haccount.malloc round.recordOk
  rw [dbNewConn]
  generalize world.wysMalloc round.recordOk = result at hmalloc
  obtain ⟨ptr, world⟩ := result
  cases ptr with
  | none =>
    rw [← zero_add heldFiles] at hmalloc
    exact hmalloc
  | some record =>
    cases round.socketOk with
    | false =>
      simpa [owned] using hmalloc.free
    | true =>
      have hsocket := hmalloc.openSocket
      cases round.connectOk with
      | false =>
        simpa [owned] using (hsocket.connectFailed hmalloc.files.grows).free
      | true => exact hsocket

theorem Account.getConn (haccount : Account start world held heldFiles) (round : Round) :
    Account start (dbGetConn round world).2
      (owned ((dbGetConn round world).1.map PoolConn.record) + held)
      (owned ((dbGetConn round world).1.map PoolConn.fd) + heldFiles) := by
  rw [dbGetConn]
  split
  · exact haccount.newConn round
  · rename_i conn rest hfree
    have hblocks := haccount.blocks
    have hfiles := haccount.files
    have hpool : world.poolBlocks = {conn.record} + ↑(rest.map PoolConn.record) := by
      rw [World.poolBlocks, hfree]
      rfl
    have hpoolFiles : world.poolFiles = {conn.fd} + ↑(rest.map PoolConn.fd) := by
      rw [World.poolFiles, hfree]
      rfl
    rw [hpool, add_left_comm, ← add_assoc] at hblocks
    rw [hpoolFiles, add_left_comm, ← add_assoc] at hfiles
    exact ⟨hblocks, hfiles⟩

theorem Account.realloc {buf : Nat} (haccount : Account start world ({buf} + held) heldFiles)
    (ok moved : Bool) :
    Account start (world.wysRealloc buf ok moved).2
      (owned (world.wysRealloc buf ok moved).1 + held) heldFiles := by
  cases ok with
  | false =>
    have hfreed : Account start (world.wysFree (some buf)) held heldFiles := haccount.free
    rwa [← zero_add held] at hfreed
  | true =>
    cases moved with
    | false => exact haccount
    | true =>
      have hmalloc := haccount.malloc true
      rw [add_left_comm] at hmalloc
      exact hmalloc.free

theorem Account.grow {buf : Nat} (haccount : Account start world ({buf} + held) heldFiles)
    (answer : RecvAnswer) (full : Bool) :
    Account start (growFull answer full buf world).2
      (owned (growFull answer full buf world).1 + held) heldFiles := by
  cases full with
  | false => exact haccount
  | true => exact haccount.realloc answer.reallocOk answer.moved

theorem Account.grow_fresh {buf : Nat} (haccount : Account start world held heldFiles)
    (hfresh : start.blocks.next ≤ buf) (answer : RecvAnswer) (full : Bool) :
    ∀ grown, (growFull answer full buf world).1 = some grown → start.blocks.next ≤ grown := by
  intro grown hgrown
  have hnext := haccount.blocks.grows
  grind [growFull, World.wysRealloc]

/-- What a receive owes: the buffer belongs to the one who gets it. -/
def RecvEnd.buffer : RecvEnd → Multiset Nat
  | .received buf _ _ => {buf}
  | .failed => 0
  | .overrun => 0

theorem Account.recvLoop {buf : Nat} (round : Round) (later : List RecvAnswer)
    (haccount : Account start world ({buf} + held) heldFiles) (hfresh : start.blocks.next ≤ buf)
    (data : Bytes) (rLen rBuflen : Nat)
    (hend : (dbrecvLoop round later buf data rLen rBuflen world).1 ≠ .overrun) :
    Account start (dbrecvLoop round later buf data rLen rBuflen world).2
      ((dbrecvLoop round later buf data rLen rBuflen world).1.buffer + held) heldFiles := by
  induction later generalizing world buf data rLen rBuflen with
  | nil =>
    rw [dbrecvLoop] at hend ⊢
    split_ifs
    · exact haccount
    · simpa [RecvEnd.buffer] using haccount.recvFailed hfresh
  | cons answer later ih =>
    have hgrow := haccount.grow answer (data.length == rBuflen)
    have hgrown := haccount.grow_fresh hfresh answer (data.length == rBuflen)
    rw [dbrecvLoop] at hend ⊢
    split_ifs at hend ⊢
    · exact haccount
    · simp only at hend ⊢
      generalize growFull answer (data.length == rBuflen) buf world = result at *
      obtain ⟨ptr, world⟩ := result
      cases ptr with
      | none => exact hgrow
      | some buf =>
        have hfresh := hgrown buf rfl
        simp only at hend ⊢
        generalize answer.data.take _ = got at *
        generalize (if (data.length == rBuflen) = true then rBuflen + dbBuflen
          else rBuflen) = space at *
        by_cases hnone : got.length = 0
        · simpa [hnone, RecvEnd.buffer] using hgrow.recvFailed hfresh
        · rw [if_neg hnone] at hend ⊢
          by_cases hover : space < data.length + got.length
          · rw [if_pos hover] at hend
            exact absurd rfl hend
          · rw [if_neg hover] at hend ⊢
            exact ih hgrow hfresh (data ++ got) got.length space hend

theorem Account.recv (haccount : Account start world held heldFiles) (round : Round)
    (hend : (dbrecv round world).1 ≠ .overrun) :
    Account start (dbrecv round world).2 ((dbrecv round world).1.buffer + held) heldFiles := by
  have hmalloc := haccount.malloc round.bufOk
  have hfresh := haccount.malloc_fresh round.bufOk
  rw [dbrecv] at hend ⊢
  generalize world.wysMalloc round.bufOk = result at *
  obtain ⟨ptr, world⟩ := result
  cases ptr with
  | none => exact hmalloc
  | some buf =>
    simp only at hend ⊢
    split_ifs at hend ⊢
    · simpa [RecvEnd.buffer] using hmalloc.recvFailed (hfresh buf rfl)
    · exact hmalloc.recvLoop round round.later (hfresh buf rfl) _ _ dbBuflen hend

end Account

section Calls

variable {start world : World} {held heldFiles : Multiset Nat}

/-- What `_dbcmd` is called with: the key of `dbget` belongs to the result, and there is no
array where a reply brings one. -/
structure OwnedDb.Ready (cmd : DbCmd) (db : OwnedDb) : Prop where
  key : cmd = .get → db.freeKvs0Key = true
  kvs : splits cmd = true → db.kvsBlock = none
  buf : db.bufBlock = none

theorem dbsplitkvLoop_freeKvs0Key {buf : Nat} {bufLen : Int} {fuel idx pk : Nat}
    {db final : Db} (hloop : dbsplitkvLoop buf bufLen fuel db idx pk = some final) :
    final.freeKvs0Key = db.freeKvs0Key := by
  induction fuel generalizing db idx pk with
  | zero => cases hloop
  | succ fuel ih =>
    rw [dbsplitkvLoop] at hloop
    split_ifs at hloop
    · simp only [Option.bind_eq_bind, Option.bind_eq_some_iff] at hloop
      obtain ⟨⟨keyLen, key, mem⟩, _, ⟨valLen, val, last⟩, _, kvs, _, hloop⟩ := hloop
      have hsame := ih hloop
      exact hsame
    · cases hloop
      rfl

theorem dbsplitkv_freeKvs0Key {kvsAlloc : Bool} {db final : Db} {buf : Nat} {bufLen : Int}
    {code rno : DbRno} (hsplit : dbsplitkv kvsAlloc db buf bufLen code = some (rno, final)) :
    final.freeKvs0Key = db.freeKvs0Key := by
  simp only [dbsplitkv, Option.bind_eq_bind, Option.bind_eq_some_iff] at hsplit
  obtain ⟨kvn, _, hsplit⟩ := hsplit
  split_ifs at hsplit
  · obtain ⟨last, hloop, hsome⟩ := Option.bind_eq_some_iff.mp hsplit
    have hsame := dbsplitkvLoop_freeKvs0Key hloop
    cases hsome
    exact hsame
  all_goals
    cases hsplit
    rfl

theorem phrasePairs_freeKvs0Key {splitOk : Bool} {db final : Db} {rcvLen p : Nat}
    {code : DbRno} (hpairs : phrasePairs splitOk db rcvLen p code = some final) :
    final.freeKvs0Key = db.freeKvs0Key := by
  grind [phrasePairs, Option.bind_eq_some_iff, dbsplitkv_freeKvs0Key]

theorem phraseValue_freeKvs0Key {db final : Db} {rcvLen p : Nat} {code : DbRno}
    (hvalue : phraseValue db rcvLen p code = some final) :
    final.freeKvs0Key = db.freeKvs0Key := by
  simp only [phraseValue, Option.bind_eq_bind, Option.bind_eq_some_iff] at hvalue
  obtain ⟨len, _, val, _, mem, _, kvs, _, hsome⟩ := hvalue
  cases hsome
  rfl

theorem phraseCount_freeKvs0Key {db final : Db} {rcvLen p : Nat} {code : DbRno}
    (hcount : phraseCount db rcvLen p code = some final) :
    final.freeKvs0Key = db.freeKvs0Key := by
  grind [phraseCount, Option.bind_eq_some_iff]

theorem phraseBody_freeKvs0Key {splitOk : Bool} {db final : Db} {rcvLen p : Nat} {cmd : DbCmd}
    (hbody : WaterWall.phraseBody splitOk db rcvLen p cmd = some final) :
    final.freeKvs0Key = db.freeKvs0Key := by
  cases cmd with
  | get | dbsize => exact phraseValue_freeKvs0Key hbody
  | multiGet | scan => exact phrasePairs_freeKvs0Key hbody
  | multiSet | multiDel => exact phraseCount_freeKvs0Key hbody
  | del | flushdb | clrBinlog | compact =>
    cases hbody
    rfl
  | set =>
    grind [WaterWall.phraseBody, Option.bind_eq_some_iff]
  | «exists» =>
    grind [WaterWall.phraseBody, Option.bind_eq_some_iff]

variable {db final : OwnedDb} {cmd : DbCmd} {next : World}

theorem Account.freeKey0 (haccount : Account start world (db.owns + held) heldFiles)
    (hkey : cmd = .get → db.freeKvs0Key = true)
    (hfree : Ownership.freeKey0 db cmd world = some (final, next)) :
    Account start next (final.owns + held) heldFiles := by
  simp only [Ownership.freeKey0, Option.bind_eq_bind, Option.bind_eq_some_iff] at hfree
  obtain ⟨plain, hplain, hsome⟩ := hfree
  cases hsome
  by_cases hget : cmd = .get
  · have howns : db.owns =
        owned db.keyBlock + ({db.block} + owned db.kvsBlock + owned db.bufBlock) := by
      rw [OwnedDb.owns, if_pos (hkey hget), add_comm]
    have hcleared : plain.freeKvs0Key = false := by
      grind [WaterWall.freeKey0]
    rw [if_pos hget, OwnedDb.owns, if_neg (by simp [hcleared]), add_zero]
    rw [howns, add_assoc] at haccount
    exact haccount.free
  · have hsame : plain = db.toDb := by
      cases cmd with
      | get => exact absurd rfl hget
      | _ =>
        cases hplain
        rfl
    rw [if_neg hget, hsame]
    exact haccount

theorem Account.phraseBody {splitOk : Bool} {rcvLen p : Nat}
    (haccount : Account start world (db.owns + held) heldFiles)
    (hkvs : splits cmd = true → db.kvsBlock = none)
    (hbody : Ownership.phraseBody splitOk db rcvLen p cmd world = some (final, next)) :
    Account start next (final.owns + held) heldFiles := by
  simp only [Ownership.phraseBody, Option.bind_eq_bind, Option.bind_eq_some_iff] at hbody
  obtain ⟨plain, hplain, hsome⟩ := hbody
  have hkey := phraseBody_freeKvs0Key hplain
  split_ifs at hsome with hsplit
  · have hmalloc := haccount.malloc splitOk
    cases hsome
    have howns : owned (world.wysMalloc splitOk).1 + (db.owns + held) =
        OwnedDb.owns { db with toDb := plain, kvsBlock := (world.wysMalloc splitOk).1 } +
          held := by
      simp only [OwnedDb.owns, hkey, hkvs hsplit, owned]
      abel
    rw [howns] at hmalloc
    exact hmalloc
  grind [OwnedDb.owns]

theorem Account.phrase {splitOk : Bool} {rcvLen : Nat}
    (haccount : Account start world (db.owns + held) heldFiles)
    (hkey : cmd = .get → db.freeKvs0Key = true)
    (hkvs : splits cmd = true → db.kvsBlock = none)
    (hphrase : dbphrase splitOk rcvLen db cmd world = some (final, next)) :
    Account start next (final.owns + held) heldFiles := by
  simp only [dbphrase, Option.bind_eq_bind, Option.bind_eq_some_iff] at hphrase
  obtain ⟨len, _, hphrase⟩ := hphrase
  split_ifs at hphrase
  · cases hphrase
    exact haccount
  · obtain ⟨p, _, hphrase⟩ := Option.bind_eq_some_iff.mp hphrase
    split_ifs at hphrase
    · refine Account.freeKey0 ?_ ?_ hphrase
      · exact haccount
      · exact hkey
    · refine Account.phraseBody ?_ ?_ hphrase
      · exact haccount
      · exact hkvs

theorem Account.doLoop {answers : Answers} {request : Bytes} {tries index : Nat}
    (hready : db.Ready cmd) (haccount : Account start world (db.owns + held) heldFiles)
    (hdo : dbdoLoop answers request cmd tries index db world = some (final, next)) :
    Account start next (final.owns + held) heldFiles := by
  induction tries generalizing index db world with
  | zero =>
    cases hdo
    exact haccount
  | succ tries ih =>
    have hconn := haccount.getConn (answers.rounds index)
    rw [dbdoLoop] at hdo
    generalize dbGetConn (answers.rounds index) world = got at *
    obtain ⟨conn, world⟩ := got
    cases conn with
    | none =>
      cases hdo
      rw [← zero_add heldFiles]
      exact Account.ofZero hconn
    | some conn =>
      simp only at hdo
      -- a connection that fails is destroyed and the next round starts without it
      have hretry : ∀ world, Account start world ({conn.record} + (db.owns + held))
          ({conn.fd} + heldFiles) →
          dbdoLoop answers request cmd tries (index + 1) { db with rno := .connectErr }
            (world.dbConnDestory conn) = some (final, next) →
          Account start next (final.owns + held) heldFiles := by
        intro world haccount hdo
        refine ih ?_ ?_ hdo
        · exact ⟨hready.key, hready.kvs, hready.buf⟩
        · exact haccount.destory
      split_ifs at hdo
      · split at hdo
        · rename_i buf mem rcvLen after hrecv
          have hreceived := hconn.recv (answers.rounds index) (by rw [hrecv]; nofun)
          rw [hrecv] at hreceived
          change Account start after ({buf} + ({conn.record} + (db.owns + held)))
            ({conn.fd} + heldFiles) at hreceived
          rw [add_left_comm] at hreceived
          refine Account.phrase ?_ ?_ ?_ hdo
          · grind [OwnedDb.owns, owned, OwnedDb.Ready.buf, connFree]
          · exact hready.key
          · exact hready.kvs
        · rename_i after hrecv
          have hfailed := hconn.recv (answers.rounds index) (by rw [hrecv]; nofun)
          rw [hrecv] at hfailed
          refine hretry after ?_ hdo
          simpa [RecvEnd.buffer, owned] using hfailed
        · cases hdo
      · exact hretry world hconn hdo

theorem Account.request {answers : Answers} {data : Bytes} {datalen : Int}
    (hready : db.Ready cmd) (haccount : Account start world (db.owns + held) heldFiles)
    (hcmd : dbcmd answers cmd data datalen db world = some (final, next)) :
    Account start next (final.owns + held) heldFiles := by
  have hmalloc := haccount.malloc answers.requestOk
  rw [dbcmd] at hcmd
  generalize world.wysMalloc answers.requestOk = result at *
  obtain ⟨ptr, world⟩ := result
  cases ptr with
  | none =>
    cases hcmd
    exact Account.ofZero hmalloc
  | some block =>
    simp only at hcmd
    split at hcmd
    · cases hcmd
    · simp only [Option.bind_eq_bind, Option.bind_eq_some_iff] at hcmd
      obtain ⟨⟨last, after⟩, hdo, hsome⟩ := hcmd
      cases hsome
      change Account start world ({block} + (db.owns + held)) heldFiles at hmalloc
      rw [add_left_comm] at hmalloc
      have hdone := Account.doLoop hready hmalloc hdo
      rw [add_left_comm] at hdone
      exact hdone.free

theorem Account.text {answers : Answers} {kvn : Nat} {format : Except Request.Stop (Bytes × Int)}
    (hready : db.Ready cmd) (haccount : Account start world (db.owns + held) heldFiles)
    (htext : sendText answers cmd kvn format db world = some (final, next)) :
    Account start next (final.owns + held) heldFiles := by
  have hmalloc := haccount.malloc answers.dataOk
  rw [sendText] at htext
  generalize world.wysMalloc answers.dataOk = result at *
  obtain ⟨ptr, world⟩ := result
  cases ptr with
  | none =>
    cases htext
    exact Account.ofZero hmalloc
  | some block =>
    simp only at htext
    split at htext
    · cases htext
    · simp only [Option.bind_eq_bind, Option.bind_eq_some_iff] at htext
      obtain ⟨⟨last, after⟩, hcmd, hsome⟩ := htext
      cases hsome
      change Account start world ({block} + (db.owns + held)) heldFiles at hmalloc
      rw [add_left_comm] at hmalloc
      have hdone : Account start after (last.owns + ({block} + held)) heldFiles := by
        refine Account.request ?_ ?_ hcmd
        · exact ⟨hready.key, hready.kvs, hready.buf⟩
        · exact hmalloc
      rw [add_left_comm] at hdone
      exact hdone.free

/-- What the result of a command owns, nothing if it is NULL. -/
def ownsResult : Option OwnedDb → Multiset Nat
  | none => 0
  | some db => db.owns

theorem owns_cleared (block : Nat) : (OwnedDb.cleared block).owns = {block} := by
  simp [OwnedDb.owns, OwnedDb.cleared, owned]

theorem Account.create (haccount : Account start world held heldFiles) (ok : Bool) :
    Account start (dbcreate ok world).2 (ownsResult (dbcreate ok world).1 + held) heldFiles := by
  have hmalloc := haccount.malloc ok
  rw [dbcreate]
  generalize world.wysMalloc ok = result at *
  obtain ⟨ptr, world⟩ := result
  cases ptr with
  | none => exact hmalloc
  | some block =>
    change Account start world ((OwnedDb.cleared block).owns + held) heldFiles
    rw [owns_cleared]
    exact hmalloc

theorem dbcreate_cleared (ok : Bool) :
    ∀ db, (dbcreate ok world).1 = some db → db = .cleared db.block := by
  intro db hcreate
  cases ok <;> cases hcreate
  rfl

theorem ready_cleared (block : Nat) (hcmd : cmd ≠ .get) : (OwnedDb.cleared block).Ready cmd :=
  ⟨fun hget => absurd hget hcmd, fun _ => rfl, rfl⟩

theorem Account.command {answers : Answers} {kvn : Nat} {text : Text} {result : Option OwnedDb}
    (hcmd : cmd ≠ .get) (haccount : Account start world held heldFiles)
    (hcommand : Ownership.command answers cmd kvn text world = some (result, next)) :
    Account start next (ownsResult result + held) heldFiles := by
  have hcreate := haccount.create answers.dbOk
  have hcleared := @dbcreate_cleared world answers.dbOk
  rw [Ownership.command] at hcommand
  generalize dbcreate answers.dbOk world = created at *
  obtain ⟨db, world⟩ := created
  cases db with
  | none =>
    cases hcommand
    exact hcreate
  | some db =>
    simp only at hcommand
    split at hcommand
    · cases hcommand
      exact hcreate
    · cases hcommand
    · simp only [Option.bind_eq_bind, Option.bind_eq_some_iff] at hcommand
      obtain ⟨⟨last, after⟩, htext, hsome⟩ := hcommand
      cases hsome
      have hready : db.Ready cmd := by
        rw [hcleared db rfl]
        exact ready_cleared db.block hcmd
      exact Account.text hready hcreate htext

theorem Account.getKey {answers : Answers} {key : CString} {keyLen : Int}
    (hcleared : db = .cleared db.block)
    (haccount : Account start world (db.owns + held) heldFiles)
    (hget : Ownership.getKey answers key keyLen db world = some (final, next)) :
    Account start next (final.owns + held) heldFiles := by
  have hkvs := haccount.malloc answers.kvsOk
  rw [Ownership.getKey] at hget
  generalize world.wysMalloc answers.kvsOk = result at *
  obtain ⟨ptr, world⟩ := result
  cases ptr with
  | none =>
    cases hget
    exact Account.ofZero hkvs
  | some kvs =>
    have hkey := hkvs.malloc answers.keyOk
    simp only at hget hkey
    generalize world.wysMalloc answers.keyOk = result at *
    obtain ⟨ptr, world⟩ := result
    cases ptr with
    | none =>
      grind [OwnedDb.owns, owns_cleared, OwnedDb.cleared]
    | some copy =>
      simp only at hget
      split at hget
      · cases hget
      · refine Account.text ?_ ?_ hget
        · rw [hcleared]
          exact ⟨fun _ => rfl, nofun, rfl⟩
        grind [OwnedDb.owns, owned, OwnedDb.cleared]

theorem Account.get {answers : Answers} {key : Option CString} {keyLen : Int}
    {result : Option OwnedDb} (haccount : Account start world held heldFiles)
    (hget : dbget answers key keyLen world = some (result, next)) :
    Account start next (ownsResult result + held) heldFiles := by
  have hcreate := haccount.create answers.dbOk
  have hcleared := @dbcreate_cleared world answers.dbOk
  rw [dbget] at hget
  generalize dbcreate answers.dbOk world = created at *
  obtain ⟨db, world⟩ := created
  cases db with
  | none =>
    cases hget
    exact hcreate
  | some db =>
    simp only at hget
    split at hget
    · cases hget
      exact hcreate
    · split_ifs at hget
      · cases hget
        exact hcreate
      · simp only [Option.bind_eq_bind, Option.bind_eq_some_iff] at hget
        obtain ⟨⟨last, after⟩, hkey, hsome⟩ := hget
        cases hsome
        exact Account.getKey (hcleared db rfl) hcreate hkey

/-- The calls of the seven commands. -/
inductive Call where
  | get (key : Option CString) (keyLen : Int)
  | set (key : Option CString) (keyLen : Int) (val : Option Bytes) (valLen : Int)
  | del (key : Option CString) (keyLen : Int)
  | scan (start : Option CString) (startLen : Int) (stop : Option CString) (stopLen max : Int)
  | multiSet (kvs : List KvArg)
  | multiGet (keys : List KeyArg)
  | multiDel (keys : List KeyArg)

def Call.issue (answers : Answers) (world : World) : Call → Option (Option OwnedDb × World)
  | .get key keyLen => dbget answers key keyLen world
  | .set key keyLen val valLen => dbset answers key keyLen val valLen world
  | .del key keyLen => dbdel answers key keyLen world
  | .scan start startLen stop stopLen max =>
    dbscan answers start startLen stop stopLen max world
  | .multiSet kvs => dbmultiSet answers kvs world
  | .multiGet keys => dbmultiGet answers keys world
  | .multiDel keys => dbmultiDel answers keys world

/-- A call and then `dbfree` of its result; `none` when the call faults. -/
def Call.thenFree (answers : Answers) (world : World) (call : Call) : Option World := do
  let (db, world) ← call.issue answers world
  some (dbfree db world)

theorem Account.issue {answers : Answers} {call : Call} {result : Option OwnedDb}
    (haccount : Account start world held heldFiles)
    (hissue : call.issue answers world = some (result, next)) :
    Account start next (ownsResult result + held) heldFiles := by
  cases call with
  | get key keyLen => exact haccount.get hissue
  | _ => exact Account.command (by decide) haccount hissue

theorem Account.dbfree {result : Option OwnedDb}
    (haccount : Account start world (ownsResult result + held) heldFiles) :
    Account start (Ownership.dbfree result world) held heldFiles := by
  cases result with
  | none =>
    exact Account.ofZero haccount
  | some db =>
    have hkey : Account start (if db.freeKvs0Key then world.wysFree db.keyBlock else world)
        (owned db.bufBlock + (owned db.kvsBlock + (owned (some db.block) + held)))
        heldFiles := by
      split_ifs with hfree
      · apply Account.free
        have howns : ownsResult (some db) + held = owned db.keyBlock +
            (owned db.bufBlock + (owned db.kvsBlock + (owned (some db.block) + held))) := by
          simp only [ownsResult, OwnedDb.owns, if_pos hfree, owned]
          abel
        rw [← howns]
        exact haccount
      · have howns : ownsResult (some db) + held =
            owned db.bufBlock + (owned db.kvsBlock + (owned (some db.block) + held)) := by
          simp only [ownsResult, OwnedDb.owns, if_neg hfree, owned]
          abel
        rw [← howns]
        exact haccount
    exact hkey.free.free.free

theorem Account.thenFree {answers : Answers} {call : Call}
    (haccount : Account start world held heldFiles)
    (hcall : call.thenFree answers world = some next) :
    Account start next held heldFiles := by
  simp only [Call.thenFree, Option.bind_eq_bind, Option.bind_eq_some_iff] at hcall
  obtain ⟨⟨result, after⟩, hissue, hsome⟩ := hcall
  cases hsome
  exact (haccount.issue hissue).dbfree

end Calls

/-- Each block and descriptor that was given out between the two moments has been given back
once, except for those of the free list. -/
structure NoLeak (start world : World) : Prop where
  blocks : ∀ block, start.blocks.next ≤ block → block < world.blocks.next →
    world.blocks.released.count block = if block ∈ world.poolBlocks then 0 else 1
  files : ∀ fd, start.files.next ≤ fd → fd < world.files.next →
    world.files.released.count fd = if fd ∈ world.poolFiles then 0 else 1

/-- A call with its `dbfree` leaks nothing just when no `connect` of it failed and no `recv`
returned 0 or -1.  What was in order before is so afterwards. -/
theorem ssdbCall_noLeak_iff {start world : World} {held heldFiles : Multiset Nat}
    (hstart : start.Settled held heldFiles) (answers : Answers) (call : Call)
    (hcall : call.thenFree answers start = some world) :
    world.Settled held heldFiles ∧
      (NoLeak start world ↔
        world.connectErrors = start.connectErrors ∧ world.recvErrors = start.recvErrors) := by
  have haccount := hstart.account.thenFree hcall
  have hblocks := haccount.blocks.returned_iff hstart.blocks
  have hfiles := haccount.files.returned_iff hstart.files
  refine ⟨haccount.settled, ?_⟩
  constructor
  · intro hnone
    exact ⟨hfiles.mp hnone.files, hblocks.mp hnone.blocks⟩
  · rintro ⟨hconnects, hrecvs⟩
    exact ⟨hblocks.mpr hrecvs, hfiles.mpr hconnects⟩

theorem settled_dbinit : dbinit.Settled 0 0 :=
  ⟨Ledger.settled_empty, Ledger.settled_empty⟩

/-- A sequence of calls, each with its `dbfree`. -/
def runCalls : World → List (Answers × Call) → Option World
  | world, [] => some world
  | world, (answers, call) :: rest => do
      let world ← call.thenFree answers world
      runCalls world rest

theorem ssdbCalls_settled {start world : World} {held heldFiles : Multiset Nat}
    (hstart : start.Settled held heldFiles) {calls : List (Answers × Call)}
    (hrun : runCalls start calls = some world) : world.Settled held heldFiles := by
  induction calls generalizing start with
  | nil =>
    cases hrun
    exact hstart
  | cons head rest ih =>
    simp only [runCalls, Option.bind_eq_bind, Option.bind_eq_some_iff] at hrun
    obtain ⟨next, hcall, hrest⟩ := hrun
    exact ih (hstart.account.thenFree hcall).settled hrest

end Ownership

namespace OwnershipWitness

open ByteText Ownership

theorem key_noNul : (0 : Byte) ∉ ([107] : Bytes) := by decide

/-- `dbset("k", 1, "v", 1)`. -/
def call : Call := .set (some ⟨[107], key_noNul⟩) 1 (some [118]) 1

def round (connectOk : Bool) (reply : Bytes) : Round where
  recordOk := true
  socketOk := true
  connectOk := connectOk
  sends _ := 1024
  bufOk := true
  first := reply
  later := []
  before := 0
  stale _ := 0

def answers (connectOk : Bool) (reply : Bytes) : Answers :=
  ⟨true, true, true, true, true, true, fun _ => round connectOk reply⟩

/-- The result, the text, the request and the buffer are freed and the new connection is on
the free list. -/
def answered : World := ⟨⟨5, {0, 4, 1, 2}⟩, ⟨1, 0⟩, [⟨3, 0⟩], 0, 0⟩

theorem thenFree_answered :
    call.thenFree (answers true (ascii "2\nok\n1\n1\n\n")) dbinit = some answered := by
  decide +kernel

theorem noLeak_answered : dbinit.Settled 0 0 ∧
    call.thenFree (answers true (ascii "2\nok\n1\n1\n\n")) dbinit = some answered ∧
    NoLeak dbinit answered :=
  ⟨settled_dbinit, thenFree_answered,
    (ssdbCall_noLeak_iff settled_dbinit _ call thenFree_answered).2.mpr ⟨rfl, rfl⟩⟩

/-- `connect` has failed: its descriptor is still open. -/
def refused : World := ⟨⟨4, {0, 1, 2, 3}⟩, ⟨1, 0⟩, [], {0}, 0⟩

/-- `recv` has failed on four connections: the buffers 4, 6, 8 and 10 are not freed. -/
def unanswered : World := ⟨⟨11, {0, 1, 2, 9, 7, 5, 3}⟩, ⟨4, {3, 2, 1, 0}⟩, [], 0, {10, 8, 6, 4}⟩

theorem settled_unanswered : dbinit.Settled 0 0 ∧
    runCalls dbinit [(answers true [], call)] = some unanswered ∧ unanswered.Settled 0 0 := by
  have hrun : runCalls dbinit [(answers true [], call)] = some unanswered := by decide +kernel
  exact ⟨settled_dbinit, hrun, ssdbCalls_settled settled_dbinit hrun⟩

theorem leak_errors :
    (call.thenFree (answers false []) dbinit = some refused ∧ ¬NoLeak dbinit refused) ∧
    call.thenFree (answers true []) dbinit = some unanswered ∧ ¬NoLeak dbinit unanswered := by
  refine ⟨⟨by decide +kernel, ?_⟩, by decide +kernel, ?_⟩
  · intro hnone
    exact absurd (hnone.files 0 (by decide) (by decide)) (by decide)
  · intro hnone
    exact absurd (hnone.blocks 4 (by decide) (by decide)) (by decide)

end OwnershipWitness

end WaterWall
