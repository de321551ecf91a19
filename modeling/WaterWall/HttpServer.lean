/-
The HTTP server: the poll table, the sessions on the heap and the two hash tables that link
them.  `poll_process_run` lets in new connections and hands every entry with an event to
`poll_events_handler`.
-/
import WaterWall.HashChains
import WaterWall.HttpPoll
import WaterWall.HttpSession

namespace WaterWall

namespace Http

open ByteText Function

/-- The sessions are at the addresses of their blocks; the chains hold these addresses. -/
structure Server where
  table : PollTable
  blocks : Nat → Option Session
  fidHash : HashChains.Table Nat Nat
  sidHash : HashChains.Table Nat Nat
  nextSid : BitVec 32

def fidHashIdx (fid : Int) : Nat := (fid % 1024).toNat

def sidHashIdx (sid : BitVec 32) : Nat := sid.toNat % 1024

/-- How the calls for a new connection end. -/
structure Accept where
  fd : Int
  block : Option Nat
  noblocking : Bool
  deriving DecidableEq

/-- What happens at a descriptor: the result of `send`, and what there is to read. -/
structure Io where
  len : Int
  readable : Readable

/-- The poll entry of a session. -/
def PollTable.setPollout (table : PollTable) (pid : BitVec 32) : Option Bool → PollTable
  | none => table
  | some true => table.pollAddWrite pid.toNat
  | some false => table.pollDelWrite pid.toNat

namespace Server

/-- `poll_init` and `ses_session_init`. -/
def start (svrFd : Int) (pollMax : Nat) (sizeFits : pollMax < 2 ^ 31) : Server where
  table := .pollInit svrFd pollMax sizeFits
  blocks _ := none
  fidHash := HashChains.empty
  sidHash := HashChains.empty
  nextSid := 0

def sesFindSessionByFid (server : Server) (fid : Int) : Option Nat :=
  HashChains.find server.fidHash (fidHashIdx fid) fun addr =>
    (server.blocks addr).map Session.fid = some fid

/-- Where there is no room, `pid` is -1 and the test `pid < 1` of unsigned numbers fails; what
was done before an error is not undone. -/
def sesCreateNewSession (server : Server) (accept : Accept) : Int × Server :=
  match accept.block with
  | none => (-1, server)
  | some addr =>
    let (index, table) := server.table.pollAdd accept.fd
    let pid := BitVec.ofInt 32 index
    let session := newSession accept.fd server.nextSid pid
    let server := { server with
      table := table
      blocks := Function.update server.blocks addr (some session)
      nextSid := server.nextSid + 1 }
    if pid.toNat < 1 then (-1, server)
    else if accept.noblocking = false then (-1, server)
    else
      (0, { server with
        fidHash := HashChains.insert server.fidHash (fidHashIdx session.fid) addr
        sidHash := HashChains.insert server.sidHash (sidHashIdx session.sid) addr })

def sesReleaseSession (server : Server) (fid : Int) (index : Nat) : Except Fault Server :=
  match server.sesFindSessionByFid fid with
  | none => .error .assertFailed
  | some addr =>
    match server.blocks addr with
    | none => .error .nullPointer
    | some session =>
      .ok { server with
        table := server.table.pollDel index
        blocks := Function.update server.blocks addr none
        fidHash := HashChains.remove server.fidHash (fidHashIdx session.fid) (· = addr)
        sidHash := HashChains.remove server.sidHash (sidHashIdx session.sid) (· = addr) }

/-- The session of a descriptor has been worked on. -/
def store (server : Server) (addr : Nat) (handled : Handled) : Server :=
  { server with
    table := server.table.setPollout handled.session.pid handled.pollout
    blocks := Function.update server.blocks addr (some handled.session) }

/-- A part of `poll_events_handler`: whether it goes on, and what was offered to the peer and
given to the script. -/
structure Stage where
  goesOn : Bool
  server : Server
  offered : List Bytes
  calls : List Bytes

/-- `ses_send` for the session of a descriptor: its value and the bytes that it offers. -/
def sesSendTo (server : Server) (fid : Int) (len : Int) : Except Fault (Int × Server × Bytes) :=
  match server.sesFindSessionByFid fid with
  | none => .error .nullPointer
  | some addr =>
    match server.blocks addr with
    | none => .error .nullPointer
    | some session => do
        let sent ← sesSend session len
        return (sent.handled.ret, server.store addr sent.handled, sent.offered)

def sesCheckSendState (server : Server) (fid : Int) : Except Fault Int :=
  match server.sesFindSessionByFid fid with
  | none => .error .nullPointer
  | some addr =>
    match server.blocks addr with
    | none => .error .nullPointer
    | some session => .ok (if session.state.sendFinish then -1 else 0)

def onPollout (server : Server) (fd : Int) (len : Int) : Except Fault Stage := do
  let (ret, server, offered) ← server.sesSendTo fd len
  if ret ≠ 0 then return ⟨false, server, [offered], []⟩
  else
    let state ← server.sesCheckSendState fd
    return ⟨state = 0, server, [offered], []⟩

def onPollin (server : Server) (fd : Int) (input : Readable) : Except Fault Stage :=
  match server.sesFindSessionByFid fd with
  | none => .ok ⟨false, server, [], []⟩
  | some addr =>
    match server.blocks addr with
    | none => .error .nullPointer
    | some session => do
        let received ← sesRecv session input
        return ⟨received.handled.ret = 0, server.store addr received.handled, [],
          received.calls⟩

/-- A call of `poll_events_handler`. -/
structure Handling where
  server : Server
  released : Bool
  offered : List Bytes
  calls : List Bytes

/-- The tests of POLLERR and POLLOUT. -/
def writeStage (server : Server) (entry : PollFd) (len : Int) : Except Fault Stage :=
  if entry.revents.pollerr then .ok ⟨false, server, [], []⟩
  else if entry.revents.pollout then server.onPollout entry.fd len
  else .ok ⟨true, server, [], []⟩

/-- The test of POLLIN. -/
def readStage (written : Stage) (entry : PollFd) (input : Readable) : Except Fault Stage :=
  if written.goesOn && entry.revents.pollin then written.server.onPollin entry.fd input
  else .ok ⟨written.goesOn, written.server, [], []⟩

def pollEventsHandler (server : Server) (index : Nat) (io : Io) : Except Fault Handling := do
  let entry := server.table.pollFds index
  let written ← server.writeStage entry io.len
  let read ← readStage written entry io.readable
  if read.goesOn then return ⟨read.server, false, written.offered, read.calls⟩
  else
    let server ← read.server.sesReleaseSession entry.fd index
    return ⟨server, true, written.offered, read.calls⟩

end Server

section Returns

namespace Server

variable {server : Server} {addr : Nat} {session : Session}

theorem find_store {handled : Handled} (hsession : server.blocks addr = some session)
    (hfid : handled.session.fid = session.fid) (fid : Int) :
    (server.store addr handled).sesFindSessionByFid fid = server.sesFindSessionByFid fid := by
  have hfids : ∀ other, ((server.store addr handled).blocks other).map Session.fid =
      (server.blocks other).map Session.fid := by
    intro other
    by_cases hsame : other = addr
    · subst hsame
      simp [store, hsession, hfid]
    · simp [store, hsame]
  simp only [sesFindSessionByFid, hfids]
  rfl

theorem sesSendTo_ok {fid len : Int} {result : Int × Server × Bytes}
    (hsend : server.sesSendTo fid len = .ok result) :
    ∃ addr session sent, server.sesFindSessionByFid fid = some addr ∧
      server.blocks addr = some session ∧ sesSend session len = .ok sent ∧
      result = (sent.handled.ret, server.store addr sent.handled, sent.offered) := by
  rw [sesSendTo] at hsend
  split at hsend
  · cases hsend
  · rename_i addr hfind
    split at hsend
    · cases hsend
    · rename_i session hsession
      obtain ⟨sent, hsent, hsend⟩ := bind_eq_ok.mp hsend
      cases hsend
      exact ⟨addr, session, sent, hfind, hsession, hsent, rfl⟩

theorem onPollout_of_sent {fd len : Int} {sent : Sent}
    (hfind : server.sesFindSessionByFid fd = some addr)
    (hsession : server.blocks addr = some session) (hsent : sesSend session len = .ok sent) :
    server.onPollout fd len =
      .ok ⟨sent.handled.ret = 0 && !sent.handled.session.state.sendFinish,
        server.store addr sent.handled, [sent.offered], []⟩ := by
  have hcheck : (server.store addr sent.handled).sesCheckSendState fd =
      .ok (if sent.handled.session.state.sendFinish then -1 else 0) := by
    rw [sesCheckSendState, find_store hsession (sesSend_sameIds hsent).fid, hfind]
    simp [store]
  simp only [onPollout, sesSendTo, hfind, hsession, hsent, bind, Except.bind, pure, Except.pure]
  by_cases hret : sent.handled.ret = 0
  · rw [if_neg (by simp [hret]), hcheck]
    cases sent.handled.session.state.sendFinish <;> simp [hret]
  · rw [if_pos hret]
    simp [hret]

theorem onPollout_ok {fd len : Int} {stage : Stage}
    (hstage : server.onPollout fd len = .ok stage) :
    ∃ addr session sent, server.sesFindSessionByFid fd = some addr ∧
      server.blocks addr = some session ∧ sesSend session len = .ok sent ∧
      stage = ⟨sent.handled.ret = 0 && !sent.handled.session.state.sendFinish,
        server.store addr sent.handled, [sent.offered], []⟩ := by
  obtain ⟨result, hsend, -⟩ := bind_eq_ok.mp hstage
  grind [sesSendTo_ok, onPollout_of_sent]

theorem onPollin_of_received {fd : Int} {input : Readable} {received : Received}
    (hfind : server.sesFindSessionByFid fd = some addr)
    (hsession : server.blocks addr = some session)
    (hrecv : sesRecv session input = .ok received) :
    server.onPollin fd input =
      .ok ⟨received.handled.ret = 0, server.store addr received.handled, [],
        received.calls⟩ := by
  simp only [onPollin, hfind, hsession, hrecv, bind, Except.bind]
  rfl

theorem onPollin_ok {fd : Int} {input : Readable} {stage : Stage}
    (hstage : server.onPollin fd input = .ok stage) :
    stage = ⟨false, server, [], []⟩ ∨
      ∃ addr session received, server.sesFindSessionByFid fd = some addr ∧
        server.blocks addr = some session ∧ sesRecv session input = .ok received ∧
        stage = ⟨received.handled.ret = 0, server.store addr received.handled, [],
          received.calls⟩ := by
  rw [onPollin] at hstage
  split at hstage
  · cases hstage
    exact .inl rfl
  · rename_i addr hfind
    split at hstage
    · cases hstage
    · rename_i session hsession
      obtain ⟨received, hrecv, hstage⟩ := bind_eq_ok.mp hstage
      cases hstage
      exact .inr ⟨addr, session, received, hfind, hsession, hrecv, rfl⟩

theorem sesReleaseSession_ok {fid : Int} {index : Nat} {after : Server}
    (hrelease : server.sesReleaseSession fid index = .ok after) :
    ∃ addr session, server.sesFindSessionByFid fid = some addr ∧
      server.blocks addr = some session ∧
      after = { server with
        table := server.table.pollDel index
        blocks := Function.update server.blocks addr none
        fidHash := HashChains.remove server.fidHash (fidHashIdx session.fid) (· = addr)
        sidHash := HashChains.remove server.sidHash (sidHashIdx session.sid) (· = addr) } := by
  rw [sesReleaseSession] at hrelease
  split at hrelease
  · cases hrelease
  · rename_i addr hfind
    split at hrelease
    · cases hrelease
    · rename_i session hsession
      cases hrelease
      exact ⟨addr, session, hfind, hsession, rfl⟩

theorem pollEventsHandler_of_stages {index : Nat} {io : Io} {written read : Stage}
    (hwritten : server.writeStage (server.table.pollFds index) io.len = .ok written)
    (hread : readStage written (server.table.pollFds index) io.readable = .ok read) :
    server.pollEventsHandler index io =
      if read.goesOn then .ok ⟨read.server, false, written.offered, read.calls⟩
      else (read.server.sesReleaseSession (server.table.fd index) index).map fun after =>
        ⟨after, true, written.offered, read.calls⟩ := by
  simp only [pollEventsHandler, hwritten, hread, bind, Except.bind]
  split_ifs
  · rfl
  · rw [PollTable.fd]
    cases read.server.sesReleaseSession (server.table.pollFds index).fd index <;> rfl

theorem pollEventsHandler_ok {index : Nat} {io : Io} {handling : Handling}
    (hhandler : server.pollEventsHandler index io = .ok handling) :
    ∃ written read, server.writeStage (server.table.pollFds index) io.len = .ok written ∧
      readStage written (server.table.pollFds index) io.readable = .ok read ∧
      (read.goesOn = true ∧ handling = ⟨read.server, false, written.offered, read.calls⟩ ∨
        read.goesOn = false ∧ ∃ after,
          read.server.sesReleaseSession (server.table.fd index) index = .ok after ∧
          handling = ⟨after, true, written.offered, read.calls⟩) := by
  obtain ⟨written, hwritten, hrest⟩ := bind_eq_ok.mp hhandler
  obtain ⟨read, hread, -⟩ := bind_eq_ok.mp hrest
  refine ⟨written, read, hwritten, hread, ?_⟩
  rw [pollEventsHandler_of_stages hwritten hread] at hhandler
  split_ifs at hhandler with hgoes
  · cases hhandler
    exact .inl ⟨hgoes, rfl⟩
  · cases hrelease : read.server.sesReleaseSession (server.table.fd index) index with
    | error fault =>
      rw [hrelease] at hhandler
      cases hhandler
    | ok after =>
      rw [hrelease] at hhandler
      cases hhandler
      exact .inr ⟨by simpa using hgoes, after, rfl, rfl⟩

end Server

end Returns

section Frame

/-- The entries but one have the same descriptors, and all of them the same events. -/
structure PollTable.SameBut (kept : Nat → Prop) (before after : PollTable) : Prop where
  fd : ∀ index, kept index → after.fd index = before.fd index
  revents : ∀ index, (after.pollFds index).revents = (before.pollFds index).revents
  curfds : after.pollCurfds = before.pollCurfds
  size : after.pollMaxSize = before.pollMaxSize

variable {kept : Nat → Prop} {table other last : PollTable} {server : Server}

theorem PollTable.SameBut.refl (table : PollTable) : SameBut kept table table :=
  ⟨fun _ _ => rfl, fun _ => rfl, rfl, rfl⟩

theorem PollTable.SameBut.trans (hfirst : SameBut kept table other)
    (hsecond : SameBut kept other last) : SameBut kept table last where
  fd index hkept := (hsecond.fd index hkept).trans (hfirst.fd index hkept)
  revents index := (hsecond.revents index).trans (hfirst.revents index)
  curfds := hsecond.curfds.trans hfirst.curfds
  size := hsecond.size.trans hfirst.size

theorem PollTable.sameBut_setEntry {index : Nat} {entry : PollFd}
    (hfd : kept index → entry.fd = table.fd index)
    (hrevents : entry.revents = (table.pollFds index).revents) :
    SameBut kept table (table.setEntry index entry) where
  fd place hkept := by
    by_cases hsame : place = index
    · subst hsame
      simpa [fd, setEntry] using hfd hkept
    · simp [fd, setEntry, hsame]
  revents place := by
    by_cases hsame : place = index
    · subst hsame
      simpa [setEntry] using hrevents
    · simp [setEntry, hsame]
  curfds := rfl
  size := rfl

theorem PollTable.sameBut_setPollout (pid : BitVec 32) (pollout : Option Bool) :
    SameBut kept table (table.setPollout pid pollout) := by
  cases pollout with
  | none => exact .refl table
  | some flag => cases flag <;> exact sameBut_setEntry (fun _ => rfl) rfl

theorem Server.writeStage_sameBut {entry : PollFd} {len : Int} {stage : Stage}
    (hstage : server.writeStage entry len = .ok stage) :
    PollTable.SameBut kept server.table stage.server.table := by
  rw [Server.writeStage] at hstage
  split_ifs at hstage
  · cases hstage
    exact .refl _
  · obtain ⟨addr, session, sent, -, -, -, rfl⟩ := Server.onPollout_ok hstage
    exact PollTable.sameBut_setPollout _ _
  · cases hstage
    exact .refl _

theorem Server.readStage_sameBut {written stage : Stage} {entry : PollFd} {input : Readable}
    (hstage : readStage written entry input = .ok stage) :
    PollTable.SameBut kept written.server.table stage.server.table := by
  rw [Server.readStage] at hstage
  split_ifs at hstage
  · rcases Server.onPollin_ok hstage with rfl | ⟨addr, session, received, -, -, -, rfl⟩
    · exact .refl _
    · exact PollTable.sameBut_setPollout _ _
  · cases hstage
    exact .refl _

theorem Server.pollEventsHandler_sameBut {index : Nat} {io : Io} {handling : Handling}
    (hhandler : server.pollEventsHandler index io = .ok handling) :
    PollTable.SameBut (· ≠ index) server.table handling.server.table := by
  obtain ⟨written, read, hwritten, hread, hend⟩ := Server.pollEventsHandler_ok hhandler
  have hstages : PollTable.SameBut (· ≠ index) server.table read.server.table :=
    (Server.writeStage_sameBut hwritten).trans (Server.readStage_sameBut hread)
  rcases hend with ⟨-, rfl⟩ | ⟨-, after, hrelease, rfl⟩
  · exact hstages
  · obtain ⟨addr, session, -, -, rfl⟩ := Server.sesReleaseSession_ok hrelease
    exact hstages.trans (PollTable.sameBut_setEntry (fun hkept => absurd rfl hkept) rfl)

end Frame

section Create

variable {server : Server} {accept : Accept}

/-- The chains hold the addresses of sessions, each of them once and in its own chain. -/
structure LinkedBy (index : Session → Nat) (blocks : Nat → Option Session)
    (hash : HashChains.Table Nat Nat) : Prop where
  placed : ∀ bucket, ∀ addr ∈ hash bucket,
    ∃ session, blocks addr = some session ∧ index session = bucket
  once : ∀ bucket, (hash bucket).Nodup

structure Server.Linked (server : Server) : Prop where
  fid : LinkedBy (fun session => fidHashIdx session.fid) server.blocks server.fidHash
  sid : LinkedBy (fun session => sidHashIdx session.sid) server.blocks server.sidHash

/-- An address is once in a hash table, in this chain. -/
def LinkedOnce (hash : HashChains.Table Nat Nat) (bucket addr : Nat) : Prop :=
  ∀ other, (hash other).count addr = if other = bucket then 1 else 0

/-- The session at an address has an entry of the poll table with the descriptor and is in both
hash tables. -/
def Server.Entered (server : Server) (fd : Int) (addr : Nat) : Prop :=
  ∃ session, server.blocks addr = some session ∧ session.fid = fd ∧
    server.table.Slot session.pid.toNat ∧ server.table.fd session.pid.toNat = fd ∧
    LinkedOnce server.fidHash (fidHashIdx session.fid) addr ∧
    LinkedOnce server.sidHash (sidHashIdx session.sid) addr

/-- A call of `ses_create_new_session` is done or leaves no trace. -/
structure Atomic (accept : Accept) (before : Server) (result : Int × Server) : Prop where
  done_iff : result.1 = 0 ↔ ∃ addr, accept.block = some addr ∧ result.2.Entered accept.fd addr
  undone : result.1 = -1 → result.2.table = before.table ∧ result.2.fidHash = before.fidHash ∧
    result.2.sidHash = before.sidHash ∧ result.2.blocks = before.blocks

/-- The session that a new connection gets, and the server before it is linked. -/
def Server.place (server : Server) (accept : Accept) (addr : Nat) : Session × Server :=
  let (index, table) := server.table.pollAdd accept.fd
  let session := newSession accept.fd server.nextSid (BitVec.ofInt 32 index)
  (session, { server with
    table := table
    blocks := Function.update server.blocks addr (some session)
    nextSid := server.nextSid + 1 })

theorem sesCreateNewSession_some {addr : Nat} (hblock : accept.block = some addr) :
    server.sesCreateNewSession accept =
      let (session, placed) := server.place accept addr
      if session.pid.toNat < 1 then (-1, placed)
      else if accept.noblocking = false then (-1, placed)
      else (0, { placed with
        fidHash := HashChains.insert server.fidHash (fidHashIdx accept.fd) addr
        sidHash := HashChains.insert server.sidHash (sidHashIdx server.nextSid) addr }) := by
  rw [Server.sesCreateNewSession, hblock]
  rfl

theorem place_pid_of_full (hfull : server.table.Full) (addr : Nat) :
    (server.place accept addr).1.pid.toNat = 2 ^ 32 - 1 := by
  rw [Server.place, PollTable.pollAdd_of_full hfull]
  rfl

theorem place_pid_of_room (hroom : ¬server.table.Full) (addr : Nat) :
    (server.place accept addr).1.pid.toNat = server.table.search := by
  have hfound := (PollTable.search_lt_iff server.table).mpr hroom
  have hfits := server.table.sizeFits
  rw [Server.place, PollTable.pollAdd_of_room hroom]
  change (BitVec.ofInt 32 (server.table.search : Int)).toNat = server.table.search
  rw [BitVec.ofInt_natCast, BitVec.toNat_ofNat]
  exact Nat.mod_eq_of_lt (by omega)

theorem place_fd_of_room (hroom : ¬server.table.Full) (addr : Nat) :
    (server.place accept addr).2.table.fd server.table.search = accept.fd := by
  rw [Server.place, PollTable.pollAdd_of_room hroom]
  simp [PollTable.fd, PollTable.setEntry]

theorem place_pollMaxSize (addr : Nat) :
    (server.place accept addr).2.table.pollMaxSize = server.table.pollMaxSize :=
  PollTable.pollMaxSize_apply server.table (.add accept.fd)

theorem linkedOnce_insert {hash : HashChains.Table Nat Nat} {addr : Nat}
    (hnew : ∀ bucket, addr ∉ hash bucket) (bucket : Nat) :
    LinkedOnce (HashChains.insert hash bucket addr) bucket addr := by
  intro other
  have hcount := List.count_eq_zero.mpr (hnew other)
  by_cases hsame : other = bucket
  · subst hsame
    simp [HashChains.insert, hcount]
  · simp [HashChains.insert, hsame, hcount]

theorem LinkedBy.not_mem {index : Session → Nat} {blocks : Nat → Option Session}
    {hash : HashChains.Table Nat Nat} (hlinked : LinkedBy index blocks hash) {addr : Nat}
    (hfree : blocks addr = none) (bucket : Nat) : addr ∉ hash bucket := by
  intro hmem
  obtain ⟨session, hsession, -⟩ := hlinked.placed bucket addr hmem
  simp [hfree] at hsession

theorem atomic_of_no_block (hblock : accept.block = none) :
    Atomic accept server (server.sesCreateNewSession accept) := by
  rw [Server.sesCreateNewSession, hblock]
  exact ⟨by simp [hblock], fun _ => ⟨rfl, rfl, rfl, rfl⟩⟩

theorem not_atomic_of_placed {addr : Nat} (hfree : server.blocks addr = none) :
    ¬Atomic accept server (-1, (server.place accept addr).2) := by
  intro hatomic
  obtain ⟨-, -, -, hblocks⟩ := hatomic.undone rfl
  have haddr := congrFun hblocks addr
  rw [hfree] at haddr
  simp [Server.place] at haddr

end Create

/-- A session is created as a whole or not at all just when there is no memory for it, or an
entry of the poll table is free and the socket can be made non-blocking. -/
theorem sesCreateNewSession_atomic_iff (server : Server) (hlinked : server.Linked)
    (accept : Accept) (hfresh : ∀ addr, accept.block = some addr → server.blocks addr = none) :
    Atomic accept server (server.sesCreateNewSession accept) ↔
      accept.block = none ∨ ¬server.table.Full ∧ accept.noblocking = true := by
  cases hblock : accept.block with
  | none => exact iff_of_true (atomic_of_no_block hblock) (.inl rfl)
  | some addr =>
    have hfree := hfresh addr hblock
    rw [sesCreateNewSession_some hblock]
    dsimp only
    by_cases hroom : server.table.Full
    · have hpid := @place_pid_of_full server accept hroom addr
      refine iff_of_false ?_ (by simp [hroom])
      rw [if_neg (by omega)]
      split_ifs with hblocking
      · exact not_atomic_of_placed hfree
      · -- the call reports success, but the session has no entry
        intro hatomic
        obtain ⟨other, hother, session, hsession, -, hslot, -⟩ := hatomic.done_iff.mp rfl
        cases hblock.symm.trans hother
        have hplaced : session = (server.place accept addr).1 := by
          have hupdate := hsession.symm.trans (update_self addr _ server.blocks)
          exact Option.some.inj hupdate
        have hlt : session.pid.toNat < server.table.pollMaxSize := by
          rw [← @place_pollMaxSize server accept addr]
          exact hslot.2
        have hfits := server.table.sizeFits
        rw [hplaced] at hlt
        omega
    · have hpid := @place_pid_of_room server accept hroom addr
      have hslot := (PollTable.search_lt_iff server.table).mpr hroom
      have hpos : 1 ≤ server.table.search := PollTable.le_searchFrom _ 1
      rw [if_neg (by omega)]
      split_ifs with hblocking
      · exact iff_of_false (not_atomic_of_placed hfree) (by simp [hblocking])
      · refine iff_of_true ⟨iff_of_true rfl ⟨addr, hblock, ?_⟩, by simp⟩
          (.inr ⟨hroom, by simpa using hblocking⟩)
        refine ⟨(server.place accept addr).1, update_self addr _ server.blocks, rfl,
          ⟨?_, ?_⟩, ?_, linkedOnce_insert (hlinked.fid.not_mem hfree) _,
          linkedOnce_insert (hlinked.sid.not_mem hfree) _⟩
        · rw [hpid]
          exact hpos
        · rw [hpid]
          exact hslot.trans_eq (place_pollMaxSize addr).symm
        · rw [hpid]
          exact place_fd_of_room hroom addr

section Links

section Chains

variable {index : Session → Nat} {blocks after : Nat → Option Session}
  {hash : HashChains.Table Nat Nat} {addr : Nat} {session : Session}

theorem LinkedBy.of_blocks (hlinked : LinkedBy index blocks hash)
    (hafter : ∀ bucket, ∀ addr ∈ hash bucket, ∀ session, blocks addr = some session →
      ∃ next, after addr = some next ∧ index next = index session) :
    LinkedBy index after hash := by
  refine ⟨fun bucket addr hmem => ?_, hlinked.once⟩
  obtain ⟨session, hsession, hbucket⟩ := hlinked.placed bucket addr hmem
  grind

theorem LinkedBy.update (hlinked : LinkedBy index blocks hash)
    (hsame : ∀ held, blocks addr = some held → index session = index held) :
    LinkedBy index (Function.update blocks addr (some session)) hash := by
  refine hlinked.of_blocks fun bucket other hmem held hheld => ?_
  grind

theorem LinkedBy.insert (hlinked : LinkedBy index blocks hash)
    (hfree : blocks addr = none) (session : Session) :
    LinkedBy index (Function.update blocks addr (some session))
      (HashChains.insert hash (index session) addr) := by
  have hupdated : LinkedBy index (Function.update blocks addr (some session)) hash :=
    hlinked.update fun held hheld => by simp [hfree] at hheld
  constructor
  · intro bucket other hmem
    by_cases hbucket : bucket = index session
    · subst hbucket
      simp only [HashChains.insert, update_self, List.mem_cons] at hmem
      rcases hmem with rfl | hmem
      · exact ⟨session, update_self _ _ _, rfl⟩
      · exact hupdated.placed _ other hmem
    · simp only [HashChains.insert, update_of_ne hbucket] at hmem
      exact hupdated.placed bucket other hmem
  · intro bucket
    by_cases hbucket : bucket = index session
    · subst hbucket
      simp only [HashChains.insert, update_self, List.nodup_cons]
      exact ⟨hlinked.not_mem hfree _, hlinked.once _⟩
    · simp only [HashChains.insert, update_of_ne hbucket]
      exact hlinked.once bucket

theorem LinkedBy.remove (hlinked : LinkedBy index blocks hash)
    (hsession : blocks addr = some session) :
    LinkedBy index (Function.update blocks addr none)
      (HashChains.remove hash (index session) (· = addr)) := by
  have hsub : ∀ bucket, List.Sublist (HashChains.remove hash (index session) (· = addr) bucket)
      (hash bucket) := by
    intro bucket
    by_cases hbucket : bucket = index session
    · simp_all [HashChains.remove, List.eraseP_sublist]
    · simp [HashChains.remove, hbucket]
  have hgone : ∀ bucket, addr ∉ HashChains.remove hash (index session) (· = addr) bucket := by
    intro bucket hmem
    obtain ⟨held, hheld, hplace⟩ := hlinked.placed bucket addr ((hsub bucket).subset hmem)
    cases hsession.symm.trans hheld
    subst hplace
    simp only [HashChains.remove, update_self] at hmem
    have herase : (hash (index session)).eraseP (fun other => decide (other = addr)) =
        (hash (index session)).erase addr := by
      rw [List.erase_eq_eraseP']
      rfl
    rw [herase] at hmem
    exact (hlinked.once _).not_mem_erase hmem
  refine ⟨fun bucket other hmem => ?_, fun bucket => (hlinked.once bucket).sublist (hsub bucket)⟩
  obtain ⟨held, hheld, hplace⟩ := hlinked.placed bucket other ((hsub bucket).subset hmem)
  grind

end Chains

variable {server : Server} {addr : Nat} {session : Session}

theorem linked_start (svrFd : Int) (pollMax : Nat) (hfits : pollMax < 2 ^ 31) :
    (Server.start svrFd pollMax hfits).Linked := by
  constructor <;> constructor <;> simp [Server.start, HashChains.empty]

theorem Server.Linked.store (hlinked : server.Linked) {handled : Handled}
    (hsession : server.blocks addr = some session) (hids : session.SameIds handled.session) :
    (server.store addr handled).Linked := by
  constructor
  · refine hlinked.fid.update fun held hheld => ?_
    cases hsession.symm.trans hheld
    rw [hids.fid]
  · refine hlinked.sid.update fun held hheld => ?_
    cases hsession.symm.trans hheld
    rw [hids.sid]

theorem Server.Linked.sesCreateNewSession (hlinked : server.Linked) {accept : Accept}
    (hfresh : ∀ addr, accept.block = some addr → server.blocks addr = none) :
    (server.sesCreateNewSession accept).2.Linked := by
  cases hblock : accept.block with
  | none =>
    rw [Server.sesCreateNewSession, hblock]
    exact hlinked
  | some addr =>
    have hfree := hfresh addr hblock
    have hplaced : (server.place accept addr).2.Linked :=
      ⟨hlinked.fid.update fun held hheld => by simp [hfree] at hheld,
        hlinked.sid.update fun held hheld => by simp [hfree] at hheld⟩
    rw [sesCreateNewSession_some hblock]
    dsimp only
    split_ifs
    · exact hplaced
    · exact hplaced
    · exact ⟨hlinked.fid.insert hfree _, hlinked.sid.insert hfree _⟩

theorem Server.Linked.sesReleaseSession (hlinked : server.Linked) {fid : Int} {index : Nat}
    {after : Server} (hrelease : server.sesReleaseSession fid index = .ok after) :
    after.Linked := by
  obtain ⟨addr, session, -, hsession, rfl⟩ := Server.sesReleaseSession_ok hrelease
  exact ⟨hlinked.fid.remove hsession, hlinked.sid.remove hsession⟩

end Links

theorem remove_insert (hash : HashChains.Table Nat Nat) (bucket addr : Nat) :
    HashChains.remove (HashChains.insert hash bucket addr) bucket (· = addr) = hash := by
  simp [HashChains.remove, HashChains.insert]

theorem Server.sesReleaseSession_of_found {server : Server} {fid : Int} {addr : Nat}
    {session : Session} (hfind : server.sesFindSessionByFid fid = some addr)
    (hsession : server.blocks addr = some session) (index : Nat) :
    server.sesReleaseSession fid index = .ok { server with
      table := server.table.pollDel index
      blocks := Function.update server.blocks addr none
      fidHash := HashChains.remove server.fidHash (fidHashIdx session.fid) (· = addr)
      sidHash := HashChains.remove server.sidHash (sidHashIdx session.sid) (· = addr) } := by
  rw [sesReleaseSession, hfind]
  simp only [hsession]

/-- A session that is released right after it was created leaves no trace in the heap and the
hash tables, and its entry is free again. -/
theorem sesReleaseSession_undoes (server : Server) (accept : Accept) (addr : Nat)
    (hblock : accept.block = some addr) (hfree : server.blocks addr = none)
    (hroom : ¬server.table.Full) (hnoblocking : accept.noblocking = true) :
    ∃ after, (server.sesCreateNewSession accept).2.sesReleaseSession accept.fd
        server.table.search = .ok after ∧
      after.blocks = server.blocks ∧ after.fidHash = server.fidHash ∧
      after.sidHash = server.sidHash ∧ after.table.fd server.table.search = -1 ∧
      ∀ index, index ≠ server.table.search → after.table.fd index = server.table.fd index := by
  have hpid := @place_pid_of_room server accept hroom addr
  have hpos : 1 ≤ server.table.search := PollTable.le_searchFrom _ 1
  rw [sesCreateNewSession_some hblock]
  dsimp only
  rw [if_neg (by omega), if_neg (by simp [hnoblocking])]
  refine ⟨_, Server.sesReleaseSession_of_found (show Server.sesFindSessionByFid _ _ = some addr
    from ?_) (update_self addr _ server.blocks) _, ?_, remove_insert _ _ _, remove_insert _ _ _,
    ?_, ?_⟩
  · simp [Server.sesFindSessionByFid, HashChains.find, HashChains.insert, Server.place, newSession]
  · simp [Server.place, ← hfree]
  · simp [PollTable.pollDel, PollTable.fd, PollTable.setEntry]
  · intro index hindex
    simp [Server.place, PollTable.pollAdd_of_room hroom, PollTable.pollDel, PollTable.fd,
      PollTable.setEntry, hindex]

namespace CreateWitness

theorem two_fits : 2 < 2 ^ 31 := by decide

/-- A server with one entry for connections. -/
def server : Server := .start 4 2 two_fits

theorem linked_server : server.Linked := linked_start 4 2 two_fits

def first : Accept := ⟨5, some 100, true⟩

def second : Accept := ⟨6, some 101, true⟩

theorem atomic_first : Atomic first server (server.sesCreateNewSession first) :=
  (sesCreateNewSession_atomic_iff server linked_server first (fun _ _ => rfl)).mpr
    (.inr ⟨by decide, rfl⟩)

theorem undoes_first : ∃ after,
    (server.sesCreateNewSession first).2.sesReleaseSession 5 1 = .ok after ∧
      after.blocks = server.blocks ∧ after.table.fd 1 = -1 := by
  obtain ⟨after, hrelease, hblocks, -, -, hfd, -⟩ :=
    sesReleaseSession_undoes server first 100 rfl rfl (by decide) rfl
  exact ⟨after, hrelease, hblocks, hfd⟩

/-- The table is full: the second call reports success with the entry number -1. -/
theorem not_atomic_second :
    (server.sesCreateNewSession first).2.Linked ∧
      (server.sesCreateNewSession first).2.blocks 101 = none ∧
      ¬Atomic second (server.sesCreateNewSession first).2
        ((server.sesCreateNewSession first).2.sesCreateNewSession second) := by
  refine ⟨linked_server.sesCreateNewSession fun _ _ => rfl, rfl, fun hatomic => ?_⟩
  obtain ⟨addr, haddr, session, hsession, -, hslot, -⟩ := hatomic.done_iff.mp rfl
  cases haddr
  cases hsession
  exact absurd hslot.2 (by decide)

end CreateWitness

end Http

end WaterWall
