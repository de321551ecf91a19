/-
The event loop of main.c: a call of `an_poll` asks `poll` about the connection table,
accepts at most one client and then serves the entries with events in their order.  What
the kernel and the allocator answer is left open; the calls on descriptors are recorded.
-/
import WaterWall.ConnectionTable

namespace WaterWall

universe u

/-- The calls that take, read or give back a descriptor. -/
inductive FdCall where
  | accept (fd : Int)
  | recv (fd : Int)
  | close (fd : Int)
  deriving DecidableEq, Repr

/-- What one call of `an_poll` is answered: the result of `poll` and the events that it
reports, the result of `accept`, the record for the new client, and for each entry the
result of `send` and what `an_tcp_recv` makes of its record once `recv` has returned. -/
structure PollRound (R : Type u) where
  nready : Int
  reported : Nat → Revents
  accepted : Int
  created : Option R
  sends : Nat → SendResult
  received : Nat → AnSocket R → Int × AnSocket R

/-- The result of a handler, with the calls that it made. -/
structure Handled (R : Type u) where
  ret : Int
  table : ConnTable R
  calls : List FdCall

namespace ConnTable

variable {R : Type u}

def revents (table : ConnTable R) (index : Nat) : Revents := (table.anConnArray index).revents

/-- An entry and its record, as the handlers of one connection see them. -/
def conn (table : ConnTable R) (index : Nat) : Conn R where
  fd := table.fd index
  pollin := (table.anConnArray index).pollin
  pollout := (table.anConnArray index).pollout
  sock := (table.anSocketTFindByIndex index).map SockEntry.sock

/-- What a handler leaves in an entry and its record. -/
def putConn (table : ConnTable R) (index : Nat) (conn : Conn R) : ConnTable R :=
  { table with
    anConnArray := Function.update table.anConnArray index
      { table.anConnArray index with pollin := conn.pollin, pollout := conn.pollout }
    anSockHash := match conn.sock with
      | none => table.anSockHash
      | some sock => HashChains.modifyKey anSocketTGetHash SockEntry.index table.anSockHash
          index fun entry => { entry with sock := sock } }

def anTcpRecv (table : ConnTable R) (round : PollRound R) (index : Nat) : Handled R :=
  match (table.conn index).sock with
  | none => ⟨-1, table, []⟩
  | some sock =>
    let (ret, sock) := round.received index sock
    ⟨ret, table.putConn index { table.conn index with sock := some sock },
      [.recv (table.fd index)]⟩

/-- The connection of an entry is destroyed after some calls on it. -/
def dropConn (ret : Int) (table : ConnTable R) (index : Nat) (calls : List FdCall) :
    Handled R :=
  ⟨ret, table.anSockDestory index, calls ++ [.close (table.fd index)]⟩

def anTcpEventsDo (table : ConnTable R) (round : PollRound R) (index : Nat) : Handled R :=
  if (table.revents index).pollerr then dropConn (-1) table index []
  else if (table.revents index).pollout then
    let (stat, conn, _) := anTcpSend (round.sends index) (table.conn index)
    match stat with
    | .finish => dropConn 0 (table.putConn index (mSockDelWrite conn)) index []
    | .again => ⟨0, table.putConn index (mSockAddWrite conn), []⟩
    | _ => dropConn 0 (table.putConn index conn) index []
  else if (table.revents index).pollin then
    let done := table.anTcpRecv round index
    if done.ret ≠ 0 then dropConn 0 done.table index done.calls
    else ⟨0, done.table, done.calls⟩
  else ⟨0, table, []⟩

/-- The dispatch loop from an entry on; `count` bounds the entries that are left in the
array, and `an_curfds` is read anew before each of them. -/
def dispatch (round : PollRound R) : Nat → Nat → ConnTable R → Handled R
  | 0, _, table => ⟨0, table, []⟩
  | count + 1, index, table =>
    if index < table.anCurfds then
      if table.fd index = -1 then dispatch round count (index + 1) table
      else if (table.revents index).pollin ∨ (table.revents index).pollout ∨
          (table.revents index).pollerr then
        let done := table.anTcpEventsDo round index
        if done.ret ≠ 0 then done
        else
          let rest := dispatch round count (index + 1) done.table
          { rest with calls := done.calls ++ rest.calls }
      else dispatch round count (index + 1) table
    else ⟨0, table, []⟩

/-- `poll` writes the events of the first `an_curfds` entries, none for a free one. -/
def polled (table : ConnTable R) (round : PollRound R) : ConnTable R :=
  { table with
    anConnArray := fun index =>
      if index < table.anCurfds then
        { table.anConnArray index with
          revents := if table.fd index < 0 then ⟨false, false, false⟩ else round.reported index }
      else table.anConnArray index }

def serve (round : PollRound R) (table : ConnTable R) : Handled R :=
  dispatch round (anPollMax - 1) 1 table

/-- A call of `an_poll`; `an_exit` ends the process when the result is not 0. -/
def anPoll (table : ConnTable R) (round : PollRound R) : Handled R :=
  if round.nready < 1 then
    ⟨0, if round.nready < 0 then table else table.polled round, []⟩
  else
    let table := table.polled round
    if (table.revents 0).pollin then
      if round.accepted < 0 then serve round table
      else
        let (ret, table) := table.anSockPollAdd round.accepted round.created
        if ret ≠ 0 then ⟨0, table, [.accept round.accepted]⟩
        else
          let done := serve round table
          { done with calls := .accept round.accepted :: done.calls }
    else serve round table

section Handlers

variable {listener : Int} {table next : ConnTable R} {index : Nat} {round : PollRound R}

/-- The same entries hold descriptors and have records. -/
structure SameConns (table next : ConnTable R) : Prop where
  fd : ∀ index, next.fd index = table.fd index
  curfds : next.anCurfds = table.anCurfds
  present : ∀ index, (next.record index).isSome = (table.record index).isSome
  keyed : HashChains.Keyed anSocketTGetHash SockEntry.index table.anSockHash →
    HashChains.Keyed anSocketTGetHash SockEntry.index next.anSockHash

/-- Only the events asked for and the contents of records may have changed. -/
structure Kept (table next : ConnTable R) : Prop extends SameConns table next where
  revents : ∀ index, next.revents index = table.revents index

theorem SameConns.refl (table : ConnTable R) : SameConns table table :=
  ⟨fun _ => rfl, rfl, fun _ => rfl, id⟩

theorem Kept.refl (table : ConnTable R) : Kept table table :=
  ⟨.refl table, fun _ => rfl⟩

theorem SameConns.live (hsame : SameConns table next) (index : Nat) :
    next.Live index ↔ table.Live index := by
  rw [Live, Live, hsame.fd]

theorem SameConns.sound (hsame : SameConns table next) (hsound : Sound listener table) :
    Sound listener next where
  listens := by rw [hsame.fd, hsound.listens]
  pos := by rw [hsame.curfds]; exact hsound.pos
  bounded := by rw [hsame.curfds]; exact hsound.bounded
  vacant index hslot := by rw [hsame.fd]; exact hsound.vacant index hslot
  beyond index hcur hmax := by
    rw [hsame.curfds] at hcur
    rw [hsame.fd]
    exact hsound.beyond index hcur hmax
  distinct index other hlive hother heq := by
    rw [hsame.live] at hlive
    rw [hsame.fd, hsame.fd] at heq
    exact hsound.distinct index other hlive hother heq
  keyed := hsame.keyed hsound.keyed
  owned index hsome := by
    rw [hsame.present] at hsome
    exact (hsame.live index).mpr (hsound.owned index hsome)

theorem SameConns.served (hsame : SameConns table next) (hserved : Served table) :
    Served next := by
  intro index hlive
  rw [hsame.present]
  exact hserved index ((hsame.live index).mp hlive)

theorem sameConns_polled (table : ConnTable R) (round : PollRound R) :
    SameConns table (table.polled round) where
  fd index := by
    simp only [ConnTable.fd, polled]
    split_ifs <;> rfl
  curfds := rfl
  present _ := rfl
  keyed := id

theorem kept_putConn (table : ConnTable R) (index : Nat) (conn : Conn R) :
    Kept table (table.putConn index conn) := by
  have hentry : ∀ other, ((table.putConn index conn).anConnArray other).fd =
      (table.anConnArray other).fd ∧ ((table.putConn index conn).anConnArray other).revents =
      (table.anConnArray other).revents := by
    intro other
    simp only [putConn, Function.update_apply]
    grind
  refine ⟨⟨fun other => (hentry other).1, rfl, ?_, ?_⟩, fun other => (hentry other).2⟩
  · intro other
    cases hsock : conn.sock with
    | none => simp only [record, putConn, hsock]
    | some sock =>
      simp only [record, putConn, hsock]
      rw [HashChains.lookup_modifyKey]
      · split_ifs with hother
        · rw [hother, Option.isSome_map]
        · rfl
      · exact fun _ => rfl
  · intro hkeyed
    cases hsock : conn.sock with
    | none => simpa only [putConn, hsock] using hkeyed
    | some sock =>
      simp only [putConn, hsock]
      exact hkeyed.modifyKey fun _ => rfl

/-- The handler of an entry calls `recv`. -/
def Reads (table : ConnTable R) (index : Nat) : Prop :=
  (table.revents index).pollerr = false ∧ (table.revents index).pollout = false ∧
    (table.revents index).pollin = true ∧ (table.anSocketTFindByIndex index).isSome

instance (table : ConnTable R) (index : Nat) : Decidable (table.Reads index) :=
  inferInstanceAs (Decidable (_ ∧ _ ∧ _ ∧ _))

/-- The calls of `recv` that the handler of an entry makes. -/
def reads (table : ConnTable R) (index : Nat) : List FdCall :=
  if table.Reads index then [.recv (table.fd index)] else []

theorem fd_putConn (table : ConnTable R) (index : Nat) (conn : Conn R) (other : Nat) :
    (table.putConn index conn).fd other = table.fd other :=
  (kept_putConn table index conn).fd other

theorem anTcpEventsDo_cases (table : ConnTable R) (round : PollRound R) (index : Nat) :
    ∃ next, Kept table next ∧
      (((table.revents index).pollerr = false ∧
          table.anTcpEventsDo round index = ⟨0, next, table.reads index⟩) ∨
        table.anTcpEventsDo round index =
          ⟨if (table.revents index).pollerr then -1 else 0, next.anSockDestory index,
            table.reads index ++ [.close (table.fd index)]⟩) := by
  unfold anTcpEventsDo
  cases herr : (table.revents index).pollerr with
  | true =>
    refine ⟨table, .refl table, .inr ?_⟩
    simp [dropConn, reads, Reads, herr]
  | false =>
    cases hout : (table.revents index).pollout with
    | true =>
      have hreads : table.reads index = [] := by simp [reads, Reads, hout]
      rcases anTcpSend (round.sends index) (table.conn index) with ⟨stat, conn, _⟩
      rw [hreads]
      cases stat with
      | finish =>
        refine ⟨_, kept_putConn table index (mSockDelWrite conn), .inr ?_⟩
        simp [dropConn, fd_putConn]
      | again =>
        exact ⟨_, kept_putConn table index (mSockAddWrite conn), .inl ⟨rfl, by simp⟩⟩
      | error | shutdown =>
        refine ⟨_, kept_putConn table index conn, .inr ?_⟩
        simp [dropConn, fd_putConn]
    | false =>
      cases hin : (table.revents index).pollin with
      | false =>
        have hreads : table.reads index = [] := by simp [reads, Reads, hin]
        exact ⟨table, .refl table, .inl ⟨rfl, by simp [hreads]⟩⟩
      | true =>
        cases hfind : table.anSocketTFindByIndex index with
        | none =>
          have hreads : table.reads index = [] := by simp [reads, Reads, hfind]
          refine ⟨table, .refl table, .inr ?_⟩
          simp [anTcpRecv, conn, hfind, hreads, dropConn]
        | some entry =>
          have hreads : table.reads index = [.recv (table.fd index)] := by
            simp [reads, Reads, herr, hout, hin, hfind]
          rcases hreceived : round.received index entry.sock with ⟨ret, sock⟩
          refine ⟨_, kept_putConn table index { table.conn index with sock := some sock },
            ?_⟩
          grind [anTcpRecv, conn, dropConn, fd_putConn]

theorem Sound.revents_anSockDestory (hsound : Sound listener table) (hlive : table.Live index)
    (other : Nat) : (table.anSockDestory index).revents other = table.revents other := by
  rw [hsound.anSockDestory_eq hlive]
  simp only [ConnTable.revents, vacate, Function.update_apply]
  split_ifs with hother
  · rw [hother]
  · rfl

/-- What the handler of an entry leaves alone. -/
structure Frame (index : Nat) (table next : ConnTable R) : Prop where
  fd : ∀ other ≠ index, next.fd other = table.fd other
  revents : ∀ other ≠ index, next.revents other = table.revents other
  present : ∀ other ≠ index, (next.record other).isSome = (table.record other).isSome

theorem Sound.anTcpEventsDo (hsound : Sound listener table) (hlive : table.Live index)
    (round : PollRound R) :
    Sound listener (table.anTcpEventsDo round index).table ∧
      Frame index table (table.anTcpEventsDo round index).table := by
  obtain ⟨next, hkept, ⟨_, hdone⟩ | hdone⟩ := anTcpEventsDo_cases table round index
  · rw [hdone]
    exact ⟨hkept.sound hsound, fun other _ => hkept.fd other,
      fun other _ => hkept.revents other, fun other _ => hkept.present other⟩
  · have hsound' := hkept.sound hsound
    have hlive' := (hkept.live index).mpr hlive
    simp only [hdone]
    refine ⟨hsound'.anSockDestory hlive', ?_, ?_, ?_⟩
    · intro other hother
      rw [hsound'.fd_anSockDestory hlive', if_neg hother, hkept.fd]
    · intro other _
      rw [hsound'.revents_anSockDestory hlive', hkept.revents]
    · intro other hother
      rw [hsound'.record_anSockDestory hlive', if_neg hother, hkept.present]

theorem anTcpEventsDo_ret (table : ConnTable R) (round : PollRound R) (index : Nat) :
    (table.anTcpEventsDo round index).ret ≠ 0 ↔ (table.revents index).pollerr = true := by
  obtain ⟨next, _, ⟨herr, hdone⟩ | hdone⟩ := anTcpEventsDo_cases table round index
  · simp [hdone, herr]
  · rw [hdone]
    cases (table.revents index).pollerr <;> simp

theorem recv_mem_anTcpEventsDo {fd : Int} :
    .recv fd ∈ (table.anTcpEventsDo round index).calls ↔
      table.Reads index ∧ table.fd index = fd := by
  have hreads : .recv fd ∈ table.reads index ↔ table.Reads index ∧ table.fd index = fd := by
    rw [reads]
    split_ifs with hreads
    · simp [hreads, eq_comm]
    · simp [hreads]
  obtain ⟨next, _, ⟨_, hdone⟩ | hdone⟩ := anTcpEventsDo_cases table round index
  · rw [hdone, hreads]
  · rw [hdone, List.mem_append, hreads]
    simp

theorem Sound.live_of_ne (hsound : Sound listener table) (hslot : Slot index)
    (hfd : table.fd index ≠ -1) : table.Live index := by
  refine ⟨hslot, ?_⟩
  by_contra hneg
  exact hfd (hsound.vacant index hslot (by omega))

theorem Sound.live_lt (hsound : Sound listener table) (hlive : table.Live index) :
    index < table.anCurfds := by
  by_contra hle
  have := hsound.beyond index (by omega) hlive.1.2
  have := hlive.2
  omega

end Handlers

section Dispatch

variable {listener : Int} {table : ConnTable R} {round : PollRound R}

/-- One turn of the dispatch loop: it ends, skips the entry or runs its handler, after which
it goes on unless the handler reports an error. -/
theorem dispatch_cases (round : PollRound R) (count index : Nat) (table : ConnTable R) :
    (table.anCurfds ≤ index ∧ dispatch round (count + 1) index table = ⟨0, table, []⟩) ∨
      ((table.fd index = -1 ∨ table.revents index = ⟨false, false, false⟩) ∧
        dispatch round (count + 1) index table = dispatch round count (index + 1) table) ∨
      (table.fd index ≠ -1 ∧ (table.anTcpEventsDo round index).ret ≠ 0 ∧
        dispatch round (count + 1) index table = table.anTcpEventsDo round index) ∨
      (table.fd index ≠ -1 ∧ (table.anTcpEventsDo round index).ret = 0 ∧
        let rest := dispatch round count (index + 1) (table.anTcpEventsDo round index).table
        dispatch round (count + 1) index table =
          { rest with calls := (table.anTcpEventsDo round index).calls ++ rest.calls }) := by
  by_cases hcur : index < table.anCurfds
  · by_cases hfd : table.fd index = -1
    · exact .inr (.inl ⟨.inl hfd, by simp [dispatch, hcur, hfd]⟩)
    · by_cases hevents : (table.revents index).pollin ∨ (table.revents index).pollout ∨
          (table.revents index).pollerr
      · grind [dispatch]
      · refine .inr (.inl ⟨.inr ?_, by simp [dispatch, hcur, hfd, hevents]⟩)
        rcases hrevents : table.revents index with ⟨pollerr, pollout, pollin⟩
        simpa [hrevents, and_comm, and_assoc] using hevents
  · exact .inl ⟨by omega, by simp [dispatch, hcur]⟩

theorem dispatch_induct {P : ConnTable R → List FdCall → Prop}
    (hsound : ∀ table log, P table log → Sound listener table)
    (hstep : ∀ table log index, P table log → table.Live index →
      P (table.anTcpEventsDo round index).table
        (log ++ (table.anTcpEventsDo round index).calls))
    (count index : Nat) (hpos : 1 ≤ index) (hmax : index + count ≤ anPollMax)
    {log : List FdCall} (hstart : P table log) :
    P (dispatch round count index table).table
      (log ++ (dispatch round count index table).calls) := by
  induction count generalizing index table log with
  | zero => simpa [dispatch] using hstart
  | succ count ih =>
    have hlive : table.fd index ≠ -1 → table.Live index :=
      (hsound table log hstart).live_of_ne ⟨hpos, by omega⟩
    rcases dispatch_cases round count index table with
      ⟨_, hdone⟩ | ⟨_, hdone⟩ | ⟨hfd, _, hdone⟩ | ⟨hfd, _, hdone⟩
    · rw [hdone]
      simpa using hstart
    · rw [hdone]
      exact ih (index + 1) (by omega) (by omega) hstart
    · rw [hdone]
      exact hstep table log index hstart (hlive hfd)
    grind

/-- An entry whose error ends the process. -/
def Fatal (table : ConnTable R) (index : Nat) : Prop :=
  table.Live index ∧ (table.revents index).pollerr = true

/-- An entry of a range holds the descriptor and has data, and no error stands before it. -/
def ReadFirst (table : ConnTable R) (index stop : Nat) (fd : Int) : Prop :=
  ∃ target, index ≤ target ∧ target < stop ∧ table.Live target ∧ table.fd target = fd ∧
    table.Reads target ∧ ∀ other, index ≤ other → other < target → ¬table.Fatal other

theorem readFirst_step {index stop : Nat} (hlt : index < stop) (fd : Int) :
    table.ReadFirst index stop fd ↔
      (table.Live index ∧ table.fd index = fd ∧ table.Reads index) ∨
        (¬table.Fatal index ∧ table.ReadFirst (index + 1) stop fd) := by
  constructor
  · rintro ⟨target, hle, hstop, hlive, hfd, hreads, hbefore⟩
    rcases hle.eq_or_lt with rfl | hnext
    · exact .inl ⟨hlive, hfd, hreads⟩
    · refine .inr ⟨hbefore index le_rfl hnext, target, hnext, hstop, hlive, hfd, hreads, ?_⟩
      intro other hother
      exact hbefore other (by omega)
  · rintro (⟨hlive, hfd, hreads⟩ | ⟨hindex, target, hle, hstop, hlive, hfd, hreads, hbefore⟩)
    · exact ⟨index, le_rfl, hlt, hlive, hfd, hreads, fun other hle hlt => by omega⟩
    · refine ⟨target, by omega, hstop, hlive, hfd, hreads, ?_⟩
      grind

theorem Frame.entry {next : ConnTable R} {index other : Nat} (hframe : Frame index table next)
    (hne : other ≠ index) :
    (next.Live other ↔ table.Live other) ∧ next.fd other = table.fd other ∧
      (next.Reads other ↔ table.Reads other) ∧ (next.Fatal other ↔ table.Fatal other) := by
  have hfind : (next.anSocketTFindByIndex other).isSome =
      (table.anSocketTFindByIndex other).isSome := by
    rw [anSocketTFindByIndex, anSocketTFindByIndex]
    split_ifs
    · rfl
    · exact hframe.present other hne
  refine ⟨?_, hframe.fd other hne, ?_, ?_⟩
  · rw [Live, Live, hframe.fd other hne]
  · rw [Reads, Reads, hframe.revents other hne, hfind]
  · rw [Fatal, Fatal, Live, Live, hframe.fd other hne, hframe.revents other hne]

theorem Frame.readFirst {next : ConnTable R} {index : Nat} (hframe : Frame index table next)
    (stop : Nat) (fd : Int) :
    next.ReadFirst (index + 1) stop fd ↔ table.ReadFirst (index + 1) stop fd := by
  have hentry : ∀ other, index + 1 ≤ other → other ≠ index := fun other hother => by omega
  constructor
  · rintro ⟨target, hle, hstop, hlive, hfd, hreads, hbefore⟩
    obtain ⟨h1, h2, h3, -⟩ := hframe.entry (hentry target hle)
    refine ⟨target, hle, hstop, h1.mp hlive, h2.symm.trans hfd, h3.mp hreads, ?_⟩
    intro other hother hlt hfatal
    exact hbefore other hother hlt ((hframe.entry (hentry other hother)).2.2.2.mpr hfatal)
  · rintro ⟨target, hle, hstop, hlive, hfd, hreads, hbefore⟩
    obtain ⟨h1, h2, h3, -⟩ := hframe.entry (hentry target hle)
    refine ⟨target, hle, hstop, h1.mpr hlive, h2.trans hfd, h3.mpr hreads, ?_⟩
    intro other hother hlt hfatal
    exact hbefore other hother hlt ((hframe.entry (hentry other hother)).2.2.2.mp hfatal)

theorem recv_mem_dispatch {fd : Int} (hsound : Sound listener table) (count index : Nat)
    (hpos : 1 ≤ index) (hmax : index + count ≤ anPollMax) :
    .recv fd ∈ (dispatch round count index table).calls ↔
      table.ReadFirst index (index + count) fd := by
  induction count generalizing index table with
  | zero =>
    simp only [dispatch, List.not_mem_nil, false_iff]
    rintro ⟨target, hle, hlt, _⟩
    omega
  | succ count ih =>
    have hlive : table.fd index ≠ -1 → table.Live index :=
      hsound.live_of_ne ⟨hpos, by omega⟩
    have hturn : table.ReadFirst index (index + 1 + count) fd ↔ _ :=
      readFirst_step (by omega) fd
    rw [show index + (count + 1) = index + 1 + count by omega]
    rcases dispatch_cases round count index table with
      ⟨hcur, hdone⟩ | ⟨hskip, hdone⟩ | ⟨hfd, hret, hdone⟩ | ⟨hfd, hret, hdone⟩
    · simp only [hdone, List.not_mem_nil, false_iff]
      rintro ⟨target, hle, _, htarget, _⟩
      have := hsound.live_lt htarget
      omega
    · have hquiet : ¬(table.Live index ∧ table.Reads index) ∧ ¬table.Fatal index := by
        grind [Fatal, Live, Reads]
      rw [hdone, ih hsound (index + 1) (by omega) (by omega), hturn]
      tauto
    · rw [anTcpEventsDo_ret] at hret
      have hfatal : table.Fatal index := ⟨hlive hfd, hret⟩
      have hnot : ¬table.Reads index := by
        rintro ⟨herr, _⟩
        rw [hret] at herr
        cases herr
      rw [hdone, recv_mem_anTcpEventsDo, hturn]
      tauto
    · have herr : ¬table.Fatal index := fun hfatal =>
        (anTcpEventsDo_ret table round index).mpr hfatal.2 hret
      obtain ⟨hsound', hframe⟩ := hsound.anTcpEventsDo (hlive hfd) round
      have hrest := ih hsound' (index + 1) (by omega) (by omega)
      rw [hframe.readFirst] at hrest
      simp only [hdone, List.mem_append]
      rw [hrest, recv_mem_anTcpEventsDo, hturn]
      have := hlive hfd
      tauto

end Dispatch

end ConnTable

end WaterWall
