/-
The rounds of the server's loop, one `poll` each.  The entries from `poll_curfds` on have
never been reported on, and a free entry is reported without events; so an entry that is
taken by a new connection has none until the next `poll`, and what a handler reads was
reported in its own round for the descriptor that is there.
-/
import WaterWall.HttpLoop

namespace WaterWall

namespace Http

namespace PollTable

/-- The events of the entries that `poll` was given are written. -/
def report (table : PollTable) (revents : Nat → Revents) : PollTable :=
  { table with pollFds := fun index =>
      if index < table.pollCurfds then
        { table.pollFds index with revents := revents index }
      else table.pollFds index }

end PollTable

namespace Server

/-- The loop over the entries with the calls of `poll_events_handler`: the index and what the
entry is at the call.  A fault ends the run behind the call. -/
def visitCalls (io : Nat → Io) : Nat → Nat → Nat → Server →
    List (Nat × PollFd) × Except Fault Server
  | 0, _, _, server => ([], .ok server)
  | left + 1, index, nready, server =>
    if server.table.fd index < 0 then visitCalls io left (index + 1) nready server
    else
      let entry := server.table.pollFds index
      let call := if entry.revents.Noticed then [(index, entry)] else []
      match server.handleEntry index (io index) with
      | .error fault => (call, .error fault)
      | .ok (server, _) =>
        if nready - 1 = 0 then (call, .ok server)
        else
          let rest := visitCalls io left (index + 1) (nready - 1) server
          (call ++ rest.1, rest.2)

/-- A turn with its calls of `poll_events_handler`. -/
def pollProcessRunCalls (server : Server) (events : Nat → Revents) (accepts : List Accept)
    (io : Nat → Io) : List (Nat × PollFd) × Except Fault Server :=
  let nready := (server.table.ready events).card
  let server := { server with table := server.table.poll events }
  if nready < 1 then ([], .ok server)
  else if (server.table.pollFds 0).revents.pollin then
    let server := server.acceptAll accepts
    if nready - 1 = 0 then ([], .ok server)
    else visitCalls io (server.table.pollCurfds - 1) 1 (nready - 1) server
  else visitCalls io (server.table.pollCurfds - 1) 1 nready server

/-- Each `poll_add` of the loop of `accept` finds room. -/
def AcceptsFit : Server → List Accept → Prop
  | _, [] => True
  | server, accept :: accepts =>
    (accept.block ≠ none → ¬ server.table.Full) ∧
      AcceptsFit (server.sesCreateNewSession accept).2 accepts

def TurnFits (server : Server) (events : Nat → Revents) (accepts : List Accept) : Prop :=
  server.listens events = true → (server.polled events).AcceptsFit accepts

/-- The servers that the loop comes to.  A `poll` that fails may leave anything in the events of
its entries. -/
inductive Reached (svrFd : Int) (pollMax : Nat) (sizeFits : pollMax < 2 ^ 31) : Server → Prop
  | start : Reached svrFd pollMax sizeFits (.start svrFd pollMax sizeFits)
  | failed {server : Server} (hreached : Reached svrFd pollMax sizeFits server)
      (revents : Nat → Revents) :
      Reached svrFd pollMax sizeFits { server with table := server.table.report revents }
  | turn {server after : Server} {events : Nat → Revents} {accepts : List Accept}
      {io : Nat → Io} {handled : List Nat} (hreached : Reached svrFd pollMax sizeFits server)
      (hfits : server.TurnFits events accepts)
      (hturn : server.pollProcessRun events accepts io = .ok (after, handled)) :
      Reached svrFd pollMax sizeFits after

section Calls

variable {io : Nat → Io} {left index nready : Nat} {server : Server}

theorem visitCalls_eq : visit io left index nready server =
    (visitCalls io left index nready server).2.map fun after =>
      (after, (visitCalls io left index nready server).1.map Prod.fst) := by
  induction left generalizing index nready server with
  | zero => rfl
  | succ left ih =>
    rw [visit, visitCalls]
    by_cases hfree : server.table.fd index < 0
    · rw [if_pos hfree, if_pos hfree]
      exact ih
    rw [if_neg hfree, if_neg hfree]
    cases hentry : server.handleEntry index (io index) with
    | error fault => rfl
    | ok result =>
      obtain ⟨middle, handled⟩ := result
      obtain ⟨-, rfl⟩ := handleEntry_ok hentry
      dsimp only [bind, Except.bind]
      by_cases hlast : nready - 1 = 0
      · rw [if_pos hlast, if_pos hlast]
        split_ifs <;> rfl
      · rw [if_neg hlast, if_neg hlast, ih]
        cases (visitCalls io left (index + 1) (nready - 1) middle).2 with
        | error fault => rfl
        | ok after => split_ifs <;> rfl

theorem pollProcessRunCalls_eq (events : Nat → Revents) (accepts : List Accept) :
    server.pollProcessRun events accepts io =
      (server.pollProcessRunCalls events accepts io).2.map fun after =>
        (after, (server.pollProcessRunCalls events accepts io).1.map Prod.fst) := by
  rw [pollProcessRun, pollProcessRunCalls]
  dsimp only
  split_ifs
  · rfl
  · rfl
  · exact visitCalls_eq
  · exact visitCalls_eq

end Calls

/-- What holds before every round: `poll` gets all connections, and the entries behind those
that it gets have no events. -/
structure Calm (server : Server) : Prop where
  bounds : server.table.InBounds
  quiet : ∀ index, server.table.pollCurfds ≤ index →
    (server.table.pollFds index).revents = .quiet

section Calm

variable {server : Server}

theorem calm_start {svrFd : Int} {pollMax : Nat} (hsize : 1 < pollMax)
    (sizeFits : pollMax < 2 ^ 31) : (start svrFd pollMax sizeFits).Calm where
  bounds := PollTable.inBounds_pollInit hsize sizeFits
  quiet _ _ := rfl

theorem fd_report (table : PollTable) (revents : Nat → Revents) (index : Nat) :
    (table.report revents).fd index = table.fd index := by
  simp only [PollTable.report, PollTable.fd]
  split_ifs <;> rfl

theorem Calm.report (hcalm : server.Calm) (revents : Nat → Revents) :
    { server with table := server.table.report revents }.Calm where
  bounds := by
    refine ⟨hcalm.bounds.pos, hcalm.bounds.le_max, fun index hindex hfd => ?_⟩
    exact hcalm.bounds.below index hindex (by rwa [fd_report] at hfd)
  quiet index hindex := by
    have hbehind : ¬ index < server.table.pollCurfds := Nat.not_lt.mpr hindex
    simp only [PollTable.report, if_neg hbehind]
    exact hcalm.quiet index hindex

theorem poll_eq_report (table : PollTable) (events : Nat → Revents) :
    table.poll events =
      table.report fun index => if 0 ≤ table.fd index then events index else .quiet :=
  rfl

theorem Calm.polled (hcalm : server.Calm) (events : Nat → Revents) :
    (server.polled events).Calm := by
  rw [Server.polled, poll_eq_report]
  exact hcalm.report _

theorem Calm.sesCreateNewSession (hcalm : server.Calm) {accept : Accept}
    (hfits : accept.block ≠ none → ¬ server.table.Full) :
    (server.sesCreateNewSession accept).2.Calm := by
  have hextends := server.extends_sesCreateNewSession accept
  constructor
  · cases hblock : accept.block with
    | none =>
      rw [Server.sesCreateNewSession, hblock]
      exact hcalm.bounds
    | some addr =>
      have hadd := hcalm.bounds.pollAdd accept.fd (hfits (by simp [hblock]))
      rw [sesCreateNewSession_some hblock]
      dsimp only
      split_ifs <;> exact hadd
  · intro index hindex
    rw [hextends.revents index]
    exact hcalm.quiet index (hextends.curfds.trans hindex)

theorem Calm.acceptAll (hcalm : server.Calm) {accepts : List Accept}
    (hfits : server.AcceptsFit accepts) : (server.acceptAll accepts).Calm := by
  induction accepts generalizing server with
  | nil => exact hcalm
  | cons accept accepts ih => exact ih (hcalm.sesCreateNewSession hfits.1) hfits.2

theorem Calm.atLoop (hcalm : server.Calm) {events : Nat → Revents} {accepts : List Accept}
    (hfits : server.TurnFits events accepts) : (server.atLoop events accepts).Calm := by
  rw [Server.atLoop]
  split_ifs with hlistens
  · exact (hcalm.polled events).acceptAll (hfits hlistens)
  · exact hcalm.polled events

end Calm

section Handler

variable {server after : Server} {index : Nat}

theorem Calm.handleEntry (hcalm : server.Calm) (hindex : index < server.table.pollCurfds)
    {io : Io} {handled : List Nat}
    (hentry : server.handleEntry index io = .ok (after, handled)) : after.Calm := by
  obtain ⟨hsame, -⟩ := handleEntry_ok hentry
  refine ⟨⟨?_, ?_, fun other hother hfd => ?_⟩, fun other hother => ?_⟩
  · rw [hsame.curfds]
    exact hcalm.bounds.pos
  · rw [hsame.curfds, hsame.size]
    exact hcalm.bounds.le_max
  · rw [hsame.curfds]
    rw [hsame.size] at hother
    by_cases hplace : other = index
    · exact hplace ▸ hindex
    · rw [hsame.fd other hplace] at hfd
      exact hcalm.bounds.below other hother hfd
  · rw [hsame.revents other]
    rw [hsame.curfds] at hother
    exact hcalm.quiet other hother

end Handler

/-- A call for one of the entries from one to another, with what is in the table before it. -/
structure CallIn (table : PollTable) (first last : Nat) (call : Nat × PollFd) : Prop where
  first_le : first ≤ call.1
  lt_last : call.1 < last
  noticed : call.2.revents.Noticed
  revents : call.2.revents = (table.pollFds call.1).revents
  fd : call.2.fd = table.fd call.1
  live : 0 ≤ call.2.fd

section Turn

variable {io : Nat → Io} {left index nready : Nat} {server : Server}

theorem CallIn.of_sameBut {table other : PollTable} {last : Nat} {call : Nat × PollFd}
    (hcall : CallIn other (index + 1) last call)
    (hsame : PollTable.SameBut (· ≠ index) table other) : CallIn table index last call where
  first_le := Nat.le_of_succ_le hcall.first_le
  lt_last := hcall.lt_last
  noticed := hcall.noticed
  revents := hcall.revents.trans (hsame.revents call.1)
  fd := hcall.fd.trans (hsame.fd call.1 (Nat.ne_of_gt hcall.first_le))
  live := hcall.live

theorem Calm.visitCalls (hcalm : server.Calm) (hleft : index + left ≤ server.table.pollCurfds) :
    (∀ call ∈ (visitCalls io left index nready server).1,
      CallIn server.table index (index + left) call) ∧
    ∀ after, (visitCalls io left index nready server).2 = .ok after → after.Calm := by
  induction left generalizing index nready server with
  | zero =>
    grind [Server.visitCalls]
  | succ left ih =>
    rw [Server.visitCalls]
    by_cases hfree : server.table.fd index < 0
    · rw [if_pos hfree]
      obtain ⟨hcalls, hafter⟩ := ih hcalm (by omega : index + 1 + left ≤ _)
      refine ⟨fun call hcall => ?_, hafter⟩
      have hin := (hcalls call hcall).of_sameBut (.refl _)
      rwa [Nat.add_right_comm] at hin
    rw [if_neg hfree]
    have hfirst : ∀ call ∈ (if (server.table.pollFds index).revents.Noticed
        then [(index, server.table.pollFds index)] else []),
        CallIn server.table index (index + (left + 1)) call := by
      intro call hcall
      split_ifs at hcall with hnoticed
      · obtain rfl := List.mem_singleton.mp hcall
        exact ⟨Nat.le_refl _, by dsimp only; omega, hnoticed, rfl, rfl, Int.not_lt.mp hfree⟩
      · cases hcall
    dsimp only
    cases hentry : server.handleEntry index (io index) with
    | error fault => exact ⟨hfirst, fun after hafter => nomatch hafter⟩
    | ok result =>
      obtain ⟨middle, handled⟩ := result
      have hmiddle := hcalm.handleEntry (by omega) hentry
      obtain ⟨hsame, -⟩ := handleEntry_ok hentry
      dsimp only
      by_cases hlast : nready - 1 = 0
      · rw [if_pos hlast]
        grind
      · rw [if_neg hlast]
        obtain ⟨hcalls, hafter⟩ := @ih (index + 1) (nready - 1) middle hmiddle
          (by rw [hsame.curfds]; omega)
        refine ⟨fun call hcall => ?_, hafter⟩
        obtain hcall | hcall := List.mem_append.mp hcall
        · exact hfirst call hcall
        · have hin := (hcalls call hcall).of_sameBut hsame
          rwa [Nat.add_right_comm] at hin

theorem Calm.pollProcessRunCalls (hcalm : server.Calm) {events : Nat → Revents}
    {accepts : List Accept} (hfits : server.TurnFits events accepts) :
    (∀ call ∈ (server.pollProcessRunCalls events accepts io).1,
      CallIn (server.atLoop events accepts).table 1
        (server.atLoop events accepts).table.pollCurfds call) ∧
    ∀ after, (server.pollProcessRunCalls events accepts io).2 = .ok after → after.Calm := by
  have hloop := hcalm.atLoop hfits
  have hpos := hloop.bounds.pos
  have hvisit (nready : Nat) := @Calm.visitCalls io
    ((server.atLoop events accepts).table.pollCurfds - 1) 1 nready _ hloop (by omega)
  rw [Nat.add_sub_cancel' hpos] at hvisit
  rw [Server.pollProcessRunCalls]
  dsimp only
  by_cases hready : (server.table.ready events).card < 1
  · rw [if_pos hready]
    refine ⟨by simp, fun after hafter => ?_⟩
    cases hafter
    exact hcalm.polled events
  rw [if_neg hready]
  by_cases hlistens : ((server.table.poll events).pollFds 0).revents.pollin = true
  · have hat : server.atLoop events accepts = (server.polled events).acceptAll accepts :=
      if_pos hlistens
    rw [if_pos hlistens]
    rw [hat] at hloop hvisit ⊢
    by_cases hlast : (server.table.ready events).card - 1 = 0
    · rw [if_pos hlast]
      refine ⟨by simp, fun after hafter => ?_⟩
      cases hafter
      exact hloop
    · rw [if_neg hlast]
      exact hvisit _
  · have hat : server.atLoop events accepts = server.polled events := if_neg hlistens
    rw [if_neg hlistens]
    rw [hat] at hvisit ⊢
    exact hvisit _

theorem Reached.calm {svrFd : Int} {pollMax : Nat} {sizeFits : pollMax < 2 ^ 31}
    (hreached : Reached svrFd pollMax sizeFits server) (hsize : 1 < pollMax) : server.Calm := by
  induction hreached with
  | start => exact calm_start hsize sizeFits
  | failed _ revents ih => exact ih.report revents
  | @turn server after events accepts io handled _ hfits hturn ih =>
    rw [pollProcessRunCalls_eq] at hturn
    cases hresult : (server.pollProcessRunCalls events accepts io).2 with
    | error fault =>
      rw [hresult] at hturn
      cases hturn
    | ok last =>
      rw [hresult] at hturn
      cases hturn
      exact (ih.pollProcessRunCalls hfits).2 _ hresult

theorem Calm.reported (hcalm : server.Calm) {events : Nat → Revents} {accepts : List Accept}
    (hnoticed : ((server.atLoop events accepts).table.pollFds index).revents.Noticed) :
    index < server.table.pollCurfds ∧ 0 ≤ server.table.fd index ∧
      ((server.atLoop events accepts).table.pollFds index).revents = events index := by
  have hquiet : ¬ Revents.quiet.Noticed := by
    decide
  rw [(@extends_atLoop server events accepts).revents index] at hnoticed ⊢
  simp only [Server.polled, PollTable.poll] at hnoticed ⊢
  by_cases hindex : index < server.table.pollCurfds
  · rw [if_pos hindex] at hnoticed ⊢
    grind
  · rw [if_neg hindex, hcalm.quiet index (Nat.not_lt.mp hindex)] at hnoticed
    exact absurd hnoticed hquiet

end Turn

end Server

/-- Each call of `poll_events_handler` in a turn reads the events that the `poll` of this turn
reported for the descriptor that is in the entry; an entry that is taken in the turn is not
handed on. -/
theorem pollProcessRun_own_events (svrFd : Int) (pollMax : Nat) (hsize : 1 < pollMax)
    (sizeFits : pollMax < 2 ^ 31) (server : Server)
    (hreached : Server.Reached svrFd pollMax sizeFits server) (events : Nat → Revents)
    (accepts : List Accept) (io : Nat → Io) (hfits : server.TurnFits events accepts) :
    (∀ index entry, (index, entry) ∈ (server.pollProcessRunCalls events accepts io).1 →
      1 ≤ index ∧ index < server.table.pollCurfds ∧ index < server.table.pollMaxSize ∧
      0 ≤ entry.fd ∧ entry.fd = server.table.fd index ∧ entry.revents = events index) ∧
    ∀ index entry,
      (server.atLoop events accepts).table.fd index ≠ server.table.fd index →
      (index, entry) ∉ (server.pollProcessRunCalls events accepts io).1 := by
  have hcalm := hreached.calm hsize
  have hcalls := (@Server.Calm.pollProcessRunCalls io server hcalm events accepts hfits).1
  have hkept {index : Nat} {entry : PollFd}
      (hcall : (index, entry) ∈ (server.pollProcessRunCalls events accepts io).1) :
      index < server.table.pollCurfds ∧
        (server.atLoop events accepts).table.fd index = server.table.fd index ∧
        entry.revents = events index := by
    have hin := hcalls _ hcall
    have hnoticed := hin.noticed
    rw [hin.revents] at hnoticed
    obtain ⟨hindex, hlive, hevents⟩ := hcalm.reported hnoticed
    rw [← @Server.polled_fd server events index] at hlive
    refine ⟨hindex, ?_, hin.revents.trans hevents⟩
    exact (Server.extends_atLoop.fd index hlive).trans (Server.polled_fd index)
  constructor
  · intro index entry hcall
    have hin := hcalls _ hcall
    obtain ⟨hindex, hfd, hevents⟩ := hkept hcall
    exact ⟨hin.first_le, hindex, lt_of_lt_of_le hindex hcalm.bounds.le_max, hin.live,
      hin.fd.trans hfd, hevents⟩
  · intro index entry htaken hcall
    exact htaken (hkept hcall).2.1

namespace RoundsWitness

open Server LoopWitness

/-- There are new connections. -/
def listening (index : Nat) : Revents :=
  if index = 0 then ⟨true, false, false, false⟩ else .quiet

def clients : List Accept := [⟨5, some 100, true⟩, ⟨6, some 101, true⟩]

/-- The server when it has let in two connections. -/
def server : Server :=
  ((Server.start 4 8 size_fits).polled listening).acceptAll clients

theorem clients_fit : (Server.start 4 8 size_fits).TurnFits listening clients := by
  intro _
  exact ⟨fun _ => by decide, fun _ => by decide, trivial⟩

theorem reached_server : Reached 4 8 size_fits server :=
  @Reached.turn 4 8 size_fits _ server listening clients io [] .start clients_fit rfl

theorem first_called : (1, (server.polled (failing 1)).table.pollFds 1) ∈
    (server.pollProcessRunCalls (failing 1) [] io).1 :=
  List.mem_singleton.mpr rfl

theorem own_events_first : ∃ entry,
    (1, entry) ∈ (server.pollProcessRunCalls (failing 1) [] io).1 ∧
      entry.fd = server.table.fd 1 ∧ entry.revents = failing 1 1 := by
  obtain ⟨-, -, -, -, hfd, hevents⟩ :=
    (pollProcessRun_own_events 4 8 (by decide) size_fits server reached_server (failing 1) [] io
      fun _ => trivial).1 1 _ first_called
  exact ⟨_, first_called, hfd, hevents⟩

end RoundsWitness

end Http

end WaterWall
