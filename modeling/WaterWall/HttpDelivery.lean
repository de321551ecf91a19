/-
The delivery of a response.  A live session never carries the mark of a finished send, since
the handler releases a session in the event that finishes it; so a queued response is sent to
its end, and the session goes with its last byte.
-/
import WaterWall.HttpLoop

namespace WaterWall

namespace Http

open ByteText List Function

/-- The chains are in order and no session is marked as finished. -/
structure Server.Sound (server : Server) : Prop where
  linked : server.Linked
  unfinished : ∀ addr session, server.blocks addr = some session →
    session.state.sendFinish = false

/-- No session but that of a descriptor is marked as finished. -/
def Server.UnfinishedBut (server : Server) (fd : Int) : Prop :=
  ∀ addr session, server.blocks addr = some session →
    server.sesFindSessionByFid fd ≠ some addr → session.state.sendFinish = false

section Sound

namespace Server

variable {server : Server} {addr : Nat} {session : Session}

theorem sound_start (svrFd : Int) (pollMax : Nat) (hfits : pollMax < 2 ^ 31) :
    (Server.start svrFd pollMax hfits).Sound :=
  ⟨linked_start svrFd pollMax hfits, fun _ _ hsession => by cases hsession⟩

theorem Sound.sesCreateNewSession (hsound : server.Sound) {accept : Accept}
    (hfresh : ∀ addr, accept.block = some addr → server.blocks addr = none) :
    (server.sesCreateNewSession accept).2.Sound := by
  refine ⟨hsound.linked.sesCreateNewSession hfresh, ?_⟩
  cases hblock : accept.block with
  | none =>
    rw [Server.sesCreateNewSession, hblock]
    exact hsound.unfinished
  | some addr =>
    have hplaced : ∀ other session, (server.place accept addr).2.blocks other = some session →
        session.state.sendFinish = false := by
      intro other session hsession
      by_cases hsame : other = addr
      · subst hsame
        simp only [place, update_self, Option.some.injEq] at hsession
        subst hsession
        rfl
      · simp only [place, update_of_ne hsame] at hsession
        exact hsound.unfinished other session hsession
    rw [sesCreateNewSession_some hblock]
    dsimp only
    split_ifs <;> exact hplaced

theorem Sound.store (hsound : server.Sound) {handled : Handled}
    (hsession : server.blocks addr = some session) (hids : session.SameIds handled.session)
    (hfinish : handled.session.state.sendFinish = false) : (server.store addr handled).Sound := by
  refine ⟨hsound.linked.store hsession hids, fun other held hheld => ?_⟩
  by_cases hsame : other = addr
  · simp_all [Server.store]
  · simp only [Server.store, update_of_ne hsame] at hheld
    exact hsound.unfinished other held hheld

theorem Sound.unfinishedBut (hsound : server.Sound) (fd : Int) : server.UnfinishedBut fd :=
  fun addr session hsession _ => hsound.unfinished addr session hsession

theorem Sound.store_unfinishedBut (hsound : server.Sound) {handled : Handled} {fd : Int}
    (hfind : server.sesFindSessionByFid fd = some addr)
    (hsession : server.blocks addr = some session) (hids : session.SameIds handled.session) :
    (server.store addr handled).UnfinishedBut fd := by
  intro other held hheld hother
  rw [find_store hsession hids.fid, hfind, Ne, Option.some.injEq] at hother
  simp only [Server.store, update_of_ne (Ne.symm hother)] at hheld
  exact hsound.unfinished other held hheld

/-- Behind the first part of the handler only the session at hand can be finished, and not if
the handler goes on. -/
theorem Sound.writeStage (hsound : server.Sound) {entry : PollFd} {len : Int} {stage : Stage}
    (hstage : server.writeStage entry len = .ok stage) :
    stage.server.Linked ∧ stage.server.UnfinishedBut entry.fd ∧
      (stage.goesOn = true → stage.server.Sound) := by
  rw [Server.writeStage] at hstage
  split_ifs at hstage
  · cases hstage
    exact ⟨hsound.linked, hsound.unfinishedBut _, fun _ => hsound⟩
  · obtain ⟨addr, session, sent, hfind, hsession, hsent, rfl⟩ := onPollout_ok hstage
    have hids := sesSend_sameIds hsent
    refine ⟨hsound.linked.store hsession hids,
      hsound.store_unfinishedBut hfind hsession hids, fun hgoes => ?_⟩
    simp only [Bool.and_eq_true, Bool.not_eq_true'] at hgoes
    exact hsound.store hsession hids hgoes.2
  · cases hstage
    exact ⟨hsound.linked, hsound.unfinishedBut _, fun _ => hsound⟩

theorem Sound.readStage {written stage : Stage} {entry : PollFd} {input : Readable}
    (hlinked : written.server.Linked) (hbut : written.server.UnfinishedBut entry.fd)
    (hgoes : written.goesOn = true → written.server.Sound)
    (hstage : Server.readStage written entry input = .ok stage) :
    stage.server.Linked ∧ stage.server.UnfinishedBut entry.fd ∧
      (stage.goesOn = true → stage.server.Sound) := by
  rw [Server.readStage] at hstage
  split_ifs at hstage with hreads
  · have hsound := hgoes (by
      rw [Bool.and_eq_true] at hreads
      exact hreads.1)
    rcases onPollin_ok hstage with rfl | ⟨addr, session, received, hfind, hsession, hrecv, rfl⟩
    · exact ⟨hlinked, hbut, fun _ => hsound⟩
    · have hkept := sesRecv_kept hrecv
      have hstored := hsound.store hsession hkept.toSameIds
        (hkept.sendFinish.trans (hsound.unfinished addr session hsession))
      exact ⟨hstored.linked, hstored.unfinishedBut _, fun _ => hstored⟩
  · cases hstage
    exact ⟨hlinked, hbut, hgoes⟩

theorem UnfinishedBut.sesReleaseSession {fd : Int} {index : Nat} {after : Server}
    (hlinked : server.Linked) (hbut : server.UnfinishedBut fd)
    (hrelease : server.sesReleaseSession fd index = .ok after) : after.Sound := by
  refine ⟨hlinked.sesReleaseSession hrelease, ?_⟩
  obtain ⟨addr, session, hfind, hsession, rfl⟩ := sesReleaseSession_ok hrelease
  intro other held hheld
  by_cases hsame : other = addr
  · subst hsame
    simp at hheld
  · simp only [update_of_ne hsame] at hheld
    refine hbut other held hheld ?_
    rw [hfind, Ne, Option.some.injEq]
    exact Ne.symm hsame

theorem Sound.pollEventsHandler (hsound : server.Sound) {index : Nat} {io : Io}
    {handling : Handling} (hhandler : server.pollEventsHandler index io = .ok handling) :
    handling.server.Sound := by
  obtain ⟨written, read, hwritten, hread, hend⟩ := pollEventsHandler_ok hhandler
  obtain ⟨hlinked, hbut, hgoes⟩ := hsound.writeStage hwritten
  obtain ⟨hlinked, hbut, hgoes⟩ := Sound.readStage hlinked hbut hgoes hread
  rcases hend with ⟨htrue, rfl⟩ | ⟨-, after, hrelease, rfl⟩
  · exact hgoes htrue
  · exact hbut.sesReleaseSession hlinked hrelease

theorem Sound.handleEntry (hsound : server.Sound) {index : Nat} {io : Io} {after : Server}
    {handled : List Nat} (hentry : server.handleEntry index io = .ok (after, handled)) :
    after.Sound := by
  rw [Server.handleEntry] at hentry
  split_ifs at hentry
  · obtain ⟨handling, hhandler, hentry⟩ := bind_eq_ok.mp hentry
    cases hentry
    exact hsound.pollEventsHandler hhandler
  · cases hentry
    exact hsound

theorem Sound.visit (hsound : server.Sound) {io : Nat → Io} {left index nready : Nat}
    {after : Server} {handled : List Nat}
    (hvisit : Server.visit io left index nready server = .ok (after, handled)) :
    after.Sound := by
  induction left generalizing index nready server after handled with
  | zero =>
    cases hvisit
    exact hsound
  | succ left ih =>
    rw [Server.visit] at hvisit
    by_cases hfree : server.table.fd index < 0
    · rw [if_pos hfree] at hvisit
      exact ih hsound hvisit
    · rw [if_neg hfree] at hvisit
      obtain ⟨⟨middle, first⟩, hentry, hvisit⟩ := bind_eq_ok.mp hvisit
      have hmiddle := hsound.handleEntry hentry
      dsimp only at hvisit
      by_cases hlast : nready - 1 = 0
      · rw [if_pos hlast] at hvisit
        cases hvisit
        exact hmiddle
      · rw [if_neg hlast] at hvisit
        obtain ⟨⟨last, rest⟩, hrest, hvisit⟩ := bind_eq_ok.mp hvisit
        cases hvisit
        exact ih hmiddle hrest

/-- The allocator gives every new session a block that is not in use. -/
def AcceptsFresh : Server → List Accept → Prop
  | _, [] => True
  | server, accept :: accepts =>
    (∀ addr, accept.block = some addr → server.blocks addr = none) ∧
      AcceptsFresh (server.sesCreateNewSession accept).2 accepts

theorem Sound.acceptAll (hsound : server.Sound) {accepts : List Accept}
    (hfresh : AcceptsFresh server accepts) : (server.acceptAll accepts).Sound := by
  induction accepts generalizing server with
  | nil => exact hsound
  | cons accept accepts ih => exact ih (hsound.sesCreateNewSession hfresh.1) hfresh.2

theorem Sound.of_table (hsound : server.Sound) (table : PollTable) :
    ({ server with table := table } : Server).Sound :=
  ⟨⟨hsound.linked.fid, hsound.linked.sid⟩, hsound.unfinished⟩

theorem Sound.pollProcessRun (hsound : server.Sound) {events : Nat → Revents}
    {accepts : List Accept} {io : Nat → Io} {after : Server} {handled : List Nat}
    (hfresh : AcceptsFresh (server.polled events) accepts)
    (hrun : server.pollProcessRun events accepts io = .ok (after, handled)) : after.Sound := by
  have hpolled : (server.polled events).Sound := hsound.of_table _
  have haccepted := hpolled.acceptAll hfresh
  rw [Server.pollProcessRun] at hrun
  dsimp only at hrun
  split_ifs at hrun
  · cases hrun
    exact hpolled
  · cases hrun
    exact haccepted
  · exact haccepted.visit hrun
  · exact hpolled.visit hrun

/-- The states between the turns of the loop. -/
inductive Reachable : Server → Prop
  | start (svrFd : Int) (pollMax : Nat) (hfits : pollMax < 2 ^ 31) :
      Reachable (.start svrFd pollMax hfits)
  | turn {server after : Server} {events : Nat → Revents} {accepts : List Accept}
      {io : Nat → Io} {handled : List Nat} (hreach : Reachable server)
      (hfresh : AcceptsFresh (server.polled events) accepts)
      (hrun : server.pollProcessRun events accepts io = .ok (after, handled)) : Reachable after

theorem Reachable.sound (hreach : Reachable server) : server.Sound := by
  induction hreach with
  | start svrFd pollMax hfits => exact sound_start svrFd pollMax hfits
  | turn _ hfresh hrun ih => exact ih.pollProcessRun hfresh hrun

end Server

end Sound

/-- A POLLOUT event of the entry: what was offered, how much of it was accepted, and whether the
session was released. -/
structure Delivery where
  offered : Bytes
  len : Nat
  released : Bool
  deriving DecidableEq

namespace Server

/-- `poll` reports POLLOUT and nothing else for the entry. -/
def writable (server : Server) (index : Nat) : Server :=
  let entry := { server.table.pollFds index with revents := ⟨false, true, false, false⟩ }
  { server with table := server.table.setEntry index entry }

/-- POLLOUT events of an entry one after the other, with what `send` accepts in each. -/
def deliver (index : Nat) (input : Readable) :
    Server → List Nat → Except Fault (Server × List Delivery)
  | server, [] => .ok (server, [])
  | server, len :: lens => do
      let handling ← (server.writable index).pollEventsHandler index ⟨len, input⟩
      let (after, rest) ← deliver index input handling.server lens
      return (after, ⟨handling.offered.flatten, len, handling.released⟩ :: rest)

end Server

/-- Every `send` accepts at least one byte, and not more than there are left. -/
def AcceptedParts : Nat → List Nat → Prop
  | _, [] => True
  | left, len :: lens => 0 < len ∧ len ≤ left ∧ AcceptedParts (left - len) lens

/-- An entry of the poll table, its session, and the response that waits there. -/
structure Server.Sending (server : Server) (index addr : Nat) (fd : Int) (response : Bytes) :
    Prop where
  entry : server.table.fd index = fd
  find : server.sesFindSessionByFid fd = some addr
  queued : ∃ session, server.blocks addr = some session ∧ session.Queues response ∧
    session.state.sendFinish = false

section Deliver

namespace Server

variable {server : Server} {index addr : Nat} {fd : Int} {response : Bytes} {len : Nat}

theorem writable_pollFds (server : Server) (index : Nat) :
    (server.writable index).table.pollFds index =
      { server.table.pollFds index with revents := ⟨false, true, false, false⟩ } := by
  simp [writable, PollTable.setEntry]

theorem Sending.handler_eq (hsending : server.Sending index addr fd response) (hpos : 0 < len)
    (hle : len ≤ response.length) (input : Readable) :
    ∃ stored : Server, stored.table.fd index = fd ∧ stored.sesFindSessionByFid fd = some addr ∧
      (∃ next, stored.blocks addr = some next ∧ next.Queues (response.drop len) ∧
        next.state.sendFinish = decide (len = response.length)) ∧
      (server.writable index).pollEventsHandler index ⟨len, input⟩ =
        if len = response.length then
          (stored.sesReleaseSession fd index).map fun after => ⟨after, true, [response], []⟩
        else .ok ⟨stored, false, [response], []⟩ := by
  obtain ⟨hentry, hfind, session, hsession, hqueues, hfinish⟩ := hsending
  obtain ⟨next, pollout, hsent, hnext, hfid, -, -, hdone⟩ := hqueues.sends hpos hle
  have hfinished : next.state.sendFinish = decide (len = response.length) := by
    rw [Bool.eq_iff_iff, hdone, hfinish]
    simp
  have hfd : ((server.writable index).table.pollFds index).fd = fd := by
    rw [writable_pollFds]
    exact hentry
  have hfind' : (server.writable index).sesFindSessionByFid fd = some addr := hfind
  have hwritten : (server.writable index).writeStage
      ((server.writable index).table.pollFds index) len =
      .ok ⟨!next.state.sendFinish, (server.writable index).store addr ⟨0, next, pollout⟩,
        [response], []⟩ := by
    rw [writeStage, hfd, onPollout_of_sent hfind' hsession hsent, writable_pollFds]
    simp
  have hread : readStage ⟨!next.state.sendFinish,
      (server.writable index).store addr ⟨0, next, pollout⟩, [response], []⟩
      ((server.writable index).table.pollFds index) input = .ok ⟨!next.state.sendFinish,
        (server.writable index).store addr ⟨0, next, pollout⟩, [], []⟩ := by
    rw [readStage, writable_pollFds]
    simp
  have hsame : PollTable.SameBut (fun _ => True) (server.writable index).table
      ((server.writable index).store addr ⟨0, next, pollout⟩).table :=
    PollTable.sameBut_setPollout _ _
  refine ⟨(server.writable index).store addr ⟨0, next, pollout⟩,
    (hsame.fd index trivial).trans hfd,
    (@find_store (server.writable index) addr session ⟨0, next, pollout⟩ hsession hfid fd).trans
      hfind, ⟨next, update_self _ _ _, hnext, hfinished⟩, ?_⟩
  rw [@pollEventsHandler_of_stages (server.writable index) index ⟨len, input⟩ _ _ hwritten hread,
    PollTable.fd, hfd, hfinished]
  by_cases hlast : len = response.length <;> simp [hlast]

theorem Sending.handler (hsending : server.Sending index addr fd response) (hpos : 0 < len)
    (hle : len ≤ response.length) (input : Readable) :
    ∃ after, (server.writable index).pollEventsHandler index ⟨len, input⟩ =
        .ok ⟨after, decide (len = response.length), [response], []⟩ ∧
      (len ≠ response.length → after.Sending index addr fd (response.drop len)) ∧
      (len = response.length → after.table.fd index = -1 ∧ after.blocks addr = none) := by
  obtain ⟨stored, hentry, hfind, ⟨next, hblock, hnext, hfinished⟩, hhandler⟩ :=
    hsending.handler_eq hpos hle input
  by_cases hlast : len = response.length
  · rw [if_pos hlast, sesReleaseSession, hfind] at hhandler
    dsimp only at hhandler
    rw [hblock] at hhandler
    refine ⟨_, by rw [decide_eq_true hlast]; exact hhandler, fun hmore => absurd hlast hmore,
      fun _ => ⟨?_, update_self _ _ _⟩⟩
    simp [PollTable.fd, PollTable.pollDel, PollTable.setEntry]
  · rw [if_neg hlast] at hhandler
    refine ⟨stored, by rw [decide_eq_false hlast]; exact hhandler,
      fun _ => ⟨hentry, hfind, next, hblock, hnext, ?_⟩, fun hall => absurd hall hlast⟩
    simpa only [hlast, decide_false] using hfinished

end Server

/-- The events as they should be: each one offers what the earlier ones left. -/
def expected (response : Bytes) : List Nat → List Delivery
  | [] => []
  | len :: lens => ⟨response, len, len = response.length⟩ :: expected (response.drop len) lens

theorem AcceptedParts.of_zero {lens : List Nat} (hparts : AcceptedParts 0 lens) : lens = [] := by
  cases lens with
  | nil => rfl
  | cons len lens =>
    obtain ⟨hpos, hle, -⟩ := hparts
    omega

theorem Server.Sending.deliver {server : Server} {index addr : Nat} {fd : Int} {response : Bytes}
    {lens : List Nat} (hsending : server.Sending index addr fd response)
    (hresponse : response ≠ []) (hparts : AcceptedParts response.length lens)
    (input : Readable) :
    ∃ after, Server.deliver index input server lens = .ok (after, expected response lens) ∧
      (lens.sum = response.length → after.table.fd index = -1 ∧ after.blocks addr = none) := by
  induction lens generalizing server response with
  | nil =>
    refine ⟨server, rfl, fun hall => ?_⟩
    exact absurd (length_eq_zero_iff.mp hall.symm) hresponse
  | cons len lens ih =>
    obtain ⟨hpos, hle, hrest⟩ := hparts
    obtain ⟨after, hhandler, hmore, hlast⟩ := hsending.handler hpos hle input
    by_cases hall : len = response.length
    · rw [hall, Nat.sub_self] at hrest
      cases hrest.of_zero
      refine ⟨after, ?_, fun _ => hlast hall⟩
      simp only [Server.deliver, hhandler, bind, Except.bind, expected, flatten_singleton]
      rfl
    · have hleft : response.drop len ≠ [] := by
        rw [Ne, drop_eq_nil_iff]
        omega
      rw [← length_drop] at hrest
      obtain ⟨last, hdeliver, hgone⟩ := ih (hmore hall) hleft hrest
      refine ⟨last, ?_, fun hsum => hgone ?_⟩
      · simp only [Server.deliver, hhandler, bind, Except.bind, hdeliver, expected,
          flatten_singleton]
        rfl
      · rw [sum_cons] at hsum
        rw [length_drop]
        omega

theorem expected_len (response : Bytes) (lens : List Nat) :
    (expected response lens).map Delivery.len = lens := by
  induction lens generalizing response with
  | nil => rfl
  | cons len lens ih => rw [expected, map_cons, ih]

theorem expected_accepted (response : Bytes) (lens : List Nat) :
    ((expected response lens).flatMap fun delivery => delivery.offered.take delivery.len) =
      response.take lens.sum := by
  induction lens generalizing response with
  | nil => simp [expected]
  | cons len lens ih => rw [expected, flatMap_cons, ih, sum_cons, take_add]

/-- An event offers what the events before it have left, and releases the session with the last
byte. -/
theorem expected_split {response : Bytes} {lens : List Nat}
    (hparts : AcceptedParts response.length lens) {before after : List Delivery}
    {delivery : Delivery} (hsplit : expected response lens = before ++ delivery :: after) :
    delivery.offered = response.drop (before.map Delivery.len).sum ∧
      (delivery.released = true ↔
        (before.map Delivery.len).sum + delivery.len = response.length) := by
  induction before generalizing response lens with
  | nil =>
    cases lens with
    | nil => cases hsplit
    | cons len lens =>
      cases hsplit
      simp
  | cons first before ih =>
    cases lens with
    | nil => cases hsplit
    | cons len lens =>
      obtain ⟨hpos, hle, hrest⟩ := hparts
      rw [expected, cons_append, List.cons.injEq] at hsplit
      grind [drop_drop]

theorem expected_released {response : Bytes} {lens : List Nat} (hresponse : response ≠ [])
    (hparts : AcceptedParts response.length lens) :
    (expected response lens).countP Delivery.released =
      if lens.sum = response.length then 1 else 0 := by
  induction lens generalizing response with
  | nil =>
    have hlength : ¬0 = response.length := fun hzero =>
      hresponse (length_eq_zero_iff.mp hzero.symm)
    rw [sum_nil, if_neg hlength]
    rfl
  | cons len lens ih =>
    obtain ⟨hpos, hle, hrest⟩ := hparts
    rw [expected, countP_cons, sum_cons]
    by_cases hall : len = response.length
    · rw [hall, Nat.sub_self] at hrest
      cases hrest.of_zero
      simp [expected, hall]
    · have hleft : response.drop len ≠ [] := by
        rw [Ne, drop_eq_nil_iff]
        omega
      rw [← length_drop] at hrest
      rw [ih hleft hrest, length_drop]
      grind

end Deliver

open Server

/-- A response that waits at a session of a running server is delivered by its POLLOUT events:
what they accept is the response from its front, none of them offers a byte again, and the
session is released once, in the event that accepts the last byte. -/
theorem httpResponse_delivered (server : Server) (hreach : Reachable server) (index addr : Nat)
    (session : Session) (hfind : server.sesFindSessionByFid (server.table.fd index) = some addr)
    (hsession : server.blocks addr = some session) (response : Bytes)
    (hqueued : session.Queues response) (hresponse : response ≠ []) (lens : List Nat)
    (hparts : AcceptedParts response.length lens) (input : Readable) :
    ∃ after log, deliver index input server lens = .ok (after, log) ∧
      log.map Delivery.len = lens ∧
      (log.flatMap fun delivery => delivery.offered.take delivery.len) =
        response.take lens.sum ∧
      (∀ before delivery later, log = before ++ delivery :: later →
        delivery.offered = response.drop (before.map Delivery.len).sum ∧
          (delivery.released = true ↔
            (before.map Delivery.len).sum + delivery.len = response.length)) ∧
      (lens.sum = response.length → log.countP Delivery.released = 1 ∧
        after.table.fd index = -1 ∧ after.blocks addr = none) := by
  have hsending : server.Sending index addr (server.table.fd index) response :=
    ⟨rfl, hfind, session, hsession, hqueued, hreach.sound.unfinished addr session hsession⟩
  obtain ⟨after, hdeliver, hgone⟩ := hsending.deliver hresponse hparts input
  refine ⟨after, expected response lens, hdeliver, expected_len response lens,
    expected_accepted response lens, fun before delivery later hsplit =>
      expected_split hparts hsplit, fun hall => ⟨?_, hgone hall⟩⟩
  rw [expected_released hresponse hparts, if_pos hall]

namespace DeliveryWitness

theorem size_fits : 8 < 2 ^ 31 := by decide

def pollinAt (place index : Nat) : Revents :=
  if index = place then ⟨true, false, false, false⟩ else .quiet

def input : Readable :=
  ⟨ascii "GET / HTTP/1.1\r\n\r\n", [0], Sample.memory, .answered (ascii "ok") false, Sample.date⟩

/-- A client has been let in. -/
def accepted : Server :=
  ((Server.start 4 8 size_fits).polled (pollinAt 0)).acceptAll [⟨5, some 100, true⟩]

theorem reachable_accepted : Reachable accepted := by
  have hrun : (Server.start 4 8 size_fits).pollProcessRun (pollinAt 0) [⟨5, some 100, true⟩]
      (fun _ => ⟨0, input⟩) = .ok (accepted, []) := rfl
  have hfresh : AcceptsFresh ((Server.start 4 8 size_fits).polled (pollinAt 0))
      [⟨5, some 100, true⟩] := ⟨fun _ _ => rfl, trivial⟩
  exact .turn (.start 4 8 size_fits) hfresh hrun

/-- Its request has been answered. -/
def served : Session :=
  { newSession 5 0 1 with sndBuf := some (ascii "ok"), sndLen := 2 }

theorem sesRecv_input :
    sesRecv (newSession 5 0 1) input = .ok ⟨⟨0, served, some true⟩, [input.pending]⟩ := by
  have hrounds : sesRecvRounds Sample.memory (newSession 5 0 1) input.pending =
      .ok (true, { newSession 5 0 1 with
        rcvBuf := some input.pending, rcvBuflen := 18, rcvLen := 18 }) := by
    rw [sesRecvRounds, dif_neg (by decide)]
    rfl
  have heof : sesCheckEof input.pending input.behind = true := by decide +kernel
  have hmemory : input.memory = Sample.memory := rfl
  simp only [sesRecv, hmemory, hrounds, bind, Except.bind, Option.getD_some, heof]
  rfl

/-- Its response waits to be sent. -/
def waiting : Server :=
  (accepted.polled (pollinAt 1)).store 100 ⟨0, served, some true⟩

theorem handler_accepted :
    (accepted.polled (pollinAt 1)).pollEventsHandler 1 ⟨0, input⟩ =
      .ok ⟨waiting, false, [], [input.pending]⟩ := by
  have hread : (accepted.polled (pollinAt 1)).onPollin 5 input =
      .ok ⟨true, waiting, [], [input.pending]⟩ :=
    @onPollin_of_received (accepted.polled (pollinAt 1)) 100 (newSession 5 0 1) 5 input _ rfl rfl
      sesRecv_input
  exact @pollEventsHandler_of_stages (accepted.polled (pollinAt 1)) 1 ⟨0, input⟩
    ⟨true, accepted.polled (pollinAt 1), [], []⟩ ⟨true, waiting, [], [input.pending]⟩ rfl hread

theorem reachable_waiting : Reachable waiting := by
  have hentry : (accepted.polled (pollinAt 1)).handleEntry 1 ⟨0, input⟩ = .ok (waiting, [1]) := by
    rw [handleEntry, if_pos (by decide), handler_accepted]
    rfl
  have hrun : accepted.pollProcessRun (pollinAt 1) [] (fun _ => ⟨0, input⟩) =
      .ok (waiting, [1]) := by
    rw [pollProcessRun_eq_visit _ (by decide)]
    change visit _ 1 1 1 (accepted.polled (pollinAt 1)) = _
    rw [visit, if_neg (by decide)]
    simp only [hentry, bind, Except.bind]
    rfl
  have hfresh : AcceptsFresh (accepted.polled (pollinAt 1)) [] := trivial
  exact .turn reachable_accepted hfresh hrun

/-- The response goes in two parts. -/
theorem delivered_waiting : ∃ after log,
    deliver 1 input waiting [1, 1] = .ok (after, log) ∧ log.countP Delivery.released = 1 := by
  have hqueued : served.Queues (ascii "ok") := ⟨rfl, ⟨rfl, rfl⟩, fun hnone => by cases hnone⟩
  obtain ⟨after, log, hdeliver, -, -, -, hdone⟩ :=
    httpResponse_delivered waiting reachable_waiting 1 100 served rfl rfl (ascii "ok") hqueued
      (by decide) [1, 1] ⟨by decide, by decide, by decide, by decide, trivial⟩ input
  exact ⟨after, log, hdeliver, (hdone rfl).1⟩

end DeliveryWitness

end Http

end WaterWall
