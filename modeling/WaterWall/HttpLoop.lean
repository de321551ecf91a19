/-
One turn of the server's loop.  `poll` says how many entries have events, and the turn counts
that number down on its way through the table.
-/
import WaterWall.HttpServer

namespace WaterWall

namespace Http

open ByteText

/-- The entry has an event that `poll_process_run` asks for. -/
def Revents.Noticed (revents : Revents) : Prop :=
  revents.pollin = true ∨ revents.pollerr = true ∨ revents.pollout = true

instance (revents : Revents) : Decidable revents.Noticed :=
  inferInstanceAs (Decidable (_ ∨ _))

namespace PollTable

/-- The entries that `poll` reports when these events are there. -/
def ready (table : PollTable) (events : Nat → Revents) : Finset Nat :=
  (Finset.range table.pollCurfds).filter fun index =>
    0 ≤ table.fd index ∧ events index ≠ .quiet

/-- `poll` writes the events of every entry that it is given; a free one has none. -/
def poll (table : PollTable) (events : Nat → Revents) : PollTable :=
  { table with pollFds := fun index =>
      if index < table.pollCurfds then
        { table.pollFds index with
          revents := if 0 ≤ table.fd index then events index else .quiet }
      else table.pollFds index }

/-- How many connections there are in the entries from one to another. -/
def connections (table : PollTable) (first last : Nat) : Nat :=
  Nat.count (fun offset => 0 ≤ table.fd (first + offset)) (last - first)

end PollTable

namespace Server

/-- The loop of `accept`. -/
def acceptAll (server : Server) (accepts : List Accept) : Server :=
  accepts.foldl (fun server accept => (server.sesCreateNewSession accept).2) server

/-- An entry with a descriptor, and whether it was handed to `poll_events_handler`. -/
def handleEntry (server : Server) (index : Nat) (io : Io) : Except Fault (Server × List Nat) :=
  if (server.table.pollFds index).revents.Noticed then do
    let handling ← server.pollEventsHandler index io
    return (handling.server, [index])
  else .ok (server, [])

/-- The loop over the entries, with so many to go; `nready` is counted down for every entry with
a descriptor. -/
def visit (io : Nat → Io) : Nat → Nat → Nat → Server → Except Fault (Server × List Nat)
  | 0, _, _, server => .ok (server, [])
  | left + 1, index, nready, server =>
    if server.table.fd index < 0 then visit io left (index + 1) nready server
    else do
      let (server, handled) ← server.handleEntry index (io index)
      if nready - 1 = 0 then return (server, handled)
      else
        let (server, rest) ← visit io left (index + 1) (nready - 1) server
        return (server, handled ++ rest)

/-- A turn, with the entries that were handed to `poll_events_handler`. -/
def pollProcessRun (server : Server) (events : Nat → Revents) (accepts : List Accept)
    (io : Nat → Io) : Except Fault (Server × List Nat) :=
  let nready := (server.table.ready events).card
  let server := { server with table := server.table.poll events }
  if nready < 1 then .ok (server, [])
  else if (server.table.pollFds 0).revents.pollin then
    let server := server.acceptAll accepts
    if nready - 1 = 0 then .ok (server, [])
    else visit io (server.table.pollCurfds - 1) 1 (nready - 1) server
  else visit io (server.table.pollCurfds - 1) 1 nready server

end Server

section Visit

variable {table other : PollTable} {index place : Nat}

theorem PollTable.connections_self (table : PollTable) (index : Nat) :
    table.connections index index = 0 := by
  rw [connections, Nat.sub_self, Nat.count_zero]

theorem PollTable.connections_later (hlt : index < place) :
    table.connections index place =
      table.connections (index + 1) place + if 0 ≤ table.fd index then 1 else 0 := by
  obtain ⟨offset, rfl⟩ := Nat.exists_eq_add_of_lt hlt
  rw [connections, connections, show index + offset + 1 - index = offset + 1 by omega,
    show index + offset + 1 - (index + 1) = offset by omega, Nat.count_succ']
  simp only [Nat.add_zero, Nat.add_assoc, Nat.add_comm 1]

theorem PollTable.SameBut.connections (hsame : SameBut (· ≠ index) table other) (place : Nat) :
    other.connections (index + 1) place = table.connections (index + 1) place := by
  have hfds : ∀ offset, other.fd (index + 1 + offset) = table.fd (index + 1 + offset) :=
    fun offset => hsame.fd _ (by omega)
  simp only [PollTable.connections, hfds]

theorem Server.handleEntry_ok {server after : Server} {io : Io} {handled : List Nat}
    (hentry : server.handleEntry index io = .ok (after, handled)) :
    PollTable.SameBut (· ≠ index) server.table after.table ∧
      handled = if (server.table.pollFds index).revents.Noticed then [index] else [] := by
  rw [handleEntry] at hentry
  split_ifs at hentry ⊢ with hnoticed
  · obtain ⟨handling, hhandler, hentry⟩ := bind_eq_ok.mp hentry
    cases hentry
    exact ⟨pollEventsHandler_sameBut hhandler, rfl⟩
  · cases hentry
    exact ⟨.refl _, rfl⟩

theorem Server.visit_connection {io : Nat → Io} {left nready : Nat} {server after : Server}
    {handled : List Nat} (hlive : 0 ≤ server.table.fd index)
    (hvisit : visit io (left + 1) index nready server = .ok (after, handled)) :
    ∃ middle : Server, PollTable.SameBut (· ≠ index) server.table middle.table ∧ ∃ rest,
      handled = (if (server.table.pollFds index).revents.Noticed then [index] else []) ++ rest ∧
      (nready - 1 = 0 ∧ rest = [] ∨
        nready - 1 ≠ 0 ∧ visit io left (index + 1) (nready - 1) middle = .ok (after, rest)) := by
  rw [visit, if_neg (by omega)] at hvisit
  obtain ⟨⟨middle, first⟩, hentry, hvisit⟩ := bind_eq_ok.mp hvisit
  obtain ⟨hsame, rfl⟩ := handleEntry_ok hentry
  refine ⟨middle, hsame, ?_⟩
  by_cases hlast : nready - 1 = 0
  · simp_all
  · dsimp only at hvisit
    rw [if_neg hlast] at hvisit
    obtain ⟨⟨last, rest⟩, hrest, hvisit⟩ := bind_eq_ok.mp hvisit
    cases hvisit
    exact ⟨rest, rfl, .inr ⟨hlast, hrest⟩⟩

theorem Server.mem_visit {io : Nat → Io} {left nready : Nat} {server after : Server}
    {handled : List Nat} (hready : 1 ≤ nready)
    (hvisit : visit io left index nready server = .ok (after, handled)) (place : Nat) :
    place ∈ handled ↔
      index ≤ place ∧ place < index + left ∧ 0 ≤ server.table.fd place ∧
        (server.table.pollFds place).revents.Noticed ∧
        server.table.connections index place < nready := by
  induction left generalizing index nready server after handled with
  | zero =>
    cases hvisit
    refine iff_of_false (by simp) ?_
    rintro ⟨hle, hlt, -⟩
    omega
  | succ left ih =>
    by_cases hfree : server.table.fd index < 0
    · rw [visit, if_pos hfree] at hvisit
      rw [ih hready hvisit]
      rcases Nat.lt_trichotomy place index with hlt | rfl | hgt
      · omega
      · refine iff_of_false (by omega) ?_
        rintro ⟨-, -, hlive, -⟩
        omega
      · rw [PollTable.connections_later hgt, if_neg (by omega)]
        grind
    · have hlive : 0 ≤ server.table.fd index := by omega
      obtain ⟨middle, hsame, rest, rfl, hrest⟩ := visit_connection hlive hvisit
      have hrest_gt : place ∈ rest → index < place := by
        intro hmem
        rcases hrest with ⟨-, rfl⟩ | ⟨hmore, hrest⟩
        · cases hmem
        · exact ((ih (by omega) hrest).mp hmem).1
      rcases Nat.lt_trichotomy place index with hlt | rfl | hgt
      · have hnot : place ∉ rest := fun hmem => absurd (hrest_gt hmem) (by omega)
        split_ifs <;> simp [hnot] <;> omega
      · have hnot : place ∉ rest := fun hmem => absurd (hrest_gt hmem) (by omega)
        rw [PollTable.connections_self]
        grind
      · have hfirst : place ∉ (if (server.table.pollFds index).revents.Noticed then [index]
            else []) := by
          split_ifs <;> simp [hgt.ne']
        rw [List.mem_append, or_iff_right hfirst, PollTable.connections_later hgt, if_pos hlive]
        rcases hrest with ⟨hlast, rfl⟩ | ⟨hmore, hrest⟩
        · grind
        · rw [ih (by omega) hrest, hsame.fd place hgt.ne', hsame.revents place,
            hsame.connections place]
          grind

end Visit

section Accept

/-- Entries were taken, but none that had a descriptor. -/
structure PollTable.Extends (before after : PollTable) : Prop where
  fd : ∀ index, 0 ≤ before.fd index → after.fd index = before.fd index
  revents : ∀ index, (after.pollFds index).revents = (before.pollFds index).revents
  curfds : before.pollCurfds ≤ after.pollCurfds

variable {table : PollTable}

theorem PollTable.Extends.refl (table : PollTable) : Extends table table :=
  ⟨fun _ _ => rfl, fun _ => rfl, Nat.le_refl _⟩

theorem PollTable.Extends.trans {other last : PollTable} (hfirst : Extends table other)
    (hsecond : Extends other last) : Extends table last where
  fd index hlive := by
    have hother := hfirst.fd index hlive
    exact (hsecond.fd index (hother ▸ hlive)).trans hother
  revents index := (hsecond.revents index).trans (hfirst.revents index)
  curfds := hfirst.curfds.trans hsecond.curfds

theorem PollTable.extends_pollAdd (table : PollTable) (fd : Int) :
    Extends table (table.pollAdd fd).2 := by
  have hcurfds : table.pollCurfds ≤
      if table.search = table.pollCurfds then table.pollCurfds + 1 else table.pollCurfds := by
    split_ifs <;> omega
  by_cases hroom : table.Full
  · rw [pollAdd_of_full hroom]
    exact ⟨fun _ _ => rfl, fun _ => rfl, hcurfds⟩
  · rw [pollAdd_of_room hroom]
    have hfree : table.fd table.search < 0 := by
      grind [search_cases]
    refine ⟨fun index hlive => ?_, fun index => ?_, hcurfds⟩
    · have hother : index ≠ table.search := by
        rintro rfl
        omega
      simp [PollTable.fd, setEntry, hother]
    · by_cases hsame : index = table.search
      · simp [setEntry, hsame]
      · simp [setEntry, hsame]

theorem Server.extends_sesCreateNewSession (server : Server) (accept : Accept) :
    PollTable.Extends server.table (server.sesCreateNewSession accept).2.table := by
  cases hblock : accept.block with
  | none =>
    rw [sesCreateNewSession, hblock]
    exact .refl _
  | some addr =>
    rw [sesCreateNewSession_some hblock]
    dsimp only
    split_ifs <;> exact PollTable.extends_pollAdd _ _

theorem Server.extends_acceptAll (server : Server) (accepts : List Accept) :
    PollTable.Extends server.table (server.acceptAll accepts).table := by
  induction accepts generalizing server with
  | nil => exact .refl _
  | cons accept accepts ih => exact (server.extends_sesCreateNewSession accept).trans (ih _)

end Accept

section Turn

namespace Server

variable {server : Server} {events : Nat → Revents} {accepts : List Accept}

/-- What `poll` leaves. -/
def polled (server : Server) (events : Nat → Revents) : Server :=
  { server with table := server.table.poll events }

/-- New connections are there. -/
def listens (server : Server) (events : Nat → Revents) : Bool :=
  ((server.polled events).table.pollFds 0).revents.pollin

/-- The server in front of the loop over the entries. -/
def atLoop (server : Server) (events : Nat → Revents) (accepts : List Accept) : Server :=
  if server.listens events then (server.polled events).acceptAll accepts
  else server.polled events

/-- The value of `nready` in front of that loop. -/
def toVisit (server : Server) (events : Nat → Revents) : Nat :=
  if server.listens events then (server.table.ready events).card - 1
  else (server.table.ready events).card

/-- An entry behind the listener that `poll` reports. -/
def Waiting (server : Server) (events : Nat → Revents) (index : Nat) : Prop :=
  1 ≤ index ∧ index ∈ server.table.ready events

theorem mem_ready {index : Nat} :
    index ∈ server.table.ready events ↔
      index < server.table.pollCurfds ∧ 0 ≤ server.table.fd index ∧ events index ≠ .quiet := by
  simp [PollTable.ready]

theorem polled_revents {index : Nat} (hindex : index ∈ server.table.ready events) :
    ((server.polled events).table.pollFds index).revents = events index := by
  obtain ⟨hlt, hlive, -⟩ := mem_ready.mp hindex
  simp [polled, PollTable.poll, hlt, hlive]

theorem polled_fd (index : Nat) :
    (server.polled events).table.fd index = server.table.fd index := by
  simp only [polled, PollTable.poll, PollTable.fd]
  split_ifs <;> rfl

theorem zero_mem_ready (hcurfds : 0 < server.table.pollCurfds)
    (hlistens : server.listens events = true) : 0 ∈ server.table.ready events := by
  simp only [listens, polled, PollTable.poll, if_pos hcurfds] at hlistens
  split_ifs at hlistens with hlive
  · refine mem_ready.mpr ⟨hcurfds, hlive, ?_⟩
    intro hquiet
    rw [hquiet] at hlistens
    exact absurd hlistens (by decide)
  · exact absurd hlistens (by decide)

theorem Waiting.toVisit_pos {index : Nat} (hwaiting : server.Waiting events index) :
    1 ≤ server.toVisit events := by
  obtain ⟨hpos, hindex⟩ := hwaiting
  rw [toVisit]
  split_ifs with hlistens
  · have hzero := zero_mem_ready ((Nat.zero_le _).trans_lt (mem_ready.mp hindex).1) hlistens
    have htwo : 1 < (server.table.ready events).card :=
      Finset.one_lt_card.mpr ⟨0, hzero, index, hindex, by omega⟩
    omega
  · exact Finset.card_pos.mpr ⟨index, hindex⟩

theorem extends_atLoop :
    PollTable.Extends (server.polled events).table (server.atLoop events accepts).table := by
  rw [atLoop]
  split_ifs
  · exact extends_acceptAll _ accepts
  · exact .refl _

theorem pollProcessRun_eq_visit (io : Nat → Io) (hvisit : 1 ≤ server.toVisit events) :
    server.pollProcessRun events accepts io =
      visit io ((server.atLoop events accepts).table.pollCurfds - 1) 1 (server.toVisit events)
        (server.atLoop events accepts) := by
  have hready : ¬(server.table.ready events).card < 1 := by
    rw [toVisit] at hvisit
    split_ifs at hvisit <;> omega
  rw [pollProcessRun]
  dsimp only
  rw [if_neg hready]
  change (if server.listens events = true then _ else _) = _
  split_ifs with hlistens hlast
  · rw [toVisit, if_pos hlistens] at hvisit
    exact absurd hlast (by omega)
  · rw [atLoop, toVisit, if_pos hlistens, if_pos hlistens]
    rfl
  · rw [atLoop, toVisit, if_neg hlistens, if_neg hlistens]
    rfl

theorem Waiting.mem_handled_iff {index : Nat} (hwaiting : server.Waiting events index)
    {io : Nat → Io} {after : Server} {handled : List Nat}
    (hrun : server.pollProcessRun events accepts io = .ok (after, handled)) :
    index ∈ handled ↔ (events index).Noticed ∧
      (server.atLoop events accepts).table.connections 1 index < server.toVisit events := by
  have hpos := hwaiting.toVisit_pos
  obtain ⟨hle, hindex⟩ := hwaiting
  obtain ⟨hlt, hlive, -⟩ := mem_ready.mp hindex
  have hextends := @extends_atLoop server events accepts
  have hpolled : 0 ≤ (server.polled events).table.fd index := by
    rw [polled_fd]
    exact hlive
  have hcurfds : index < 1 + ((server.atLoop events accepts).table.pollCurfds - 1) := by
    have hgrown : server.table.pollCurfds ≤
        (server.atLoop events accepts).table.pollCurfds := hextends.curfds
    omega
  rw [pollProcessRun_eq_visit io hpos] at hrun
  rw [mem_visit hpos hrun, hextends.fd index hpolled, hextends.revents index,
    polled_revents hindex]
  simp only [hle, hcurfds, hpolled, true_and]

end Server

end Turn

/-- A turn of the loop hands every entry that waits to `poll_events_handler` just when each of
them has POLLIN, POLLERR or POLLOUT and the connections before it, idle ones and those that were
just let in included, are fewer than the reported entries. -/
theorem pollProcessRun_handles_iff (server : Server) (events : Nat → Revents)
    (accepts : List Accept) (io : Nat → Io) (after : Server) (handled : List Nat)
    (hrun : server.pollProcessRun events accepts io = .ok (after, handled)) :
    (∀ index, server.Waiting events index → index ∈ handled) ↔
      ∀ index, server.Waiting events index → (events index).Noticed ∧
        (server.atLoop events accepts).table.connections 1 index < server.toVisit events := by
  constructor
  · intro hall index hwaiting
    exact (hwaiting.mem_handled_iff hrun).mp (hall index hwaiting)
  · intro hall index hwaiting
    exact (hwaiting.mem_handled_iff hrun).mpr (hall index hwaiting)

namespace LoopWitness

open Server

theorem size_fits : 8 < 2 ^ 31 := by decide

/-- A server with two connections. -/
def twoClients : Server :=
  (Server.start 4 8 size_fits).acceptAll [⟨5, some 100, true⟩, ⟨6, some 101, true⟩]

def io (_ : Nat) : Io :=
  ⟨1, [], [], Sample.memory, .loadFailed, Sample.date⟩

/-- One entry has an error. -/
def failing (place index : Nat) : Revents :=
  if index = place then ⟨false, false, true, false⟩ else .quiet

theorem waiting_failing {place index : Nat}
    (hwaiting : twoClients.Waiting (failing place) index) : index = place := by
  by_contra hother
  have hquiet := (mem_ready.mp hwaiting.2).2.2
  exact hquiet (if_neg hother)

theorem handles_first : ∃ after handled,
    twoClients.pollProcessRun (failing 1) [] io = .ok (after, handled) ∧
      ∀ index, twoClients.Waiting (failing 1) index → index ∈ handled := by
  refine ⟨_, [1], rfl, ?_⟩
  refine (pollProcessRun_handles_iff twoClients (failing 1) [] io _ [1] rfl).mpr ?_
  intro index hwaiting
  cases waiting_failing hwaiting
  decide

/-- An idle connection stands before the one that has an event. -/
theorem second_starves : ∃ after handled,
    twoClients.pollProcessRun (failing 2) [] io = .ok (after, handled) ∧
      twoClients.Waiting (failing 2) 2 ∧ 2 ∉ handled := by
  refine ⟨_, [], rfl, ⟨by decide, ?_⟩, by decide⟩
  exact mem_ready.mpr (by decide)

end LoopWitness

end Http

end WaterWall
