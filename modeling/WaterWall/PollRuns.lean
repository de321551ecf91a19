/-
Whole runs of the event loop: what becomes of the descriptors that `accept` returns, and
which of them `recv` is called on.  The kernel is only asked not to return a descriptor
that is still open.
-/
import WaterWall.PollLoop

namespace WaterWall

open List

universe u

/-- How often a descriptor has been returned by `accept`. -/
def opened (log : List FdCall) (fd : Int) : Nat := log.count (.accept fd)

def closed (log : List FdCall) (fd : Int) : Nat := log.count (.close fd)

section Log

variable {log : List FdCall} {fd other : Int}

theorem opened_append (more : List FdCall) :
    opened (log ++ more) fd = opened log fd + opened more fd := count_append

theorem closed_append (more : List FdCall) :
    closed (log ++ more) fd = closed log fd + closed more fd := count_append

theorem opened_accept : opened [.accept other] fd = if other = fd then 1 else 0 := by
  simp [opened, count_singleton]

theorem closed_accept : closed [.accept other] fd = 0 := by
  simp [closed]

theorem opened_close : opened [.close other] fd = 0 := by
  simp [opened]

theorem closed_close : closed [.close other] fd = if other = fd then 1 else 0 := by
  simp [closed, count_singleton]

end Log

namespace ConnTable

variable {R : Type u}

theorem opened_reads (table : ConnTable R) (index : Nat) (fd : Int) :
    opened (table.reads index) fd = 0 := by
  rw [reads]
  split_ifs <;> simp [opened]

theorem closed_reads (table : ConnTable R) (index : Nat) (fd : Int) :
    closed (table.reads index) fd = 0 := by
  rw [reads]
  split_ifs <;> simp [closed]

/-- The descriptors of the table are open. -/
structure Running (listener : Int) (table : ConnTable R) (log : List FdCall) : Prop where
  sound : Sound listener table
  tracked : ∀ index, table.Live index →
    closed log (table.fd index) < opened log (table.fd index)

/-- A connection of the table with its record. -/
def Stored (table : ConnTable R) (fd : Int) : Prop :=
  ∃ index, table.Live index ∧ table.fd index = fd ∧ (table.anSocketTFindByIndex index).isSome

/-- Every descriptor that `accept` returned has been closed once, or it is stored. -/
def Accounted (table : ConnTable R) (log : List FdCall) : Prop :=
  ∀ fd, (opened log fd = closed log fd ∧ ¬table.Stored fd) ∨
    (opened log fd = closed log fd + 1 ∧ table.Stored fd)

/-- The kernel returns a descriptor that is not open. -/
structure Unopened (listener : Int) (log : List FdCall) (fd : Int) : Prop where
  notListener : fd ≠ listener
  allClosed : opened log fd = closed log fd

section Bookkeeping

variable {listener : Int} {table next : ConnTable R} {log : List FdCall} {index : Nat} {fd : Int}
  {round : PollRound R}

theorem Running.fresh (hrunning : Running listener table log) (hfd : 0 ≤ fd)
    (hunopened : Unopened listener log fd) : table.Fresh fd := by
  refine ⟨hfd, ?_⟩
  rintro other hother rfl
  rcases Nat.eq_zero_or_pos other with rfl | hpos
  · exact hunopened.notListener hrunning.sound.listens
  · have := hrunning.tracked other ⟨⟨hpos, hother⟩, hfd⟩
    have := hunopened.allClosed
    omega

theorem Running.sameConns (hrunning : Running listener table log)
    (hsame : SameConns table next) : Running listener next log := by
  refine ⟨hsame.sound hrunning.sound, ?_⟩
  intro index hlive
  rw [hsame.fd]
  exact hrunning.tracked index ((hsame.live index).mp hlive)

theorem Running.destroy (hrunning : Running listener table log) (hlive : table.Live index) :
    Running listener (table.anSockDestory index) (log ++ [.close (table.fd index)]) := by
  have hsound := hrunning.sound
  refine ⟨hsound.anSockDestory hlive, ?_⟩
  intro other hother
  rw [hsound.live_anSockDestory hlive] at hother
  have hne : table.fd index ≠ table.fd other := fun hsame =>
    hother.2 (hsound.distinct index other hlive hother.1.1.2 hsame.symm)
  have htracked := hrunning.tracked other hother.1
  rw [hsound.fd_anSockDestory hlive, if_neg hother.2, opened_append, closed_append, opened_close,
    closed_close, if_neg hne]
  omega

theorem Running.reads (hrunning : Running listener table log) (index : Nat)
    (other : ConnTable R) : Running listener table (log ++ other.reads index) := by
  refine ⟨hrunning.sound, ?_⟩
  intro index hlive
  rw [opened_append, closed_append, opened_reads, closed_reads]
  exact hrunning.tracked index hlive

theorem Running.anTcpEventsDo (hrunning : Running listener table log)
    (hlive : table.Live index) :
    Running listener (table.anTcpEventsDo round index).table
      (log ++ (table.anTcpEventsDo round index).calls) := by
  obtain ⟨next, hkept, ⟨_, hdone⟩ | hdone⟩ := anTcpEventsDo_cases table round index
  · rw [hdone]
    exact (hrunning.reads index table).sameConns hkept.toSameConns
  · simp only [hdone]
    rw [← append_assoc, ← hkept.fd]
    exact ((hrunning.reads index table).sameConns hkept.toSameConns).destroy
      ((hkept.live index).mpr hlive)

theorem live_anSockPollAdd (hfd : 0 ≤ fd) {created : Option R}
    (hlive : (table.anSockPollAdd fd created).2.Live index) :
    (table.anSockPollAdd fd created).2.fd index = fd ∨
      (table.Live index ∧ (table.anSockPollAdd fd created).2.fd index = table.fd index) := by
  rcases anSockPollAdd_cases table fd created with
    ⟨_, hadd⟩ | ⟨target, hfree, hadd⟩
  · rw [hadd] at hlive ⊢
    exact .inr ⟨hlive, rfl⟩
  · have htaken : (table.anSockPollAdd fd created).2.fd index =
        (table.occupy target fd).fd index := by
      rcases hadd with ⟨_, hadd⟩ | ⟨rcv, _, hadd⟩
      · rw [hadd]
      · rw [hadd]
        rfl
    rw [Live, htaken, ← Live, live_occupy (firstFree_spec hfree).1 hfd] at hlive
    rw [htaken, fd_occupy]
    grind

theorem Running.accept (hrunning : Running listener table log) (hfd : 0 ≤ fd)
    (hunopened : Unopened listener log fd) (created : Option R) :
    Running listener (table.anSockPollAdd fd created).2 (log ++ [.accept fd]) := by
  have hfresh := hrunning.fresh hfd hunopened
  refine ⟨hrunning.sound.anSockPollAdd hfresh, ?_⟩
  intro index hindex
  rw [opened_append, closed_append, opened_accept, closed_accept]
  rcases live_anSockPollAdd hfd hindex with hnew | ⟨hlive, hold⟩
  · have := hunopened.allClosed
    rw [hnew, if_pos rfl]
    omega
  · have := hrunning.tracked index hlive
    rw [hold]
    omega

theorem SameConns.stored (hsame : SameConns table next) (fd : Int) :
    next.Stored fd ↔ table.Stored fd := by
  apply exists_congr
  intro index
  rw [hsame.live, hsame.fd]
  apply and_congr_right
  intro hlive
  rw [find_eq_record hlive.1.2, find_eq_record hlive.1.2, hsame.present]

theorem Sound.stored_destroy (hsound : Sound listener table) (hlive : table.Live index) :
    (table.anSockDestory index).Stored fd ↔ table.Stored fd ∧ fd ≠ table.fd index := by
  constructor
  · rintro ⟨other, hother, hfd, hsome⟩
    have hold := (hsound.live_anSockDestory hlive other).mp hother
    rw [hsound.fd_anSockDestory hlive, if_neg hold.2] at hfd
    rw [find_eq_record hold.1.1.2, hsound.record_anSockDestory hlive, if_neg hold.2,
      ← find_eq_record hold.1.1.2] at hsome
    refine ⟨⟨other, hold.1, hfd, hsome⟩, ?_⟩
    rintro rfl
    exact hold.2 (hsound.distinct index other hlive hold.1.1.2 hfd)
  · rintro ⟨⟨other, hother, hfd, hsome⟩, hne⟩
    have hindex : other ≠ index := by
      rintro rfl
      exact hne hfd.symm
    refine ⟨other, (hsound.live_anSockDestory hlive other).mpr ⟨hother, hindex⟩, ?_, ?_⟩
    · rw [hsound.fd_anSockDestory hlive, if_neg hindex, hfd]
    · rwa [find_eq_record hother.1.2, hsound.record_anSockDestory hlive, if_neg hindex,
        ← find_eq_record hother.1.2]

theorem Sound.stored_occupy (hsound : Sound listener table)
    (hfree : table.firstFree = some index) {new : Int} (hnew : 0 ≤ new) :
    (table.occupy index new).Stored fd ↔ table.Stored fd := by
  obtain ⟨hslot, hneg, -⟩ := firstFree_spec hfree
  have hnone : table.anSocketTFindByIndex index = none := by
    rw [find_eq_record hslot.2, hsound.record_of_free hneg]
  apply exists_congr
  intro other
  rw [live_occupy hslot hnew, fd_occupy]
  change (_ ∧ _ ∧ (table.anSocketTFindByIndex other).isSome) ↔ _
  split_ifs with hother
  · simp [hother, hnone]
  · simp [hother]

theorem stored_enter (hlive : table.Live index) (sock : AnSocket R) :
    (table.enter index sock).Stored fd ↔ fd = table.fd index ∨ table.Stored fd := by
  constructor
  · rintro ⟨other, hother, hfd, hsome⟩
    rcases eq_or_ne other index with rfl | hindex
    · exact .inl hfd.symm
    · refine .inr ⟨other, hother, hfd, ?_⟩
      rwa [find_eq_record hother.1.2, record_enter, if_neg hindex,
        ← find_eq_record hother.1.2] at hsome
  · rintro (rfl | ⟨other, hother, hfd, hsome⟩)
    · refine ⟨index, hlive, rfl, ?_⟩
      rw [find_eq_record hlive.1.2, record_enter, if_pos rfl]
      rfl
    · refine ⟨other, hother, hfd, ?_⟩
      rw [find_eq_record hother.1.2, record_enter]
      rw [find_eq_record hother.1.2] at hsome
      split_ifs
      · rfl
      · exact hsome

/-- No descriptor has been lost. -/
structure Settled (listener : Int) (table : ConnTable R) (log : List FdCall) : Prop where
  sound : Sound listener table
  served : Served table
  accounted : Accounted table log

theorem Settled.stored (hsettled : Settled listener table log) (hlive : table.Live index) :
    table.Stored (table.fd index) := by
  refine ⟨index, hlive, rfl, ?_⟩
  rw [find_eq_record hlive.1.2]
  exact hsettled.served index hlive

theorem Settled.running (hsettled : Settled listener table log) :
    Running listener table log := by
  refine ⟨hsettled.sound, ?_⟩
  intro index hlive
  rcases hsettled.accounted (table.fd index) with ⟨_, hnot⟩ | ⟨heq, _⟩
  · exact absurd (hsettled.stored hlive) hnot
  · omega

theorem Settled.sameConns (hsettled : Settled listener table log)
    (hsame : SameConns table next) : Settled listener next log := by
  refine ⟨hsame.sound hsettled.sound, hsame.served hsettled.served, ?_⟩
  intro fd
  rw [hsame.stored]
  exact hsettled.accounted fd

theorem Settled.reads (hsettled : Settled listener table log) (index : Nat)
    (other : ConnTable R) : Settled listener table (log ++ other.reads index) := by
  refine ⟨hsettled.sound, hsettled.served, ?_⟩
  intro fd
  rw [opened_append, closed_append, opened_reads, closed_reads]
  exact hsettled.accounted fd

theorem Settled.destroy (hsettled : Settled listener table log) (hlive : table.Live index) :
    Settled listener (table.anSockDestory index) (log ++ [.close (table.fd index)]) := by
  have hsound := hsettled.sound
  refine ⟨hsound.anSockDestory hlive, hsettled.served.anSockDestory hsound hlive, ?_⟩
  intro fd
  rw [opened_append, closed_append, opened_close, closed_close, hsound.stored_destroy hlive]
  rcases eq_or_ne (table.fd index) fd with rfl | hne
  · rcases hsettled.accounted (table.fd index) with ⟨_, hnot⟩ | ⟨heq, _⟩
    · exact absurd (hsettled.stored hlive) hnot
    · exact .inl ⟨by simpa using heq, fun hstored => hstored.2 rfl⟩
  · rw [if_neg hne]
    simpa [hne.symm] using hsettled.accounted fd

theorem Settled.anTcpEventsDo (hsettled : Settled listener table log)
    (hlive : table.Live index) :
    Settled listener (table.anTcpEventsDo round index).table
      (log ++ (table.anTcpEventsDo round index).calls) := by
  obtain ⟨next, hkept, ⟨_, hdone⟩ | hdone⟩ := anTcpEventsDo_cases table round index
  · rw [hdone]
    exact (hsettled.reads index table).sameConns hkept.toSameConns
  · simp only [hdone]
    rw [← append_assoc, ← hkept.fd]
    exact ((hsettled.reads index table).sameConns hkept.toSameConns).destroy
      ((hkept.live index).mpr hlive)

theorem Settled.not_stored (hsettled : Settled listener table log)
    (hunopened : Unopened listener log fd) : ¬table.Stored fd := by
  have := hunopened.allClosed
  rcases hsettled.accounted fd with ⟨_, hnot⟩ | ⟨heq, _⟩
  · exact hnot
  · omega

theorem Settled.accept (hsettled : Settled listener table log) (hfd : 0 ≤ fd)
    (hunopened : Unopened listener log fd) (hfree : table.firstFree = some index) (rcv : R) :
    Settled listener (table.anSockPollAdd fd (some rcv)).2 (log ++ [.accept fd]) := by
  have hfresh := hsettled.running.fresh hfd hunopened
  obtain ⟨hslot, -, -⟩ := firstFree_spec hfree
  refine ⟨hsettled.sound.anSockPollAdd hfresh, hsettled.served.anSockPollAdd hfresh rcv, ?_⟩
  intro other
  have hlive : (table.occupy index fd).Live index := (live_occupy hslot hfd index).mpr (.inl rfl)
  have hstored : (table.anSockPollAdd fd (some rcv)).2.Stored other ↔
      other = fd ∨ table.Stored other := by
    rw [ConnTable.anSockPollAdd, hfree]
    simp only
    rw [stored_enter hlive, fd_occupy, if_pos rfl, hsettled.sound.stored_occupy hfree hfd]
  rw [hstored, opened_append, closed_append, opened_accept, closed_accept]
  rcases eq_or_ne fd other with rfl | hne
  · have := hunopened.allClosed
    exact .inr ⟨by rw [if_pos rfl]; omega, .inl rfl⟩
  · rw [if_neg hne]
    simpa [hne.symm] using hsettled.accounted other

theorem Settled.leak (hsettled : Settled listener table log) (hfd : 0 ≤ fd)
    (hunopened : Unopened listener log fd) {created : Option R}
    (hfail : (table.anSockPollAdd fd created).1 ≠ 0) :
    ¬Accounted (table.anSockPollAdd fd created).2 (log ++ [.accept fd]) := by
  intro haccounted
  have hnot : ¬(table.anSockPollAdd fd created).2.Stored fd := by
    have hold := hsettled.not_stored hunopened
    rcases anSockPollAdd_cases table fd created with
      ⟨_, hadd⟩ | ⟨index, hfree, ⟨_, hadd⟩ | ⟨rcv, _, hadd⟩⟩
    · rwa [hadd]
    · rw [hadd]
      rwa [hsettled.sound.stored_occupy hfree hfd]
    · simp [hadd] at hfail
  have hclosed := hunopened.allClosed
  rcases haccounted fd with ⟨heq, _⟩ | ⟨_, hstored⟩
  · rw [opened_append, closed_append, opened_accept, closed_accept, if_pos rfl] at heq
    omega
  · exact hnot hstored

end Bookkeeping

/-- A call of `an_poll` gets a new descriptor from `accept`. -/
def Accepts (table : ConnTable R) (round : PollRound R) : Prop :=
  1 ≤ round.nready ∧ ((table.polled round).revents 0).pollin = true ∧ 0 ≤ round.accepted

/-- The `poll` of a call reports data on a descriptor. -/
def Reported (table : ConnTable R) (round : PollRound R) (fd : Int) : Prop :=
  ∃ index < table.anCurfds, table.fd index = fd ∧ 0 ≤ fd ∧
    (round.reported index).pollin = true

section Calls

variable {listener : Int} {table : ConnTable R} {log : List FdCall} {round : PollRound R}

theorem anSockPollAdd_eq_zero_iff (table : ConnTable R) (fd : Int) (created : Option R) :
    (table.anSockPollAdd fd created).1 = 0 ↔
      table.firstFree.isSome ∧ created.isSome := by
  grind [anSockPollAdd_cases]

@[simp]
theorem firstFree_polled (table : ConnTable R) (round : PollRound R) :
    (table.polled round).firstFree = table.firstFree := by
  simp only [firstFree, (sameConns_polled table round).fd]

/-- A call without a new client serves the entries or does nothing; a client that cannot be
added ends the call. -/
theorem anPoll_cases (table : ConnTable R) (round : PollRound R) :
    (¬table.Accepts round ∧
        ((∃ next, SameConns table next ∧ table.anPoll round = ⟨0, next, []⟩) ∨
          table.anPoll round = serve round (table.polled round))) ∨
      (table.Accepts round ∧
        let added := (table.polled round).anSockPollAdd round.accepted round.created
        (¬(table.firstFree.isSome ∧ round.created.isSome) ∧
            table.anPoll round = ⟨0, added.2, [.accept round.accepted]⟩) ∨
          (table.firstFree.isSome ∧ round.created.isSome) ∧
            table.anPoll round =
              { serve round added.2 with
                calls := .accept round.accepted :: (serve round added.2).calls }) := by
  by_cases hready : round.nready < 1
  · left
    refine ⟨fun haccepts => by have := haccepts.1; omega, .inl ?_⟩
    by_cases hfail : round.nready < 0
    · exact ⟨table, .refl table, by simp [anPoll, hready, hfail]⟩
    · exact ⟨_, sameConns_polled table round, by simp [anPoll, hready, hfail]⟩
  · cases hlisten : ((table.polled round).revents 0).pollin with
    | false =>
      grind [anPoll, Accepts.eq_1]
    | true =>
      by_cases hneg : round.accepted < 0
      · refine .inl ⟨fun haccepts => ?_, .inr (by simp [anPoll, hready, hlisten, hneg])⟩
        have := haccepts.2.2
        omega
      · right
        refine ⟨⟨by omega, hlisten, by omega⟩, ?_⟩
        have hret := anSockPollAdd_eq_zero_iff (table.polled round) round.accepted
          round.created
        rw [firstFree_polled] at hret
        grind [anPoll]

theorem Running.serve (hrunning : Running listener table log) (round : PollRound R) :
    Running listener (serve round table).table (log ++ (serve round table).calls) :=
  dispatch_induct (fun _ _ hstate => hstate.sound)
    (fun _ _ _ hstate hlive => hstate.anTcpEventsDo hlive) _ 1 le_rfl (by decide) hrunning

theorem Settled.serve (hsettled : Settled listener table log) (round : PollRound R) :
    Settled listener (serve round table).table (log ++ (serve round table).calls) :=
  dispatch_induct (fun _ _ hstate => hstate.sound)
    (fun _ _ _ hstate hlive => hstate.anTcpEventsDo hlive) _ 1 le_rfl (by decide) hsettled

theorem Running.anPoll (hrunning : Running listener table log)
    (hkernel : table.Accepts round → Unopened listener log round.accepted) :
    Running listener (table.anPoll round).table (log ++ (table.anPoll round).calls) := by
  have hpolled := hrunning.sameConns (sameConns_polled table round)
  rcases anPoll_cases table round with
    ⟨_, ⟨next, hsame, hdone⟩ | hdone⟩ | ⟨haccepts, ⟨_, hdone⟩ | ⟨_, hdone⟩⟩
  · rw [hdone, append_nil]
    exact hrunning.sameConns hsame
  · rw [hdone]
    exact hpolled.serve round
  · rw [hdone]
    exact hpolled.accept haccepts.2.2 (hkernel haccepts) _
  · have hserved := (hpolled.accept haccepts.2.2 (hkernel haccepts) round.created).serve round
    rw [hdone]
    rwa [append_assoc] at hserved

theorem Settled.anPoll (hsettled : Settled listener table log)
    (hkernel : table.Accepts round → Unopened listener log round.accepted)
    (hfits : table.Accepts round → table.firstFree.isSome ∧ round.created.isSome) :
    Settled listener (table.anPoll round).table (log ++ (table.anPoll round).calls) := by
  have hpolled := hsettled.sameConns (sameConns_polled table round)
  rcases anPoll_cases table round with
    ⟨_, ⟨next, hsame, hdone⟩ | hdone⟩ | ⟨haccepts, ⟨hnot, _⟩ | ⟨hboth, hdone⟩⟩
  · rw [hdone, append_nil]
    exact hsettled.sameConns hsame
  · rw [hdone]
    exact hpolled.serve round
  · exact absurd (hfits haccepts) hnot
  · obtain ⟨index, hfree⟩ := Option.isSome_iff_exists.mp hboth.1
    obtain ⟨rcv, hcreated⟩ := Option.isSome_iff_exists.mp hboth.2
    rw [← firstFree_polled table round] at hfree
    have hserved := (hpolled.accept haccepts.2.2 (hkernel haccepts) hfree rcv).serve round
    rw [hdone, hcreated]
    rwa [append_assoc] at hserved

theorem Settled.anPoll_leak (hsettled : Settled listener table log)
    (hkernel : table.Accepts round → Unopened listener log round.accepted)
    (haccepts : table.Accepts round)
    (hfits : ¬(table.firstFree.isSome ∧ round.created.isSome)) :
    ¬Accounted (table.anPoll round).table (log ++ (table.anPoll round).calls) := by
  have hpolled := hsettled.sameConns (sameConns_polled table round)
  rcases anPoll_cases table round with ⟨hnot, _⟩ | ⟨_, ⟨_, hdone⟩ | ⟨hboth, _⟩⟩
  · exact absurd haccepts hnot
  · rw [hdone]
    apply hpolled.leak haccepts.2.2 (hkernel haccepts)
    rw [Ne, anSockPollAdd_eq_zero_iff, firstFree_polled]
    exact hfits
  · exact absurd hboth hfits

theorem revents_polled {index : Nat} (hindex : index < table.anCurfds)
    (hfd : 0 ≤ table.fd index) : (table.polled round).revents index = round.reported index := by
  simp [revents, polled, hindex, not_lt.mpr hfd]

theorem Sound.reported_of_reads (hsound : Sound listener table) {index : Nat}
    (hlive : (table.polled round).Live index) (hreads : (table.polled round).Reads index) :
    table.Reported round ((table.polled round).fd index) := by
  have hsame := sameConns_polled table round
  rw [hsame.live] at hlive
  have hlt := hsound.live_lt hlive
  refine ⟨index, hlt, (hsame.fd index).symm, ?_, ?_⟩
  · rw [hsame.fd]
    exact hlive.2
  · rw [← revents_polled hlt hlive.2]
    exact hreads.2.2.1

/-- The table with a new client in an entry. -/
def withClient (table : ConnTable R) (index : Nat) (fd : Int) (rcv : R) : ConnTable R :=
  (table.occupy index fd).enter index (newSocket rcv)

theorem reads_withClient_self {index : Nat} {fd : Int} {rcv : R} (hslot : Slot index) :
    (table.withClient index fd rcv).Reads index := by
  have hrevents : (table.withClient index fd rcv).revents index = ⟨false, false, true⟩ := by
    simp [revents, withClient, enter, occupy]
  rw [Reads, hrevents, find_eq_record hslot.2, withClient, record_enter, if_pos rfl]
  simp

theorem frame_withClient {index : Nat} {fd : Int} {rcv : R} :
    Frame index table (table.withClient index fd rcv) where
  fd other hother := by
    change (table.occupy index fd).fd other = _
    rw [fd_occupy, if_neg hother]
  revents other hother := by
    simp [revents, withClient, enter, occupy, Function.update_of_ne hother]
  present other hother := by
    rw [withClient, record_enter, if_neg hother]
    rfl

theorem anSockPollAdd_some {index : Nat} {fd : Int} {rcv : R}
    (hfree : table.firstFree = some index) :
    table.anSockPollAdd fd (some rcv) = (0, table.withClient index fd rcv) := by
  rw [anSockPollAdd, hfree]
  rfl

theorem Sound.withClient {index : Nat} {fd : Int} {rcv : R} (hsound : Sound listener table)
    (hfresh : table.Fresh fd) (hfree : table.firstFree = some index) :
    Sound listener (table.withClient index fd rcv) := by
  have hadded : Sound listener (table.anSockPollAdd fd (some rcv)).2 :=
    hsound.anSockPollAdd hfresh
  rwa [anSockPollAdd_some hfree] at hadded

theorem recv_mem_serve {fd : Int} (hsound : Sound listener table) :
    .recv fd ∈ (serve round table).calls ↔ table.ReadFirst 1 anPollMax fd :=
  recv_mem_dispatch hsound (anPollMax - 1) 1 le_rfl le_rfl

/-- After a client got its entry, `recv` is called on it unless an error of an earlier entry
ends the process. -/
theorem recv_withClient_iff {index : Nat} {fd : Int} {rcv : R} (hsound : Sound listener table)
    (hfresh : table.Fresh fd) (hfree : table.firstFree = some index) :
    .recv fd ∈ (serve round (table.withClient index fd rcv)).calls ↔
      ∀ other < index, ¬table.Fatal other := by
  have hslot := (firstFree_spec hfree).1
  have hframe : Frame index table (table.withClient index fd rcv) := frame_withClient
  have hfd : (table.withClient index fd rcv).fd index = fd := by
    change (table.occupy index fd).fd index = fd
    rw [fd_occupy, if_pos rfl]
  rw [recv_mem_serve (hsound.withClient hfresh hfree)]
  constructor
  · rintro ⟨target, _, hmax, _, hsame, _, hbefore⟩ other hother hfatal
    have htarget : target = index := by
      by_contra hne
      rw [(hframe.entry hne).2.1] at hsame
      exact hfresh.unused target hmax hsame
    subst htarget
    exact hbefore other hfatal.1.1.1 hother ((hframe.entry (by omega)).2.2.2.mpr hfatal)
  · intro hnone
    refine ⟨index, hslot.1, hslot.2, ⟨hslot, ?_⟩, hfd, reads_withClient_self hslot, ?_⟩
    · rw [hfd]
      exact hfresh.valid
    · intro other _ hother hfatal
      exact hnone other hother ((hframe.entry (by omega)).2.2.2.mp hfatal)

theorem recv_withClient_other {index : Nat} {fd another : Int} {rcv : R}
    (hsound : Sound listener table) (hfresh : table.Fresh fd)
    (hfree : table.firstFree = some index) (hne : another ≠ fd)
    (hrecv : .recv another ∈ (serve round (table.withClient index fd rcv)).calls) :
    ∃ other, table.Live other ∧ table.fd other = another ∧ table.Reads other := by
  have hframe : Frame index table (table.withClient index fd rcv) := frame_withClient
  rw [recv_mem_serve (hsound.withClient hfresh hfree)] at hrecv
  obtain ⟨target, _, _, hlive, hsame, hreads, _⟩ := hrecv
  have htarget : target ≠ index := by
    rintro rfl
    apply hne
    rw [← hsame]
    change (table.occupy target fd).fd target = fd
    rw [fd_occupy, if_pos rfl]
  obtain ⟨h1, h2, h3, -⟩ := hframe.entry htarget
  exact ⟨target, h1.mp hlive, h2.symm.trans hsame, h3.mp hreads⟩

/-- A call of `an_poll` reads only what its `poll` reported, unless it adds a client and
gets to its entry. -/
theorem Running.recvReported_iff (hrunning : Running listener table log)
    (hkernel : table.Accepts round → Unopened listener log round.accepted) :
    (∀ fd, .recv fd ∈ (table.anPoll round).calls → table.Reported round fd) ↔
      (table.Accepts round → round.created.isSome → ∀ index, table.firstFree = some index →
        ∃ other < index, table.Live other ∧ (round.reported other).pollerr = true) := by
  have hsame := sameConns_polled table round
  have hsound := hsame.sound hrunning.sound
  have hreported : ∀ index, (table.polled round).Live index → (table.polled round).Reads index →
      table.Reported round ((table.polled round).fd index) :=
    fun index => hrunning.sound.reported_of_reads
  rcases anPoll_cases table round with
    ⟨hnot, ⟨next, _, hdone⟩ | hdone⟩ | ⟨haccepts, ⟨hfits, hdone⟩ | ⟨hfits, hdone⟩⟩
  · simp [hdone, hnot]
  · simp only [hdone, hnot, false_implies, iff_true]
    intro fd hrecv
    rw [recv_mem_serve hsound] at hrecv
    obtain ⟨target, _, _, hlive, hfd, hreads, _⟩ := hrecv
    rw [← hfd]
    exact hreported target hlive hreads
  · grind
  · obtain ⟨index, hfree⟩ := Option.isSome_iff_exists.mp hfits.1
    obtain ⟨rcv, hcreated⟩ := Option.isSome_iff_exists.mp hfits.2
    have hfresh := (hrunning.sameConns hsame).fresh haccepts.2.2 (hkernel haccepts)
    have hfree' := hfree
    rw [← firstFree_polled table round] at hfree'
    have hcalls : ∀ fd, .recv fd ∈ (table.anPoll round).calls ↔ .recv fd ∈ (ConnTable.serve round
        ((table.polled round).withClient index round.accepted rcv)).calls := by
      intro fd
      rw [hdone, hcreated, anSockPollAdd_some hfree']
      simp
    have hfatal : ∀ other, (table.polled round).Fatal other ↔
        table.Live other ∧ (round.reported other).pollerr = true := by
      intro other
      rw [Fatal, hsame.live]
      apply and_congr_right
      intro hlive
      rw [revents_polled (hrunning.sound.live_lt hlive) hlive.2]
    have hiff : .recv round.accepted ∈ (ConnTable.serve round
        ((table.polled round).withClient index round.accepted rcv)).calls ↔ _ :=
      recv_withClient_iff hsound hfresh hfree'
    constructor
    · rintro hall - - found hfound
      obtain rfl : index = found := Option.some.inj (hfree.symm.trans hfound)
      by_contra hnone
      have hrecv := hiff.mpr fun other hother hbad =>
        hnone ⟨other, hother, (hfatal other).mp hbad⟩
      obtain ⟨old, hold, hfd, _⟩ := hall _ ((hcalls _).mpr hrecv)
      apply hfresh.unused old (hold.trans_le hrunning.sound.bounded)
      rw [hsame.fd, hfd]
    · intro hexit fd hrecv
      rw [hcalls] at hrecv
      rcases eq_or_ne fd round.accepted with rfl | hne
      · grind
      grind [recv_withClient_other]

end Calls

end ConnTable

/-- The event loop between two calls of `an_poll`, with all calls so far. -/
structure PollState (R : Type u) where
  table : ConnTable R
  log : List FdCall
  exited : Bool

namespace PollState

variable {R : Type u}

def start (listener : Int) : PollState R := ⟨.anPollInit listener, [], false⟩

def next (state : PollState R) (round : PollRound R) : PollState R :=
  if state.exited then state
  else
    let done := state.table.anPoll round
    ⟨done.table, state.log ++ done.calls, done.ret ≠ 0⟩

def run (state : PollState R) (rounds : List (PollRound R)) : PollState R :=
  rounds.foldl next state

/-- A property of the state before each call of `an_poll` and the answers to that call. -/
def EachCall (P : PollState R → PollRound R → Prop) (state : PollState R)
    (rounds : List (PollRound R)) : Prop :=
  ∀ front round, front ++ [round] <+: rounds → (state.run front).exited = false →
    P (state.run front) round

/-- The kernel never returns a descriptor from `accept` that is still open. -/
def Honest (listener : Int) (state : PollState R) (round : PollRound R) : Prop :=
  state.table.Accepts round → ConnTable.Unopened listener state.log round.accepted

/-- Every new client finds a free entry and memory for its record. -/
def Fits (state : PollState R) (round : PollRound R) : Prop :=
  state.table.Accepts round → state.table.firstFree.isSome ∧ round.created.isSome

/-- After every call, each descriptor from `accept` is stored or closed. -/
def NoLeak (state : PollState R) (rounds : List (PollRound R)) : Prop :=
  ∀ front, front <+: rounds →
    ConnTable.Accounted (state.run front).table (state.run front).log

/-- A call reads only from descriptors on which its `poll` reported data. -/
def ReadsReported (state : PollState R) (round : PollRound R) : Prop :=
  ∀ fd, .recv fd ∈ (state.table.anPoll round).calls → state.table.Reported round fd

/-- Whenever a client is added, an error of an entry before its own ends the process. -/
def ExitsFirst (state : PollState R) (round : PollRound R) : Prop :=
  state.table.Accepts round → round.created.isSome →
    ∀ index, state.table.firstFree = some index →
      ∃ other < index, state.table.Live other ∧ (round.reported other).pollerr = true

section Runs

variable {listener : Int} {state : PollState R} {round : PollRound R}
  {rounds : List (PollRound R)} {P : PollState R → PollRound R → Prop}

theorem eachCall_nil : EachCall P state [] := by
  intro front round hfront
  simp at hfront

theorem eachCall_cons : EachCall P state (round :: rounds) ↔
    (state.exited = false → P state round) ∧ EachCall P (state.next round) rounds := by
  constructor
  · intro hall
    refine ⟨fun hexited => hall [] round (by simp) hexited, ?_⟩
    intro front later hfront
    exact hall (round :: front) later (by simpa using hfront)
  · rintro ⟨hfirst, hrest⟩ front later hfront hexited
    cases front with
    | nil =>
      obtain rfl : later = round := by simpa using hfront
      exact hfirst hexited
    | cons head front =>
      rw [cons_append, cons_prefix_cons] at hfront
      obtain ⟨rfl, hfront⟩ := hfront
      exact hrest front later hfront hexited

theorem noLeak_cons : NoLeak state (round :: rounds) ↔
    ConnTable.Accounted state.table state.log ∧ NoLeak (state.next round) rounds := by
  constructor
  · intro hall
    refine ⟨hall [] nil_prefix, ?_⟩
    intro front hfront
    exact hall (round :: front) (by simpa using hfront)
  · rintro ⟨hfirst, hrest⟩ front hfront
    cases front with
    | nil => exact hfirst
    | cons head front =>
      rw [cons_prefix_cons] at hfront
      obtain ⟨rfl, hfront⟩ := hfront
      exact hrest front hfront

theorem next_of_exited (hexited : state.exited = true) : state.next round = state := by
  rw [next, if_pos hexited]

theorem next_eq (hexited : state.exited = false) :
    (state.next round).table = (state.table.anPoll round).table ∧
      (state.next round).log = state.log ++ (state.table.anPoll round).calls := by
  simp [next, hexited]

theorem running_next (hrunning : ConnTable.Running listener state.table state.log)
    (hkernel : state.exited = false → Honest listener state round) :
    ConnTable.Running listener (state.next round).table (state.next round).log := by
  cases hexited : state.exited with
  | true => rwa [next_of_exited hexited]
  | false =>
    rw [(next_eq hexited).1, (next_eq hexited).2]
    exact hrunning.anPoll (hkernel hexited)

theorem settled_next (hsettled : ConnTable.Settled listener state.table state.log)
    (hkernel : state.exited = false → Honest listener state round)
    (hfits : state.exited = false → Fits state round) :
    ConnTable.Settled listener (state.next round).table (state.next round).log := by
  cases hexited : state.exited with
  | true => rwa [next_of_exited hexited]
  | false =>
    rw [(next_eq hexited).1, (next_eq hexited).2]
    exact hsettled.anPoll (hkernel hexited) (hfits hexited)

theorem fits_of_accounted (hsettled : ConnTable.Settled listener state.table state.log)
    (hkernel : state.exited = false → Honest listener state round)
    (haccounted : ConnTable.Accounted (state.next round).table (state.next round).log)
    (hexited : state.exited = false) : Fits state round := by
  intro haccepts
  by_contra hnot
  rw [(next_eq hexited).1, (next_eq hexited).2] at haccounted
  exact hsettled.anPoll_leak (hkernel hexited) haccepts hnot haccounted

theorem noLeak_iff (hsettled : ConnTable.Settled listener state.table state.log)
    (hkernel : EachCall (Honest listener) state rounds) :
    NoLeak state rounds ↔ EachCall Fits state rounds := by
  induction rounds generalizing state with
  | nil =>
    refine iff_of_true ?_ eachCall_nil
    intro front hfront
    obtain rfl : front = [] := by simpa using hfront
    exact hsettled.accounted
  | cons round rounds ih =>
    rw [eachCall_cons] at hkernel
    rw [eachCall_cons, noLeak_cons]
    constructor
    · rintro ⟨_, hrest⟩
      have hfits : state.exited = false → Fits state round :=
        fits_of_accounted hsettled hkernel.1 (hrest [] nil_prefix)
      exact ⟨hfits, (ih (settled_next hsettled hkernel.1 hfits) hkernel.2).mp hrest⟩
    grind [ConnTable.Settled.accounted, settled_next]

theorem readsReported_iff (hrunning : ConnTable.Running listener state.table state.log)
    (hkernel : EachCall (Honest listener) state rounds) :
    EachCall ReadsReported state rounds ↔ EachCall ExitsFirst state rounds := by
  induction rounds generalizing state with
  | nil => exact iff_of_true eachCall_nil eachCall_nil
  | cons round rounds ih =>
    rw [eachCall_cons] at hkernel
    rw [eachCall_cons, eachCall_cons, ih (running_next hrunning hkernel.1) hkernel.2]
    apply and_congr_left
    intro _
    apply forall_congr'
    intro hexited
    exact hrunning.recvReported_iff (hkernel.1 hexited)

theorem running_run (hrunning : ConnTable.Running listener state.table state.log)
    (hkernel : EachCall (Honest listener) state rounds) :
    ConnTable.Running listener (state.run rounds).table (state.run rounds).log := by
  induction rounds generalizing state with
  | nil => exact hrunning
  | cons round rounds ih =>
    rw [eachCall_cons] at hkernel
    exact ih (running_next hrunning hkernel.1) hkernel.2

theorem settled_start :
    ConnTable.Settled listener (start listener : PollState R).table [] where
  sound := ConnTable.sound_anPollInit
  served := ConnTable.served_anPollInit
  accounted fd := by
    refine .inl ⟨rfl, ?_⟩
    rintro ⟨index, _, _, hsome⟩
    simp [start, ConnTable.anSocketTFindByIndex, ConnTable.record, ConnTable.anPollInit] at hsome

end Runs

end PollState

/-- No accepted descriptor is lost exactly if every client finds a free entry and memory. -/
theorem anPoll_noLeak_iff {R : Type u} (listener : Int) (rounds : List (PollRound R))
    (hkernel : PollState.EachCall (PollState.Honest listener) (.start listener) rounds) :
    PollState.NoLeak (.start listener) rounds ↔
      PollState.EachCall PollState.Fits (.start listener) rounds :=
  PollState.noLeak_iff PollState.settled_start hkernel

/-- Calls of `recv` are covered by `poll` exactly if the process always ends before it gets
to the entry of a client that it just added. -/
theorem anPoll_readsReported_iff {R : Type u} (listener : Int) (rounds : List (PollRound R))
    (hkernel : PollState.EachCall (PollState.Honest listener) (.start listener) rounds) :
    PollState.EachCall PollState.ReadsReported (.start listener) rounds ↔
      PollState.EachCall PollState.ExitsFirst (.start listener) rounds :=
  PollState.readsReported_iff PollState.settled_start.running hkernel

/-- Whatever was lost before, after any run the entries of the table have descriptors that are
still open, and no two of them the same one. -/
theorem anPoll_neverStale {R : Type u} (listener : Int) (rounds : List (PollRound R))
    (hkernel : PollState.EachCall (PollState.Honest listener) (.start listener) rounds)
    (index : Nat) (hlive : ((PollState.start listener).run rounds).table.Live index) :
    let state := (PollState.start listener).run rounds
    closed state.log (state.table.fd index) < opened state.log (state.table.fd index) ∧
      ∀ other, state.table.Live other → state.table.fd other = state.table.fd index →
        other = index := by
  have hrunning := PollState.running_run PollState.settled_start.running hkernel
  refine ⟨hrunning.tracked index hlive, fun other hother hsame => ?_⟩
  exact hrunning.sound.distinct index other hlive hother.1.2 hsame

namespace PollLoopWitness

open PollState

/-- The listener reports a client, which may get a record; entry 1 may report an error. -/
def client (fd : Int) (created : Option Unit) (pollerr : Bool) : PollRound Unit where
  nready := 1
  reported index :=
    if index = 0 then ⟨false, false, true⟩ else ⟨pollerr && index == 1, false, false⟩
  accepted := fd
  created := created
  sends _ := .failed .eagain
  received _ sock := (0, sock)

theorem honest_client (created : Option Unit) (rounds : List (PollRound Unit))
    (hrounds : EachCall (Honest 3) ((start 3).next (client 5 created false)) rounds) :
    EachCall (Honest 3) (start 3) (client 5 created false :: rounds) := by
  rw [eachCall_cons]
  refine ⟨fun _ _ => ⟨?_, rfl⟩, hrounds⟩
  change (5 : Int) ≠ 3
  decide

theorem accepts_client (created : Option Unit) :
    (start 3 : PollState Unit).table.Accepts (client 5 created false) :=
  ⟨le_refl (1 : Int), rfl, (by decide : (0 : Int) ≤ 5)⟩

/-- One client that finds room. -/
theorem noLeak_client :
    EachCall (Honest 3) (start 3) [client 5 (some ()) false] ∧
      NoLeak (start 3) [client 5 (some ()) false] := by
  have hkernel := honest_client (some ()) [] eachCall_nil
  refine ⟨hkernel, (anPoll_noLeak_iff 3 _ hkernel).mpr ?_⟩
  rw [eachCall_cons]
  exact ⟨fun _ _ => ⟨by decide, by decide⟩, eachCall_nil⟩

theorem neverStale_client : ((start 3).run [client 5 (some ()) false]).table.Live 1 ∧
    closed ((start 3).run [client 5 (some ()) false]).log 5 <
      opened ((start 3).run [client 5 (some ()) false]).log 5 := by
  have hlive : ((start 3).run [client 5 (some ()) false]).table.Live 1 := by decide +kernel
  exact ⟨hlive, (anPoll_neverStale 3 _ (honest_client (some ()) [] eachCall_nil) 1 hlive).1⟩

/-- Without memory for the record the descriptor stays open, and no record leads to it. -/
theorem leak_noMemory :
    EachCall (Honest 3) (start 3) [client 5 none false] ∧
      ((start 3).run [client 5 none false]).log = [.accept 5] ∧
      ¬NoLeak (start 3) [client 5 none false] := by
  have hkernel := honest_client none [] eachCall_nil
  refine ⟨hkernel, by decide +kernel, ?_⟩
  intro hnoLeak
  have hfits := (PollState.noLeak_iff settled_start hkernel).mp hnoLeak
  rw [eachCall_cons] at hfits
  exact absurd (hfits.1 rfl (accepts_client none)).2 (by decide)

/-- The client's descriptor is read at once, though `poll` did not know it. -/
theorem not_readsReported_client :
    EachCall (Honest 3) (start 3) [client 5 (some ()) false] ∧
      ((start 3).run [client 5 (some ()) false]).log = [.accept 5, .recv 5] ∧
      ¬EachCall ReadsReported (start 3) [client 5 (some ()) false] := by
  have hkernel := honest_client (some ()) [] eachCall_nil
  refine ⟨hkernel, by decide +kernel, ?_⟩
  intro hreads
  have hexits := (PollState.readsReported_iff settled_start.running hkernel).mp hreads
  rw [eachCall_cons] at hexits
  obtain ⟨other, hother, ⟨⟨hpos, _⟩, _⟩, _⟩ :=
    hexits.1 rfl (accepts_client (some ())) rfl 1 (by decide +kernel)
  omega

/-- The first client gets no record, and its error ends the process when the second one
comes. -/
def crash : List (PollRound Unit) := [client 5 none false, client 6 (some ()) true]

theorem readsReported_crash :
    EachCall (Honest 3) (start 3) crash ∧ EachCall ReadsReported (start 3) crash := by
  have hkernel : EachCall (Honest 3) (start 3) crash := by
    apply honest_client
    rw [eachCall_cons]
    exact ⟨fun _ _ => ⟨by decide, by decide +kernel⟩, eachCall_nil⟩
  refine ⟨hkernel, (anPoll_readsReported_iff 3 crash hkernel).mpr ?_⟩
  rw [crash, eachCall_cons, eachCall_cons]
  refine ⟨fun _ _ hcreated => (nomatch hcreated), ?_, eachCall_nil⟩
  intro _ _ _ index hfree
  have hsecond : ((start 3).next (client 5 none false)).table.firstFree = some 2 := by
    decide +kernel
  obtain rfl : 2 = index := Option.some.inj (hsecond.symm.trans hfree)
  exact ⟨1, by decide, by decide +kernel, rfl⟩

end PollLoopWitness

end WaterWall
