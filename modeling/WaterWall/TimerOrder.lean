/-
What the lists of the wheel keep, whatever `jiffies` does: a timer is in one list and once, the
order inside a list survives every operation, and `jhl_timer_num` counts the insertions that were
not undone, among them the second ones that a cascade makes.
-/
import WaterWall.TimerExactness

namespace WaterWall

open List Function Option

namespace Base

/-- A timer is in the list that its entry names, once. -/
structure Linked (base : Base) : Prop where
  nodup : ∀ place, (base.lists place).Nodup
  member : ∀ place timer, timer ∈ base.lists place ↔ base.entry timer = some place

section Cascades

variable (base : Base) (timers : List TimerId)

@[simp]
theorem expires_foldl : (timers.foldl internalAddTimer base).expires = base.expires := by
  induction timers generalizing base with
  | nil => rfl
  | cons timer timers ih => exact ih (base.internalAddTimer timer)

theorem jhlTimerNum_foldl :
    (timers.foldl internalAddTimer base).jhlTimerNum = base.jhlTimerNum + timers.length := by
  induction timers generalizing base with
  | nil => simp
  | cons timer timers ih =>
    rw [foldl_cons, ih, length_cons]
    change base.jhlTimerNum + 1 + _ = _
    push_cast
    ring

theorem lists_foldl (place : Place) :
    (timers.foldl internalAddTimer base).lists place = base.lists place ++
      timers.filter fun timer => vec base.timerJiffies (base.expires timer) = place := by
  induction timers generalizing base with
  | nil => simp
  | cons timer timers ih =>
    rw [foldl_cons, ih]
    change Function.update base.lists (vec base.timerJiffies (base.expires timer)) _ place ++
      timers.filter (fun other => vec base.timerJiffies (base.expires other) = place) = _
    by_cases hplace : vec base.timerJiffies (base.expires timer) = place
    · subst hplace
      simp
    · rw [update_of_ne (Ne.symm hplace), filter_cons_of_neg (by simpa using hplace)]

theorem entry_foldl (other : TimerId) :
    (timers.foldl internalAddTimer base).entry other =
      if other ∈ timers then some (vec base.timerJiffies (base.expires other))
      else base.entry other := by
  induction timers generalizing base with
  | nil => simp
  | cons timer timers ih =>
    rw [foldl_cons, ih]
    change (if other ∈ timers then some (vec base.timerJiffies (base.expires other))
      else Function.update base.entry timer _ other) = _
    by_cases hsame : other = timer
    · subst hsame
      simp
    · simp [hsame]

variable (level : Level) (index : Nat)

theorem lists_cascade (place : Place) :
    (base.cascade level index).lists place =
      (if place = .slot level index then [] else base.lists place) ++
        (base.lists (.slot level index)).filter fun timer =>
          vec base.timerJiffies (base.expires timer) = place := by
  rw [cascade, lists_foldl, lists_listInit]
  rfl

theorem entry_cascade (other : TimerId) :
    (base.cascade level index).entry other =
      if other ∈ base.lists (.slot level index) then
        some (vec base.timerJiffies (base.expires other))
      else base.entry other := by
  rw [cascade, entry_foldl]
  rfl

@[simp]
theorem expires_cascade : (base.cascade level index).expires = base.expires := by
  rw [cascade, expires_foldl]
  rfl

theorem jhlTimerNum_cascade :
    (base.cascade level index).jhlTimerNum =
      base.jhlTimerNum + (base.lists (.slot level index)).length := by
  rw [cascade, jhlTimerNum_foldl]
  rfl

@[simp]
theorem expires_cascadeFrom (levels : List Level) :
    (base.cascadeFrom levels).expires = base.expires := by
  induction levels generalizing base with
  | nil => rfl
  | cons level levels ih =>
    rw [cascadeFrom]
    split
    · rw [ih, expires_cascade]
    · rw [expires_cascade]

/-- The base behind the cascades of a tick. -/
def cascaded : Base :=
  if Level.tv1.index base.timerJiffies = 0 then base.cascadeFrom [.tv2, .tv3, .tv4, .tv5]
  else base

theorem beginTick_eq :
    base.beginTick = base.cascaded.advance.listReplaceInit
      (.slot .tv1 (Level.tv1.index base.timerJiffies)) .workList :=
  rfl

theorem workList_cascaded : base.cascaded.lists .workList = base.lists .workList := by
  rw [cascaded]
  split
  · exact workList_cascadeFrom base _
  · rfl

@[simp]
theorem expires_cascaded : base.cascaded.expires = base.expires := by
  rw [cascaded]
  split
  · exact expires_cascadeFrom base _
  · rfl

end Cascades

namespace Linked

variable {base : Base} {timer : TimerId}

theorem setExpires (hlinked : base.Linked) (timer : TimerId) (expires : UInt64) :
    (base.setExpires timer expires).Linked :=
  ⟨hlinked.nodup, hlinked.member⟩

theorem internalAddTimer (hlinked : base.Linked) (hidle : base.entry timer = none) :
    (base.internalAddTimer timer).Linked := by
  have hnew : ∀ place, timer ∉ base.lists place := by
    intro place hmem
    rw [hlinked.member, hidle] at hmem
    cases hmem
  constructor
  · intro place
    change (Function.update base.lists _ _ place).Nodup
    rw [update_apply]
    split
    · refine (hlinked.nodup _).append (nodup_singleton timer) ?_
      simpa using hnew _
    · exact hlinked.nodup place
  · intro place other
    change other ∈ (base.listAddTail timer _).lists place ↔
      (base.listAddTail timer _).entry other = some place
    rw [mem_listAddTail, entry_listAddTail, hlinked.member]
    grind

theorem detachTimer (hlinked : base.Linked) (timer : TimerId) : (base.detachTimer timer).Linked := by
  cases hentry : base.entry timer with
  | none =>
    have hsame : base.listDel timer = base := by
      rw [listDel, hentry]
    constructor
    · intro place
      change ((base.listDel timer).lists place).Nodup
      rw [hsame]
      exact hlinked.nodup place
    · intro place other
      change other ∈ (base.listDel timer).lists place ↔ (base.listDel timer).entry other = _
      rw [hsame]
      exact hlinked.member place other
  | some target =>
    constructor
    · intro place
      rw [lists_detachTimer hentry]
      split
      · exact (hlinked.nodup target).erase timer
      · exact hlinked.nodup place
    · intro place other
      rw [lists_detachTimer hentry, entry_detachTimer]
      by_cases hplace : place = target
      · subst hplace
        rw [if_pos rfl, (hlinked.nodup place).mem_erase_iff, hlinked.member]
        by_cases hsame : other = timer <;> simp [hsame]
      · rw [if_neg hplace, hlinked.member]
        grind

theorem modTimerAlways (hlinked : base.Linked) (timer : TimerId) (expires : UInt64) :
    (base.modTimerAlways timer expires).Linked := by
  rw [Base.modTimerAlways]
  by_cases hpending : base.timerPending timer
  · rw [if_pos hpending]
    refine ((hlinked.detachTimer timer).setExpires timer expires).internalAddTimer ?_
    change (base.detachTimer timer).entry timer = none
    rw [entry_detachTimer, if_pos rfl]
  · rw [if_neg hpending]
    refine (hlinked.setExpires timer expires).internalAddTimer ?_
    exact not_isSome_iff_eq_none.mp hpending

theorem cascade (hlinked : base.Linked) (level : Level) (index : Nat) :
    (base.cascade level index).Linked := by
  have hother {place : Place} {other : TimerId} (hplace : place ≠ .slot level index)
      (hmem : other ∈ base.lists place) : other ∉ base.lists (.slot level index) := by
    rw [hlinked.member] at hmem ⊢
    rw [hmem, Option.some.injEq]
    exact hplace
  constructor
  · intro place
    rw [lists_cascade]
    split
    · exact (hlinked.nodup _).filter _
    · rename_i hplace
      refine (hlinked.nodup place).append ((hlinked.nodup _).filter _) ?_
      intro other hmem hmoved
      exact hother hplace hmem (mem_of_mem_filter hmoved)
  · intro place other
    rw [lists_cascade, entry_cascade, mem_append, mem_filter, decide_eq_true_eq]
    by_cases hmoved : other ∈ base.lists (.slot level index)
    · rw [if_pos hmoved, Option.some.injEq]
      grind
    · rw [if_neg hmoved, ← hlinked.member]
      grind

theorem cascadeFrom (hlinked : base.Linked) (levels : List Level) :
    (base.cascadeFrom levels).Linked := by
  induction levels generalizing base with
  | nil => exact hlinked
  | cons level levels ih =>
    rw [Base.cascadeFrom]
    split
    · exact ih (hlinked.cascade level _)
    · exact hlinked.cascade level _

theorem listReplaceInit (hlinked : base.Linked) {level : Level} {index : Nat}
    (hwork : base.lists .workList = []) :
    (base.listReplaceInit (.slot level index) .workList).Linked := by
  have hidle (other : TimerId) : base.entry other ≠ some .workList := by
    rw [ne_eq, ← hlinked.member, hwork]
    exact not_mem_nil
  constructor
  · intro place
    simp only [Base.listReplaceInit, update_apply]
    split_ifs
    · exact nodup_nil
    · exact hlinked.nodup _
    · exact hlinked.nodup place
  · intro place other
    simp only [Base.listReplaceInit, update_apply]
    by_cases hold : place = .slot level index
    · grind
    · rw [if_neg hold]
      by_cases hnew : place = .workList
      · simp_all [member]
      · rw [if_neg hnew, hlinked.member]
        grind

theorem advance (hlinked : base.Linked) : base.advance.Linked :=
  ⟨hlinked.nodup, hlinked.member⟩

theorem cascaded (hlinked : base.Linked) : base.cascaded.Linked := by
  rw [Base.cascaded]
  split
  · exact hlinked.cascadeFrom _
  · exact hlinked

theorem beginTick (hlinked : base.Linked) (hwork : base.lists .workList = []) :
    base.beginTick.Linked := by
  rw [beginTick_eq]
  refine hlinked.cascaded.advance.listReplaceInit ?_
  change base.cascaded.lists .workList = []
  rw [workList_cascaded, hwork]

theorem timerPending_cascade (hlinked : base.Linked) (level : Level) (index : Nat)
    (other : TimerId) : (base.cascade level index).timerPending other = base.timerPending other := by
  rw [timerPending, timerPending, entry_cascade]
  split
  · rename_i hmoved
    rw [(hlinked.member _ _).mp hmoved]
    rfl
  · rfl

theorem timerPending_cascadeFrom (hlinked : base.Linked) (levels : List Level)
    (other : TimerId) : (base.cascadeFrom levels).timerPending other = base.timerPending other := by
  induction levels generalizing base with
  | nil => rfl
  | cons level levels ih =>
    have hfirst := hlinked.timerPending_cascade level (level.index base.timerJiffies) other
    rw [Base.cascadeFrom]
    split
    · rw [ih (hlinked.cascade level _), hfirst]
    · exact hfirst

theorem timerPending_beginTick (hlinked : base.Linked) (other : TimerId) :
    base.beginTick.timerPending other = base.timerPending other := by
  have hcascaded : base.cascaded.timerPending other = base.timerPending other := by
    rw [Base.cascaded]
    split
    · exact hlinked.timerPending_cascadeFrom _ other
    · rfl
  rw [← hcascaded, beginTick_eq]
  change (if base.cascaded.entry other = some (.slot .tv1 (Level.tv1.index base.timerJiffies))
    then some Place.workList else base.cascaded.entry other).isSome =
    (base.cascaded.entry other).isSome
  by_cases hslot : base.cascaded.entry other =
      some (.slot .tv1 (Level.tv1.index base.timerJiffies)) <;> simp [hslot]

end Linked

/-- How many timers the cascades of the given levels move. -/
def cascadeMoves (base : Base) : List Level → Nat
  | [] => 0
  | level :: levels =>
    let index := level.index base.timerJiffies
    (base.lists (.slot level index)).length +
      if index = 0 then (base.cascade level index).cascadeMoves levels else 0

def tickMoves (base : Base) : Nat :=
  if Level.tv1.index base.timerJiffies = 0 then base.cascadeMoves [.tv2, .tv3, .tv4, .tv5] else 0

theorem jhlTimerNum_cascadeFrom (base : Base) (levels : List Level) :
    (base.cascadeFrom levels).jhlTimerNum =
      base.jhlTimerNum + base.cascadeMoves levels := by
  induction levels generalizing base with
  | nil => exact (Int.add_zero _).symm
  | cons level levels ih =>
    have hfirst := base.jhlTimerNum_cascade level (level.index base.timerJiffies)
    rw [cascadeFrom, cascadeMoves]
    split
    · rw [ih, hfirst, Nat.cast_add, ← Int.add_assoc]
    · exact hfirst

theorem jhlTimerNum_beginTick (base : Base) :
    base.beginTick.jhlTimerNum = base.jhlTimerNum + base.tickMoves := by
  change base.cascaded.jhlTimerNum = _
  rw [cascaded, tickMoves]
  split
  · exact base.jhlTimerNum_cascadeFrom _
  · exact (Int.add_zero _).symm

end Base

/-- How many timers an event moves from one level to another. -/
def movesBy (system : System) : Event → Nat
  | .read jiffies =>
    if timeAfterEq (UInt64.ofNat jiffies) system.base.timerJiffies then system.base.tickMoves
    else 0
  | _ => 0

section Steps

variable {system next : System} {event : Event}

theorem wheelStep_cases (hstep : step system event = some next) :
    (next.base = system.base ∧ next.fired = system.fired ∧ movesBy system event = 0) ∨
    (∃ timer expires, (event = .add timer expires ∨ event = .mod timer expires) ∧
      next.base = system.base.modTimerAlways timer expires ∧ next.fired = system.fired) ∨
    (∃ timer, event = .del timer ∧ system.base.timerPending timer ∧
      next.base = system.base.detachTimer timer ∧ next.fired = system.fired) ∨
    (∃ jiffies, event = .read jiffies ∧ system.base.lists .workList = [] ∧
      timeAfterEq (UInt64.ofNat jiffies) system.base.timerJiffies ∧
      next.base = system.base.beginTick ∧ next.fired = system.fired) ∨
    (∃ timer rest, event = .fire ∧ system.base.lists .workList = timer :: rest ∧
      next.base = system.base.detachTimer timer ∧
      next.fired = system.fired ++ [(timer, system.tick - 1)]) := by
  cases event with
  | add timer expires =>
    obtain rfl := call_eq_some hstep
    exact .inr (.inl ⟨timer, expires, .inl rfl, addTimer_setExpires _ _ _, rfl⟩)
  | mod timer expires =>
    obtain rfl := call_eq_some hstep
    by_cases hsame : system.base.expires timer = expires ∧ system.base.timerPending timer
    · exact .inl ⟨if_pos hsame, rfl, rfl⟩
    · exact .inr (.inl ⟨timer, expires, .inr rfl, if_neg hsame, rfl⟩)
  | del timer =>
    obtain rfl := call_eq_some hstep
    by_cases hpending : system.base.timerPending timer
    · grind [Base.delTimer]
    · refine .inl ⟨?_, rfl, rfl⟩
      simp [Base.delTimer, hpending]
  | enter =>
    rw [step] at hstep
    split at hstep
    · cases hstep
      exact .inl ⟨rfl, rfl, rfl⟩
    · cases hstep
  | read jiffies =>
    obtain ⟨-, hwork, -⟩ := read_enabled hstep
    rw [step] at hstep
    split at hstep
    · split at hstep
      · grind
      · rename_i hdue
        cases hstep
        exact .inl ⟨rfl, rfl, if_neg hdue⟩
    · cases hstep
  | fire =>
    rw [step] at hstep
    grind

theorem step_linked (hlinked : system.base.Linked) (hstep : step system event = some next) :
    next.base.Linked := by
  obtain ⟨hbase, -⟩ | ⟨timer, expires, -, hbase, -⟩ | ⟨timer, -, -, hbase, -⟩ |
    ⟨jiffies, -, hwork, -, hbase, -⟩ | ⟨timer, rest, -, -, hbase, -⟩ := wheelStep_cases hstep <;>
    rw [hbase]
  · exact hlinked
  · exact hlinked.modTimerAlways timer expires
  · exact hlinked.detachTimer timer
  · exact hlinked.beginTick hwork
  · exact hlinked.detachTimer timer

theorem run_linked {events : List Event} {last : System} (hlinked : system.base.Linked)
    (hrun : run system events = some last) : last.base.Linked := by
  induction events generalizing system with
  | nil =>
    cases hrun
    exact hlinked
  | cons event events ih =>
    grind [run_cons, step_linked]

theorem initTimersCpu_linked (expires : TimerId → UInt64) (jiffies : Nat) :
    (initTimersCpu expires jiffies).base.Linked := by
  constructor <;> simp [initTimersCpu]

end Steps

section Counter

namespace Base

/-- The timers that are linked in the wheel. -/
def pendingSet (base : Base) : Set TimerId :=
  {timer | base.timerPending timer}

/-- The counter is ahead of the timers by the moves. -/
structure Counted (base : Base) (moves : Nat) : Prop where
  finite : base.pendingSet.Finite
  count : base.jhlTimerNum = base.pendingSet.ncard + moves

namespace Counted

variable {base : Base} {moves : Nat} {timer : TimerId}

theorem congr (hcounted : base.Counted moves) {other : Base}
    (hpending : other.pendingSet = base.pendingSet) {more : Nat}
    (hcount : other.jhlTimerNum = base.jhlTimerNum + more) : other.Counted (moves + more) := by
  refine ⟨hpending ▸ hcounted.finite, ?_⟩
  rw [hcount, hpending, hcounted.count]
  push_cast
  ring

theorem internalAddTimer (hcounted : base.Counted moves) (hidle : base.entry timer = none) :
    (base.internalAddTimer timer).Counted moves := by
  have hset : (base.internalAddTimer timer).pendingSet = insert timer base.pendingSet := by
    ext other
    change ((base.listAddTail timer _).entry other).isSome ↔ other = timer ∨ (base.entry other).isSome
    rw [entry_listAddTail]
    by_cases hsame : other = timer <;> simp [hsame]
  have hnew : timer ∉ base.pendingSet := by
    change ¬ (base.entry timer).isSome
    rw [hidle]
    exact Bool.false_ne_true
  refine ⟨hset ▸ hcounted.finite.insert timer, ?_⟩
  rw [hset, Set.ncard_insert_of_notMem hnew hcounted.finite]
  change base.jhlTimerNum + 1 = _
  rw [hcounted.count]
  push_cast
  ring

theorem detachTimer (hcounted : base.Counted moves) (hpending : base.timerPending timer) :
    (base.detachTimer timer).Counted moves := by
  have hset : (base.detachTimer timer).pendingSet = base.pendingSet \ {timer} := by
    ext other
    change ((base.detachTimer timer).entry other).isSome ↔ (base.entry other).isSome ∧ other ≠ timer
    rw [entry_detachTimer]
    by_cases hsame : other = timer <;> simp [hsame]
  refine ⟨hset ▸ hcounted.finite.sdiff, ?_⟩
  have hmem : timer ∈ base.pendingSet := hpending
  have hcard := Set.ncard_sdiff_singleton_add_one hmem hcounted.finite
  change base.jhlTimerNum - 1 = _
  rw [hset, hcounted.count, ← hcard]
  push_cast
  ring

theorem modTimerAlways (hcounted : base.Counted moves) (timer : TimerId) (expires : UInt64) :
    (base.modTimerAlways timer expires).Counted moves := by
  rw [Base.modTimerAlways]
  by_cases hpending : base.timerPending timer
  · rw [if_pos hpending]
    have hdetached := hcounted.detachTimer hpending
    refine internalAddTimer ⟨hdetached.finite, hdetached.count⟩ ?_
    change (base.detachTimer timer).entry timer = none
    rw [entry_detachTimer, if_pos rfl]
  · rw [if_neg hpending]
    refine internalAddTimer ⟨hcounted.finite, hcounted.count⟩ ?_
    exact not_isSome_iff_eq_none.mp hpending

theorem beginTick (hcounted : base.Counted moves) (hlinked : base.Linked) :
    base.beginTick.Counted (moves + base.tickMoves) := by
  refine hcounted.congr ?_ base.jhlTimerNum_beginTick
  ext other
  exact Bool.eq_iff_iff.mp (hlinked.timerPending_beginTick other)

end Counted

end Base

def movesOf : System → List Event → Nat
  | _, [] => 0
  | system, event :: events =>
    match step system event with
    | none => 0
    | some next => movesBy system event + movesOf next events

variable {system next last : System} {event : Event} {moves : Nat}

theorem step_counted (hlinked : system.base.Linked) (hcounted : system.base.Counted moves)
    (hstep : step system event = some next) :
    next.base.Counted (moves + movesBy system event) := by
  obtain ⟨hbase, -, hmoves⟩ | ⟨timer, expires, hevent, hbase, -⟩ |
    ⟨timer, rfl, hpending, hbase, -⟩ | ⟨jiffies, rfl, -, hdue, hbase, -⟩ |
    ⟨timer, rest, rfl, hwork, hbase, -⟩ := wheelStep_cases hstep <;> rw [hbase]
  · rw [hmoves]
    exact hcounted
  · have hmoves : movesBy system event = 0 := by
      rcases hevent with rfl | rfl <;> rfl
    rw [hmoves]
    exact hcounted.modTimerAlways timer expires
  · exact hcounted.detachTimer hpending
  · rw [movesBy, if_pos hdue]
    exact hcounted.beginTick hlinked
  · have hentry := (hlinked.member .workList timer).mp (hwork ▸ mem_cons_self)
    refine hcounted.detachTimer ?_
    rw [Base.timerPending, hentry]
    rfl

theorem run_counted {events : List Event} (hlinked : system.base.Linked)
    (hcounted : system.base.Counted moves) (hrun : run system events = some last) :
    last.base.Counted (moves + movesOf system events) := by
  induction events generalizing system moves with
  | nil =>
    cases hrun
    exact hcounted
  | cons event events ih =>
    obtain ⟨next, hstep, hrest⟩ := run_cons hrun
    have hnext := ih (step_linked hlinked hstep) (step_counted hlinked hcounted hstep) hrest
    rwa [movesOf, hstep, ← Nat.add_assoc]

theorem initTimersCpu_counted (expires : TimerId → UInt64) (jiffies : Nat) :
    (initTimersCpu expires jiffies).base.Counted 0 := by
  have hset : (initTimersCpu expires jiffies).base.pendingSet = ∅ :=
    Set.eq_empty_of_forall_notMem fun timer => Bool.false_ne_true
  refine ⟨hset ▸ Set.finite_empty, ?_⟩
  rw [hset, Set.ncard_empty]
  rfl

theorem jhlTimerNum_run {expires : TimerId → UInt64} {jiffies : Nat} {events : List Event}
    (hrun : run (initTimersCpu expires jiffies) events = some last) :
    last.base.jhlTimerNum =
      last.base.pendingSet.ncard + movesOf (initTimersCpu expires jiffies) events := by
  have hlast := run_counted (initTimersCpu_linked expires jiffies)
    (initTimersCpu_counted expires jiffies) hrun
  rw [hlast.count, Nat.zero_add]

end Counter

/-- The counter agrees with the timers just as long as no cascade has moved one. -/
theorem jhlTimerNum_eq_iff (expires : TimerId → UInt64) (jiffies : Nat) (events : List Event)
    (last : System) (hrun : run (initTimersCpu expires jiffies) events = some last) :
    last.base.jhlTimerNum = last.base.pendingSet.ncard ↔
      movesOf (initTimersCpu expires jiffies) events = 0 := by
  rw [jhlTimerNum_run hrun]
  omega

theorem wheel_linkedOnce (expires : TimerId → UInt64) (jiffies : Nat) (events : List Event)
    (last : System) (hrun : run (initTimersCpu expires jiffies) events = some last)
    (place : Place) (timer : TimerId) :
    (last.base.lists place).count timer = if last.base.entry timer = some place then 1 else 0 := by
  have hlinked := run_linked (initTimersCpu_linked expires jiffies) hrun
  split_ifs with hentry
  · exact count_eq_one_of_mem (hlinked.nodup place) ((hlinked.member place timer).mpr hentry)
  · exact count_eq_zero.mpr fun hmem => hentry ((hlinked.member place timer).mp hmem)

namespace CounterWitness

open WheelWitness

/-- A timer that goes off in the first level. -/
def near : List Event :=
  [.add 1 513, .enter, .read 512, .read 512, .read 512]

theorem counted_near : ∃ last, run (start 511) near = some last ∧
    last.base.jhlTimerNum = last.base.pendingSet.ncard := by
  have hsome : (run (start 511) near).isSome := by
    decide
  obtain ⟨last, hlast⟩ := isSome_iff_exists.mp hsome
  exact ⟨last, hlast, (jhlTimerNum_eq_iff (fun _ => 0) 511 near last hlast).mpr (by decide)⟩

theorem linkedOnce_near : ∃ last, run (start 511) [.add 1 513] = some last ∧
    (last.base.lists (.slot .tv1 1)).count 1 = 1 :=
  ⟨_, rfl, wheel_linkedOnce (fun _ => 0) 511 [.add 1 513] _ rfl (.slot .tv1 1) 1⟩

/-- A timer 256 ticks away, which the next tick but one moves to the first level. -/
def far : List Event :=
  [.add 1 767, .enter, .read 512, .read 512, .read 512]

theorem not_counted_far : ∃ last, run (start 511) far = some last ∧ last.phase = .outside ∧
    last.base.jhlTimerNum ≠ last.base.pendingSet.ncard := by
  have hphase : (run (start 511) far).map System.phase = some .outside := by
    decide
  obtain ⟨last, hlast, houtside⟩ := map_eq_some_iff.mp hphase
  have hmoves : movesOf (initTimersCpu (fun _ => 0) 511) far = 1 := by
    decide
  refine ⟨last, hlast, houtside, ?_⟩
  rw [jhlTimerNum_run hlast, hmoves]
  omega

end CounterWitness

section Order

/-- The event is a call for this timer. -/
def Event.names (timer : TimerId) : Event → Bool
  | .add other _ => other == timer
  | .mod other _ => other == timer
  | .del other => other == timer
  | _ => false

/-- The timers are in one list, the first one ahead. -/
def Base.Ahead (base : Base) (a b : TimerId) : Prop :=
  ∃ place, [a, b].Sublist (base.lists place)

namespace Base.Ahead

variable {base : Base} {a b timer : TimerId}

theorem internalAddTimer (hahead : base.Ahead a b) (timer : TimerId) :
    (base.internalAddTimer timer).Ahead a b := by
  obtain ⟨place, hsublist⟩ := hahead
  refine ⟨place, hsublist.trans ?_⟩
  change (base.lists place).Sublist (Function.update base.lists _ _ place)
  rw [update_apply]
  grind

theorem detachTimer (hahead : base.Ahead a b) (ha : timer ≠ a) (hb : timer ≠ b) :
    (base.detachTimer timer).Ahead a b := by
  obtain ⟨place, hsublist⟩ := hahead
  refine ⟨place, ?_⟩
  cases hentry : base.entry timer with
  | none =>
    change [a, b].Sublist ((base.listDel timer).lists place)
    rw [listDel, hentry]
    exact hsublist
  | some target =>
    rw [lists_detachTimer hentry]
    split
    · rename_i hplace
      have herased := (hplace ▸ hsublist).erase timer
      rwa [erase_of_not_mem (by simp [ha, hb])] at herased
    · exact hsublist

theorem modTimerAlways (hahead : base.Ahead a b) (ha : timer ≠ a) (hb : timer ≠ b)
    (expires : UInt64) : (base.modTimerAlways timer expires).Ahead a b := by
  rw [Base.modTimerAlways]
  refine @internalAddTimer (Base.setExpires _ timer expires) a b ?_ timer
  split
  · exact hahead.detachTimer ha hb
  · exact hahead

theorem cascade (hahead : base.Ahead a b) (hexpires : base.expires a = base.expires b)
    (level : Level) (index : Nat) : (base.cascade level index).Ahead a b := by
  obtain ⟨place, hsublist⟩ := hahead
  by_cases hplace : place = .slot level index
  · subst hplace
    refine ⟨vec base.timerJiffies (base.expires a), ?_⟩
    rw [lists_cascade]
    grind
  · refine ⟨place, ?_⟩
    rw [lists_cascade, if_neg hplace]
    exact hsublist.trans (sublist_append_left _ _)

theorem cascadeFrom (hahead : base.Ahead a b) (hexpires : base.expires a = base.expires b)
    (levels : List Level) : (base.cascadeFrom levels).Ahead a b := by
  induction levels generalizing base with
  | nil => exact hahead
  | cons level levels ih =>
    have hfirst := hahead.cascade hexpires level (level.index base.timerJiffies)
    rw [Base.cascadeFrom]
    grind [expires_cascade]

theorem beginTick (hahead : base.Ahead a b) (hexpires : base.expires a = base.expires b)
    (hwork : base.lists .workList = []) : base.beginTick.Ahead a b := by
  have hcascaded : base.cascaded.Ahead a b := by
    rw [Base.cascaded]
    split
    · exact hahead.cascadeFrom hexpires _
    · exact hahead
  obtain ⟨place, hsublist⟩ := hcascaded
  rw [beginTick_eq]
  by_cases hslot : place = .slot .tv1 (Level.tv1.index base.timerJiffies)
  · subst hslot
    refine ⟨.workList, ?_⟩
    simpa [listReplaceInit, advance] using hsublist
  · refine ⟨place, ?_⟩
    have hne : place ≠ .workList := by
      rintro rfl
      rw [workList_cascaded, hwork] at hsublist
      cases hsublist
    simpa [listReplaceInit, advance, update_apply, hslot, hne] using hsublist

end Base.Ahead

/-- Each callback of `b` has one of `a` before it. -/
def FiredBefore (a b : TimerId) (fired : List (TimerId × Nat)) : Prop :=
  ∀ pre tick post, fired = pre ++ (b, tick) :: post → a ∈ pre.map Prod.fst

section Fired

variable {a b timer : TimerId} {tick : Nat} {fired : List (TimerId × Nat)}

theorem firedBefore_nil : FiredBefore a b [] := by
  intro pre tick post hfired
  simp at hfired

theorem firedBefore_cons_self (hne : a ≠ b) (tick : Nat) (fired : List (TimerId × Nat)) :
    FiredBefore a b ((a, tick) :: fired) := by
  intro pre tick' post hfired
  cases pre with
  | nil =>
    grind
  | cons entry pre =>
    grind

theorem FiredBefore.cons (hfired : FiredBefore a b fired) (htimer : timer ≠ b) :
    FiredBefore a b ((timer, tick) :: fired) := by
  intro pre tick' post hsplit
  cases pre with
  | nil =>
    grind
  | cons entry pre =>
    simp only [cons_append, List.cons.injEq] at hsplit
    exact mem_cons_of_mem _ (hfired pre tick' post hsplit.2)

end Fired

section OrderRuns

variable {system next last : System} {event : Event} {events : List Event} {a b : TimerId}

theorem expires_modTimerAlways (base : Base) {timer other : TimerId} (hne : timer ≠ other)
    (expires : UInt64) : (base.modTimerAlways timer expires).expires other = base.expires other := by
  change (Base.setExpires (if base.timerPending timer then base.detachTimer timer else base)
    timer expires).expires other = _
  rw [expires_setExpires, if_neg (Ne.symm hne)]
  split
  · rw [expires_detachTimer]
  · rfl

theorem expires_beginTick (base : Base) : base.beginTick.expires = base.expires :=
  base.expires_cascaded

theorem step_expires (hnames : event.names a = false) (hstep : step system event = some next) :
    next.base.expires a = system.base.expires a := by
  obtain ⟨hbase, -⟩ | ⟨timer, expires, hevent, hbase, -⟩ | ⟨timer, -, -, hbase, -⟩ |
    ⟨jiffies, -, -, -, hbase, -⟩ | ⟨timer, rest, -, -, hbase, -⟩ := wheelStep_cases hstep <;>
    rw [hbase]
  · grind [expires_modTimerAlways, Event.names]
  · rw [expires_detachTimer]
  · rw [expires_beginTick]
  · rw [expires_detachTimer]

theorem step_ahead (hlinked : system.base.Linked) (hahead : system.base.Ahead a b)
    (hexpires : system.base.expires a = system.base.expires b) (ha : event.names a = false)
    (hb : event.names b = false) (hstep : step system event = some next) :
    (next.base.Ahead a b ∧ (next.fired = system.fired ∨
      ∃ timer tick, timer ≠ b ∧ next.fired = system.fired ++ [(timer, tick)])) ∨
    ∃ tick, next.fired = system.fired ++ [(a, tick)] := by
  obtain ⟨hbase, hfired, -⟩ | ⟨timer, expires, hevent, hbase, hfired⟩ |
    ⟨timer, rfl, -, hbase, hfired⟩ | ⟨jiffies, rfl, hwork, -, hbase, hfired⟩ |
    ⟨timer, rest, rfl, hwork, hbase, hfired⟩ := wheelStep_cases hstep
  · exact .inl ⟨hbase ▸ hahead, .inl hfired⟩
  · refine .inl ⟨hbase ▸ hahead.modTimerAlways ?_ ?_ expires, .inl hfired⟩
    · rcases hevent with rfl | rfl <;> simpa [Event.names] using ha
    · rcases hevent with rfl | rfl <;> simpa [Event.names] using hb
  · refine .inl ⟨hbase ▸ hahead.detachTimer ?_ ?_, .inl hfired⟩
    · simpa [Event.names] using ha
    · simpa [Event.names] using hb
  · exact .inl ⟨hbase ▸ hahead.beginTick hexpires hwork, .inl hfired⟩
  · by_cases hfirst : timer = a
    · subst hfirst
      exact .inr ⟨_, hfired⟩
    · have hsecond : timer ≠ b := by
        rintro rfl
        obtain ⟨place, hsublist⟩ := hahead
        have hmem := hsublist.subset (mem_cons_of_mem a mem_cons_self)
        have hplace := (hlinked.member place timer).mp hmem
        rw [(hlinked.member .workList timer).mp (hwork ▸ mem_cons_self),
          Option.some.injEq] at hplace
        subst hplace
        have hnodup := hlinked.nodup .workList
        rw [hwork] at hsublist hnodup
        rw [nodup_cons] at hnodup
        grind
      exact .inl ⟨hbase ▸ hahead.detachTimer hfirst hsecond, .inr ⟨timer, _, hsecond, hfired⟩⟩

theorem step_fired_append (hstep : step system event = some next) :
    ∃ more, next.fired = system.fired ++ more := by
  obtain ⟨-, hfired, -⟩ | ⟨timer, expires, -, -, hfired⟩ | ⟨timer, -, -, -, hfired⟩ |
    ⟨jiffies, -, -, -, -, hfired⟩ | ⟨timer, rest, -, -, -, hfired⟩ := wheelStep_cases hstep
  · exact ⟨[], by simpa using hfired⟩
  · exact ⟨[], by simpa using hfired⟩
  · exact ⟨[], by simpa using hfired⟩
  · exact ⟨[], by simpa using hfired⟩
  · exact ⟨_, hfired⟩

theorem run_fired_append (hrun : run system events = some last) :
    ∃ more, last.fired = system.fired ++ more := by
  induction events generalizing system with
  | nil =>
    cases hrun
    exact ⟨[], (append_nil _).symm⟩
  | cons event events ih =>
    grind [run_cons, step_fired_append]

theorem run_ahead (hlinked : system.base.Linked) (hahead : system.base.Ahead a b)
    (hexpires : system.base.expires a = system.base.expires b) (hne : a ≠ b)
    (hquiet : ∀ event ∈ events, event.names a = false ∧ event.names b = false)
    (hrun : run system events = some last) :
    ∃ more, last.fired = system.fired ++ more ∧ FiredBefore a b more := by
  induction events generalizing system with
  | nil =>
    cases hrun
    exact ⟨[], (append_nil _).symm, firedBefore_nil⟩
  | cons event events ih =>
    obtain ⟨next, hstep, hrest⟩ := run_cons hrun
    obtain ⟨⟨ha, hb⟩, hquiet⟩ := forall_mem_cons.mp hquiet
    have hnext : next.base.expires a = next.base.expires b := by
      rw [step_expires ha hstep, step_expires hb hstep, hexpires]
    obtain ⟨hkept, hfired⟩ | ⟨tick, hfired⟩ := step_ahead hlinked hahead hexpires ha hb hstep
    · obtain ⟨more, hmore, hbefore⟩ := ih (step_linked hlinked hstep) hkept hnext hquiet hrest
      obtain hfired | ⟨timer, tick, htimer, hfired⟩ := hfired
      · exact ⟨more, by rw [hmore, hfired], hbefore⟩
      · refine ⟨(timer, tick) :: more, ?_, hbefore.cons htimer⟩
        rw [hmore, hfired, append_assoc, singleton_append]
    grind [run_fired_append, firedBefore_cons_self]

theorem timerPending_modTimerAlways (base : Base) {timer other : TimerId} (hne : timer ≠ other)
    (expires : UInt64) :
    (base.modTimerAlways timer expires).timerPending other = base.timerPending other := by
  change ((Base.listAddTail _ timer _).entry other).isSome = _
  rw [entry_listAddTail, if_neg (Ne.symm hne)]
  change ((if base.timerPending timer then base.detachTimer timer else base).entry other).isSome = _
  split
  · rw [entry_detachTimer, if_neg (Ne.symm hne)]
    rfl
  · rfl

theorem run_pending (hlinked : system.base.Linked) (hpending : system.base.timerPending a)
    (hquiet : ∀ event ∈ events, event.names a = false) (hrun : run system events = some last) :
    last.base.timerPending a ∨
      ∃ more, last.fired = system.fired ++ more ∧ a ∈ more.map Prod.fst := by
  induction events generalizing system with
  | nil =>
    cases hrun
    exact .inl hpending
  | cons event events ih =>
    obtain ⟨next, hstep, hrest⟩ := run_cons hrun
    obtain ⟨ha, hquiet⟩ := forall_mem_cons.mp hquiet
    have hlater (hkept : next.base.timerPending a) : last.base.timerPending a ∨
        ∃ more, last.fired = system.fired ++ more ∧ a ∈ more.map Prod.fst := by
      grind [step_linked, step_fired_append]
    obtain ⟨hbase, -⟩ | ⟨timer, expires, hevent, hbase, -⟩ | ⟨timer, rfl, -, hbase, -⟩ |
      ⟨jiffies, -, -, -, hbase, -⟩ | ⟨timer, rest, -, -, hbase, hfired⟩ := wheelStep_cases hstep
    · exact hlater (hbase ▸ hpending)
    · grind [timerPending_modTimerAlways, Event.names]
    · refine hlater ?_
      have hother : timer ≠ a := by
        simpa [Event.names] using ha
      rw [hbase, Base.timerPending, entry_detachTimer, if_neg (Ne.symm hother)]
      exact hpending
    · refine hlater ?_
      rw [hbase, hlinked.timerPending_beginTick]
      exact hpending
    · by_cases hsame : timer = a
      · subst hsame
        obtain ⟨more, hmore⟩ := run_fired_append hrest
        grind
      · refine hlater ?_
        rw [hbase, Base.timerPending, entry_detachTimer, if_neg (Ne.symm hsame)]
        exact hpending

theorem run_expires (hquiet : ∀ event ∈ events, event.names a = false)
    (hrun : run system events = some last) :
    last.base.expires a = system.base.expires a := by
  induction events generalizing system with
  | nil =>
    cases hrun
    rfl
  | cons event events ih =>
    obtain ⟨next, hstep, hrest⟩ := run_cons hrun
    obtain ⟨ha, hquiet⟩ := forall_mem_cons.mp hquiet
    rw [ih hquiet hrest, step_expires ha hstep]

theorem step_of_arms {e : UInt64} (harms : Arms system a e event)
    (hstep : step system event = some next) :
    next.base = system.base.modTimerAlways a e ∧ next.fired = system.fired := by
  cases event with
  | add timer expires =>
    obtain ⟨rfl, rfl⟩ := harms
    obtain rfl := call_eq_some hstep
    exact ⟨addTimer_setExpires _ _ _, rfl⟩
  | mod timer expires =>
    obtain ⟨rfl, rfl, hchanged⟩ := harms
    obtain rfl := call_eq_some hstep
    exact ⟨if_neg hchanged, rfl⟩
  | del => exact harms.elim
  | enter => exact harms.elim
  | read => exact harms.elim
  | fire => exact harms.elim

theorem expires_modTimerAlways_self (base : Base) (timer : TimerId) (expires : UInt64) :
    (base.modTimerAlways timer expires).expires timer = expires := by
  change (Base.setExpires _ timer expires).expires timer = expires
  rw [expires_setExpires, if_pos rfl]

theorem timerPending_modTimerAlways_self (base : Base) (timer : TimerId) (expires : UInt64) :
    (base.modTimerAlways timer expires).timerPending timer := by
  change ((Base.listAddTail _ timer _).entry timer).isSome
  rw [entry_listAddTail, if_pos rfl]
  rfl

theorem lists_internalAddTimer (base : Base) (timer : TimerId) :
    (base.internalAddTimer timer).lists (Base.vec base.timerJiffies (base.expires timer)) =
      base.lists (Base.vec base.timerJiffies (base.expires timer)) ++ [timer] :=
  update_self _ _ _

theorem ahead_modTimerAlways {base : Base} (hlinked : base.Linked) (hne : a ≠ b) {e : UInt64}
    (hentry : base.entry a = some (Base.vec base.timerJiffies e)) :
    (base.modTimerAlways b e).Ahead a b := by
  obtain ⟨detached, hdetached⟩ : ∃ detached, detached =
      if base.timerPending b then base.detachTimer b else base := ⟨_, rfl⟩
  have hkept : a ∈ detached.lists (Base.vec base.timerJiffies e) := by
    rw [hdetached]
    split
    · rw [(hlinked.detachTimer b).member, entry_detachTimer, if_neg hne, hentry]
    · exact (hlinked.member _ a).mpr hentry
  have hjiffies : detached.timerJiffies = base.timerJiffies := by
    rw [hdetached]
    split
    · exact timerJiffies_detachTimer base b
    · rfl
  have hlists := lists_internalAddTimer (detached.setExpires b e) b
  rw [expires_setExpires, if_pos rfl] at hlists
  change _ = detached.lists (Base.vec detached.timerJiffies e) ++ [b] at hlists
  refine ⟨Base.vec detached.timerJiffies e, ?_⟩
  rw [Base.modTimerAlways, ← hdetached]
  change [a, b].Sublist (Base.lists _ (Base.vec (detached.setExpires b e).timerJiffies e))
  rw [hlists, hjiffies]
  exact (singleton_sublist.mpr hkept).append (List.Sublist.refl [b])

end OrderRuns

/-- Two timers of a run that are armed once each with the same expiry, not later than
`timer_jiffies` allows, and of which no other call is made. -/
structure EqualPair (start : System) (events : List Event) where
  (pre mid post : List Event)
  (first second : Event)
  (beforeFirst afterFirst beforeSecond afterSecond last : System)
  (a b : TimerId)
  e : UInt64
  events_eq : events = pre ++ first :: (mid ++ second :: post)
  run_pre : run start pre = some beforeFirst
  step_first : step beforeFirst first = some afterFirst
  run_mid : run afterFirst mid = some beforeSecond
  step_second : step beforeSecond second = some afterSecond
  run_post : run afterSecond post = some last
  arms_first : Arms beforeFirst a e first
  arms_second : Arms beforeSecond b e second
  ne : a ≠ b
  early_first : beforeFirst.base.timerJiffies ≤ e
  early_second : beforeSecond.base.timerJiffies ≤ e
  quiet : ∀ event ∈ mid ++ post, event.names a = false ∧ event.names b = false

namespace EqualPair

variable {start : System} {events : List Event}

/-- Each callback of the second timer since it was armed has one of the first before it, since
that was armed. -/
def InOrder (pair : EqualPair start events) : Prop :=
  ∀ pre tick post, pair.last.fired = pre ++ (pair.b, tick) :: post →
    pair.afterSecond.fired.length ≤ pre.length →
      pair.a ∈ (pre.drop pair.afterFirst.fired.length).map Prod.fst

/-- When the second timer is armed, the first one is in the list to which it is added, unless it
has already gone off. -/
def Together (pair : EqualPair start events) : Prop :=
  pair.beforeSecond.base.timerPending pair.a →
    pair.beforeSecond.base.entry pair.a =
      some (Base.vec pair.beforeSecond.base.timerJiffies pair.e)

theorem afterFirst_linked {expires : TimerId → UInt64} {jiffies : Nat}
    (pair : EqualPair (initTimersCpu expires jiffies) events) :
    pair.afterFirst.base.Linked :=
  step_linked (run_linked (initTimersCpu_linked expires jiffies) pair.run_pre) pair.step_first

/-- The callbacks before one that comes after the second arming, since the first arming: those
between the two and those after them. -/
theorem fired_split (pair : EqualPair start events) {pre post : List (TimerId × Nat)}
    {entry : TimerId × Nat} (hfired : pair.last.fired = pre ++ entry :: post)
    (hlength : pair.afterSecond.fired.length ≤ pre.length) :
    ∃ between later, pair.afterSecond.fired = pair.afterFirst.fired ++ between ∧
      pair.last.fired = pair.afterSecond.fired ++ (later ++ entry :: post) ∧
      pre.drop pair.afterFirst.fired.length = between ++ later := by
  obtain ⟨between, hbetween⟩ := run_fired_append pair.run_mid
  obtain ⟨since, hsince⟩ := run_fired_append pair.run_post
  rw [← (step_of_arms pair.arms_second pair.step_second).2] at hbetween
  obtain ⟨later, hlater⟩ := prefix_of_prefix_length_le ⟨since, hsince.symm⟩
    ⟨entry :: post, hfired.symm⟩ hlength
  grind

end EqualPair

end Order

/-- Timers with one expiry go off in the order in which they were armed if the second one is
added to the list that the first one is in. -/
theorem equalPair_inOrder (expires : TimerId → UInt64) (jiffies : Nat) (events : List Event)
    (pair : EqualPair (initTimersCpu expires jiffies) events) (htogether : pair.Together) :
    pair.InOrder := by
  have hlinked := pair.afterFirst_linked
  have hquietMid : ∀ event ∈ pair.mid, event.names pair.a = false := fun event hevent =>
    (pair.quiet event (mem_append_left _ hevent)).1
  have hquietPost : ∀ event ∈ pair.post, event.names pair.a = false ∧ event.names pair.b = false :=
    fun event hevent => pair.quiet event (mem_append_right _ hevent)
  obtain ⟨hfirst, -⟩ := step_of_arms pair.arms_first pair.step_first
  obtain ⟨hsecond, hsame⟩ := step_of_arms pair.arms_second pair.step_second
  have hstarted : pair.afterFirst.base.timerPending pair.a := by
    rw [hfirst]
    exact timerPending_modTimerAlways_self _ _ _
  intro pre tick post hfired hlength
  obtain ⟨between, later, hbetween, hlater, hsplit⟩ := pair.fired_split hfired hlength
  rw [hsplit, map_append, mem_append]
  obtain hpending | ⟨more, hmore, hmem⟩ := run_pending hlinked hstarted hquietMid pair.run_mid
  · -- The first timer is still in its list, so the second one goes behind it.
    have hmid := run_linked hlinked pair.run_mid
    have hahead : pair.afterSecond.base.Ahead pair.a pair.b := by
      rw [hsecond]
      exact ahead_modTimerAlways hmid pair.ne (htogether hpending)
    have hexpires : pair.afterSecond.base.expires pair.a =
        pair.afterSecond.base.expires pair.b := by
      rw [hsecond, expires_modTimerAlways _ (Ne.symm pair.ne), expires_modTimerAlways_self,
        run_expires hquietMid pair.run_mid, hfirst, expires_modTimerAlways_self]
    obtain ⟨more, hmore, hbefore⟩ := run_ahead (step_linked hmid pair.step_second) hahead hexpires
      pair.ne hquietPost pair.run_post
    rw [hlater, append_cancel_left_eq] at hmore
    exact .inr (hbefore later tick post hmore.symm)
  simp_all

namespace OrderWitness

open WheelWitness

theorem exists_pair {start last : System} {mid post : List Event} {e : UInt64}
    (hstart : start.base.timerJiffies ≤ e)
    (hrun : run start (.add 1 e :: (mid ++ .add 2 e :: post)) = some last)
    (hmid : (run start (.add 1 e :: mid)).any fun system => system.base.timerJiffies ≤ e)
    (hquiet : ∀ event ∈ mid ++ post, event.names 1 = false ∧ event.names 2 = false) :
    ∃ pair : EqualPair start (.add 1 e :: (mid ++ .add 2 e :: post)),
      pair.a = 1 ∧ pair.b = 2 ∧ pair.e = e ∧ pair.last = last ∧
        run start (.add 1 e :: mid) = some pair.beforeSecond := by
  obtain ⟨afterFirst, hfirst, hrest⟩ := run_cons hrun
  cases hbefore : run start (.add 1 e :: mid) with
  | none =>
    rw [hbefore] at hmid
    cases hmid
  | some beforeSecond =>
    have hbetween : run afterFirst mid = some beforeSecond := by
      rwa [run, hfirst] at hbefore
    rw [run_append hbetween] at hrest
    obtain ⟨afterSecond, hsecond, hpost⟩ := run_cons hrest
    rw [hbefore] at hmid
    refine ⟨⟨[], mid, post, .add 1 e, .add 2 e, start, afterFirst, beforeSecond, afterSecond,
      last, 1, 2, e, rfl, rfl, hfirst, hbetween, hsecond, hpost, ⟨rfl, rfl⟩, ⟨rfl, rfl⟩,
      by decide, hstart, ?_, hquiet⟩, rfl, rfl, rfl, rfl, rfl⟩
    simpa using hmid

/-- Two timers for one tick, armed one right after the other. -/
def close : List Event :=
  [.add 1 1, .add 2 1, .enter, .read 1, .read 1, .fire, .fire]

theorem inOrder_close : ∃ pair : EqualPair (start 0) close,
    pair.last.fired = [(1, 1), (2, 1)] ∧ pair.InOrder := by
  have hfired : (run (start 0) close).map System.fired = some [(1, 1), (2, 1)] := by
    decide
  obtain ⟨last, hlast, hlastFired⟩ := map_eq_some_iff.mp hfired
  obtain ⟨pair, ha, -, he, rfl, hbefore⟩ := @exists_pair (start 0) last [] _ 1 (by decide) hlast
    (by decide) (by decide)
  refine ⟨pair, hlastFired, equalPair_inOrder (fun _ => 0) 0 close pair fun _ => ?_⟩
  have hentry : ((run (start 0) [.add 1 1]).map fun system =>
      (system.base.entry 1, Base.vec system.base.timerJiffies 1)) =
        some (some (.slot .tv1 1), .slot .tv1 1) := by
    decide
  rw [hbefore, map_some, Option.some.injEq, Prod.mk.injEq] at hentry
  rw [ha, he, hentry.1, hentry.2]

/-- Timer 2 is armed a tick later, when the first level reaches that far. -/
def apart : List Event :=
  .add 1 456 :: ([.enter, .read 200, .read 200] ++
    .add 2 456 :: (.enter :: List.replicate 256 (.read 456) ++ [.fire, .fire]))

/-- The cascade puts timer 1 behind timer 2. -/
theorem not_inOrder_apart : ∃ pair : EqualPair (start 200) apart, ¬ pair.InOrder := by
  have hfired : (run (start 200) apart).map System.fired = some [(2, 456), (1, 456)] := by
    decide +kernel
  obtain ⟨last, hlast, hlastFired⟩ := map_eq_some_iff.mp hfired
  have hquiet (n : Nat) : ∀ event ∈ [Event.enter, .read 200, .read 200] ++
      (Event.enter :: List.replicate n (.read 456) ++ [.fire, .fire]),
      event.names 1 = false ∧ event.names 2 = false := by
    grind [Event.names]
  obtain ⟨pair, -, hb, -, rfl, hbefore⟩ := exists_pair (by decide) hlast (by decide) (hquiet 256)
  refine ⟨pair, fun horder => ?_⟩
  have hnone : pair.afterSecond.fired = [] := by
    have hcheck : (run (start 200) [.add 1 456, .enter, .read 200, .read 200]).map System.fired =
        some [] := by
      decide
    rw [(step_of_arms pair.arms_second pair.step_second).2]
    rw [show [Event.add 1 456, .enter, .read 200, .read 200] =
      .add 1 456 :: [.enter, .read 200, .read 200] from rfl, hbefore] at hcheck
    exact Option.some.inj hcheck
  have hmem := horder [] 456 [(1, 456)] (by rw [hlastFired, hb]; rfl) (by rw [hnone])
  rw [drop_nil] at hmem
  cases hmem

end OrderWitness

end WaterWall
