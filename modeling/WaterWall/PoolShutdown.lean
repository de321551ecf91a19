/-
The shutdown of the worker threads of thread.c.  `pool_destroy` broadcasts once and then
joins the workers in their order; whether it can hang is decided by where the workers are
at the broadcast, which does not take the lock.
-/
import WaterWall.ThreadPool

namespace WaterWall

open Function

universe u v

namespace ThreadPool

variable {n : Nat} {P : Type u} {T : Type v}

/-- `pool_destroy` waits in `pthread_join` for a worker that waits for a signal, and nobody
is left to give one. -/
def Hang (state : State n P T) : Prop :=
  ∃ w : Fin n, state.destroyer = .joining w ∧ state.workers w = .waiting ∧
    state.pool.unsignalled w = true ∧ ∀ p, state.producers p = .idle

/-- The state behind the broadcast. -/
def State.broadcast (state : State n P T) : State n P T :=
  { state with
    pool := { state.pool with unsignalled := fun _ => false }
    destroyer := .joining 0 }

/-- The state behind the `pthread_cond_wait` of a worker. -/
def State.sleepAt (state : State n P T) (w : Fin n) : State n P T :=
  { state with
    pool :=
      { state.pool with
        lock := none, unsignalled := Function.update state.pool.unsignalled w true }
    workers := Function.update state.workers w .waiting }

/-- The shutdown is known, everybody has been woken up and nobody is about to wait. -/
structure Safe (state : State n P T) : Prop where
  shutdown : state.pool.shutdown = true
  signalled : ∀ w, state.pool.unsignalled w = false
  not_tested : ∀ w, state.workers w ≠ .tested

section Safety

theorem WorkerAct.safe {w : Fin n} {pool next : Pool n P T} {old new : WorkerPc T}
    (hact : WorkerAct false w pool old next new) (hshutdown : pool.shutdown = true)
    (hold : old ≠ .tested) : next.unsignalled = pool.unsignalled ∧ new ≠ .tested := by
  cases hact with
  | sleep hnone =>
    rw [hshutdown] at hnone
    cases hnone.2
  | wait => exact absurd rfl hold
  | spuriousWakeUp hspurious => cases hspurious
  | _ => exact ⟨rfl, fun htested => nomatch htested⟩

theorem ProducerAct.safe {p : P} {pool next : Pool n P T} {old new : ProducerPc T}
    (hact : ProducerAct p pool old next new) (hsignalled : ∀ w, pool.unsignalled w = false) :
    next.unsignalled = pool.unsignalled := by
  cases hact with
  | signal w hwaits =>
    rw [hsignalled w] at hwaits
    cases hwaits
  | _ => rfl

variable [DecidableEq P] {before after : State n P T}

theorem Safe.step (hsafe : Safe before) (hstep : Step false before after) : Safe after := by
  rcases hstep with ⟨w, hact⟩ | ⟨p, hact⟩ | hact
  · obtain ⟨hsame, hnew⟩ := hact.safe hsafe.shutdown (hsafe.not_tested w)
    refine ⟨hact.shutdown.trans hsafe.shutdown, ?_, ?_⟩
    · intro v
      rw [hsame]
      exact hsafe.signalled v
    · exact Interleaving.forall_update (P := (· ≠ WorkerPc.tested)) hsafe.not_tested hnew
  · refine ⟨hact.shutdown.trans hsafe.shutdown, ?_, hsafe.not_tested⟩
    intro v
    rw [hact.safe hsafe.signalled]
    exact hsafe.signalled v
  · have hpool : ∀ {old new : DestroyPc} {next : Pool n P T},
        DestroyAct before.workers before.pool old next new →
          next.shutdown = true ∧ ∀ w, next.unsignalled w = false := by
      intro old new next hact
      cases hact with
      | call _ | join _ _ | finish => exact ⟨hsafe.shutdown, hsafe.signalled⟩
      | flag => exact ⟨rfl, hsafe.signalled⟩
      | broadcast => exact ⟨hsafe.shutdown, fun _ => rfl⟩
    exact ⟨(hpool hact).1, (hpool hact).2, hsafe.not_tested⟩

theorem Safe.no_hang (hsafe : Safe before) (hreach : Reaches false before after) :
    ¬Hang after := by
  have hafter : Safe after :=
    Interleaving.always hsafe (fun _ _ hstate hstep => hstate.step hstep) hreach
  rintro ⟨w, _, _, hwaits, _⟩
  rw [hafter.signalled w] at hwaits
  cases hwaits

end Safety

/-- The steps of one worker alone. -/
def Alone (w : Fin n) (before after : Pool n P T × WorkerPc T) : Prop :=
  Relation.ReflTransGen
    (fun a b => WorkerAct false w a.1 a.2 b.1 b.2) before after

section Leaving

variable {state : State n P T} {w : Fin n} {pool : Pool n P T} {pc : WorkerPc T}

/-- A worker that is not inside of the lock. -/
def Leavable : WorkerPc T → Prop
  | .outside => True
  | .waiting => True
  | .running _ => True
  | .exited => True
  | _ => False

theorem leavable_of_outside (houtside : pc.inside = false) (hok : WorkerOk pool pc) :
    Leavable pc := by
  cases pc with
  | outside | waiting | running task | exited => trivial
  | assertFailed => exact hok
  | _ => cases houtside


theorem Alone.step {next : Pool n P T} {new : WorkerPc T} {final : Pool n P T × WorkerPc T}
    (hact : WorkerAct false w pool pc next new) (hrest : Alone w (next, new) final) :
    Alone w (pool, pc) final :=
  Relation.ReflTransGen.head hact hrest

theorem alone_exit (hshutdown : pool.shutdown = true) (hlock : pool.lock = none)
    (hsignalled : pool.unsignalled w = false) (hleavable : Leavable pc) :
    Alone w (pool, pc) (pool, .exited) := by
  have hsame : ({ pool with lock := none } : Pool n P T) = pool := by rw [← hlock]
  have hexit : WorkerAct false w ({ pool with lock := some (.inl w) } : Pool n P T) .checked
      ({ pool with lock := none } : Pool n P T) .exited := .exit hshutdown
  have hleave : WorkerAct false w ({ pool with lock := some (.inl w) } : Pool n P T) .testing
      ({ pool with lock := some (.inl w) } : Pool n P T) .checked := by
    refine .leave fun hnone => ?_
    rw [hshutdown] at hnone
    cases hnone.2
  rw [hsame] at hexit
  have htesting : Alone w (({ pool with lock := some (.inl w) } : Pool n P T), .testing)
      (pool, .exited) :=
    .step hleave (.step hexit Relation.ReflTransGen.refl)
  have houtside : Alone w (pool, .outside) (pool, .exited) := .step (.lock hlock) htesting
  cases pc with
  | outside => exact houtside
  | waiting => exact .step (.wakeUp hsignalled hlock) htesting
  | running task => exact .step .done houtside
  | exited => exact Relation.ReflTransGen.refl
  | _ => exact hleavable.elim


variable [DecidableEq P]

theorem Alone.reaches (halone : Alone w (state.pool, state.workers w) (pool, pc)) :
    Reaches false state
      { state with pool := pool, workers := Function.update state.workers w pc } := by
  generalize hfinal : (pool, pc) = final at halone
  induction halone generalizing pool pc with
  | refl =>
    cases hfinal
    rw [update_eq_self]
    exact Relation.ReflTransGen.refl
  | @tail middle _ _ hact ih =>
    subst hfinal
    have hact' : WorkerAct false w middle.1 (Function.update state.workers w middle.2 w)
        pool pc := by
      rw [update_self]
      exact hact
    have hstep := (ih rfl).worker w hact'
    rwa [update_idem] at hstep

end Leaving

/-- A worker sleeps for good, and `pool_destroy` has not got to it yet. -/
structure Stuck (w : Fin n) (k : Nat) (state : State n P T) : Prop where
  shutdown : state.pool.shutdown = true
  lock : state.pool.lock = none
  joining : state.destroyer = .joining k
  asleep : state.workers w = .waiting
  unsignalled : state.pool.unsignalled w = true
  signalled : ∀ v, v ≠ w → state.pool.unsignalled v = false
  leavable : ∀ v, v ≠ w → Leavable (state.workers v)
  idle : ∀ p, state.producers p = .idle

section Hanging

variable [DecidableEq P] {state : State n P T} {w : Fin n}

theorem Stuck.next {k : Nat} (hstuck : Stuck w k state) (hlt : k < w) :
    ∃ after, Reaches false state after ∧ Stuck w (k + 1) after := by
  have hk : k < n := hlt.trans w.isLt
  let v : Fin n := ⟨k, hk⟩
  have hne : v ≠ w := Fin.ne_of_lt hlt
  have hleft := (alone_exit hstuck.shutdown hstuck.lock (hstuck.signalled v hne)
    (hstuck.leavable v hne)).reaches
  have hjoin : DestroyAct (Function.update state.workers v .exited) state.pool state.destroyer
      state.pool (.joining (v + 1)) := by
    rw [hstuck.joining]
    exact .join v (update_self v _ _)
  refine ⟨_, hleft.destroy hjoin, ?_⟩
  constructor
  case shutdown => exact hstuck.shutdown
  case lock => exact hstuck.lock
  case joining => rfl
  case asleep =>
    change Function.update state.workers v .exited w = .waiting
    rw [update_of_ne hne.symm, hstuck.asleep]
  case unsignalled => exact hstuck.unsignalled
  case signalled => exact hstuck.signalled
  case leavable =>
    intro u hu
    change Leavable (Function.update state.workers v .exited u)
    rw [update_apply]
    split_ifs
    · trivial
    · exact hstuck.leavable u hu
  case idle => exact hstuck.idle

theorem Stuck.hang {k : Nat} (hstuck : Stuck w k state) (hle : k ≤ w) :
    ∃ hang, Reaches false state hang ∧ Hang hang := by
  obtain ⟨left, hleft⟩ := Nat.exists_eq_add_of_le hle
  induction left generalizing k state with
  | zero =>
    refine ⟨state, Relation.ReflTransGen.refl, w, ?_, hstuck.asleep, hstuck.unsignalled,
      hstuck.idle⟩
    rw [hstuck.joining, hleft]
    rfl
  | succ left ih =>
    obtain ⟨after, hreach, hafter⟩ := hstuck.next (by omega)
    obtain ⟨hang, hrest, hhang⟩ := ih hafter (by omega) (by omega)
    exact ⟨hang, hreach.trans hrest, hhang⟩

theorem shutdown_of_flagged (hreach : Reaches false (start n P T) state)
    (hflagged : state.destroyer = .flagged) : state.pool.shutdown = true := by
  rcases shutdown_of_reaches hreach with hpc | hpc | hset
  · rw [hflagged] at hpc
    cases hpc
  · rw [hflagged] at hpc
    cases hpc
  · exact hset

theorem Reaches.broadcast {first : State n P T} (hreach : Reaches false first state)
    (hflagged : state.destroyer = .flagged) : Reaches false first state.broadcast := by
  have hact : DestroyAct state.workers state.pool state.destroyer state.broadcast.pool
      (.joining 0) := by
    rw [hflagged]
    exact .broadcast
  exact hreach.destroy hact

theorem reaches_sleepAt (htested : state.workers w = .tested) :
    Reaches false state (state.sleepAt w) := by
  have hact : WorkerAct false w state.pool (state.workers w) (state.sleepAt w).pool .waiting := by
    rw [htested]
    exact .wait
  exact Relation.ReflTransGen.single (.worker w hact)

theorem hang_of_tested (hreach : Reaches false (start n P T) state)
    (hflagged : state.destroyer = .flagged) (hidle : ∀ p, state.producers p = .idle)
    (htested : state.broadcast.workers w = .tested) :
    ∃ hang, Reaches false state.broadcast hang ∧ Hang hang := by
  have hcore : Core state.pool state.workers state.producers :=
    core_of_reaches hreach (by rw [hflagged]; exact fun h => nomatch h)
  have hshutdown := shutdown_of_flagged hreach hflagged
  have hinside : (state.workers w).inside = true := congrArg WorkerPc.inside htested
  obtain ⟨halone, -⟩ := hcore.alone_worker hinside
  have hstuck : Stuck w 0 (state.broadcast.sleepAt w) := by
    constructor
    case shutdown => exact hshutdown
    case lock => rfl
    case joining => rfl
    case asleep => exact update_self w _ _
    case unsignalled => exact update_self w _ _
    case signalled => exact fun v hne => update_of_ne hne _ _
    case leavable =>
      intro v hne
      change Leavable (Function.update state.workers w .waiting v)
      rw [update_of_ne hne]
      exact leavable_of_outside (halone v hne) (hcore.workerOk v)
    case idle => exact hidle
  obtain ⟨hang, hrest, hhang⟩ := hstuck.hang (Nat.zero_le _)
  exact ⟨hang, (reaches_sleepAt htested).trans hrest, hhang⟩

end Hanging

end ThreadPool

/-- Behind its broadcast `pool_destroy` can still hang exactly if some worker was then
between its test and `pthread_cond_wait`. -/
theorem poolDestroy_hang_iff {n : Nat} {P : Type u} {T : Type v} [DecidableEq P]
    (state : ThreadPool.State n P T)
    (hreach : ThreadPool.Reaches false (ThreadPool.start n P T) state)
    (hflagged : state.destroyer = .flagged) (hidle : ∀ p, state.producers p = .idle) :
    (∃ hang, ThreadPool.Reaches false state.broadcast hang ∧ ThreadPool.Hang hang) ↔
      ∃ w, state.workers w = .tested := by
  constructor
  · rintro ⟨hang, hrun, hhang⟩
    by_contra hnone
    rw [not_exists] at hnone
    have hshutdown : state.pool.shutdown = true :=
      ThreadPool.shutdown_of_flagged hreach hflagged
    have hsafe : ThreadPool.Safe state.broadcast := ⟨hshutdown, fun _ => rfl, hnone⟩
    exact hsafe.no_hang hrun hhang
  · rintro ⟨w, htested⟩
    exact ThreadPool.hang_of_tested hreach hflagged hidle htested

namespace PoolShutdownWitness

open ThreadPool

theorem reaches_tested :
    ∃ state : State 1 Empty Unit, Reaches false (start 1 Empty Unit) state ∧
      state.destroyer = .flagged ∧ state.workers 0 = .tested := by
  have hstart : Reaches false (start 1 Empty Unit) (start 1 Empty Unit) :=
    Relation.ReflTransGen.refl
  have hreach := hstart
    |>.worker 0 (.lock rfl)
    |>.worker 0 (.sleep ⟨rfl, rfl⟩)
    |>.destroy (.call rfl)
    |>.destroy .flag
  exact ⟨_, hreach, rfl, rfl⟩

/-- A hang is an interleaving of `pool_destroy` with one worker. -/
theorem hang_reachable :
    ∃ state : State 1 Empty Unit, Reaches false (start 1 Empty Unit) state ∧ Hang state := by
  obtain ⟨state, hreach, hflagged, htested⟩ := reaches_tested
  obtain ⟨hang, hrest, hhang⟩ :=
    hang_of_tested (w := 0) hreach hflagged (fun p => nomatch p) htested
  exact ⟨hang, (hreach.broadcast hflagged).trans hrest, hhang⟩

/-- With the worker still in front of the lock nothing can go wrong any more. -/
theorem no_hang_outside :
    ∃ state : State 1 Empty Unit, Reaches false (start 1 Empty Unit) state ∧
      state.destroyer = .flagged ∧
      ¬∃ hang, Reaches false state.broadcast hang ∧ Hang hang := by
  have hstart : Reaches false (start 1 Empty Unit) (start 1 Empty Unit) :=
    Relation.ReflTransGen.refl
  have hreach := hstart
    |>.destroy (.call rfl)
    |>.destroy .flag
  refine ⟨_, hreach, rfl, ?_⟩
  rw [poolDestroy_hang_iff _ hreach rfl fun p => nomatch p]
  rintro ⟨w, htested⟩
  cases htested

end PoolShutdownWitness

end WaterWall
