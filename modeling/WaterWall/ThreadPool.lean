/-
The worker threads of thread.c.  A producer appends a task under the lock and signals
after it has given the lock back; a worker tests for a task under the lock and waits on
the condition variable if there is none; `pool_destroy` sets `shutdown` and broadcasts
without the lock.  Every access to the shared data is a step of its own.
-/
import WaterWall.Interleaving

namespace WaterWall

open Function

universe u v

namespace ThreadPool

open Interleaving

/-- The pool that threads share.  A worker in `unsignalled` waits for a signal; `enqueued`
and `dequeued` record all tasks that came into the list and left it, with their workers. -/
structure Pool (n : Nat) (P : Type u) (T : Type v) where
  lock : Option (Fin n ⊕ P)
  tasks : List T
  curTaskListSize : Int
  shutdown : Bool
  unsignalled : Fin n → Bool
  enqueued : List T
  dequeued : List (Fin n × T)

/-- Where a worker is in `thread_routine`. -/
inductive WorkerPc (T : Type v) where
  /-- In front of `pthread_mutex_lock`. -/
  | outside
  /-- In front of the test of the inner loop. -/
  | testing
  /-- In front of `pthread_cond_wait`. -/
  | tested
  | waiting
  /-- Behind the inner loop. -/
  | checked
  /-- In front of the assertions. -/
  | taking
  /-- The size is counted down. -/
  | counted
  /-- The task is off the list. -/
  | popped (task : T)
  | running (task : T)
  | exited
  | assertFailed

/-- Where a producer is in `pool_add_task`. -/
inductive ProducerPc (T : Type v) where
  | idle
  | outside (task : T)
  | locked (task : T)
  /-- The task is on the list; the assertion comes next. -/
  | linked
  | counted
  /-- The lock is given back; the signal comes next. -/
  | unlocked
  | assertFailed

/-- Where the thread that calls `pool_destroy` is. -/
inductive DestroyPc where
  | notCalled
  /-- `shutdown` was not yet set. -/
  | called
  /-- In front of `pthread_cond_broadcast`. -/
  | flagged
  | joining (worker : Nat)
  | finished
  deriving DecidableEq, Repr

variable {n : Nat} {P : Type u} {T : Type v}

def WorkerPc.inside : WorkerPc T → Bool
  | .testing => true
  | .tested => true
  | .checked => true
  | .taking => true
  | .counted => true
  | .popped _ => true
  | _ => false

def ProducerPc.inside : ProducerPc T → Bool
  | .locked _ => true
  | .linked => true
  | .counted => true
  | _ => false

/-- A producer between its enqueue and its signal. -/
def ProducerPc.pending : ProducerPc T → Bool
  | .linked => true
  | .counted => true
  | .unlocked => true
  | _ => false

/-- A step of a worker; `spurious` allows `pthread_cond_wait` to return by itself. -/
inductive WorkerAct (spurious : Bool) (w : Fin n) :
    Pool n P T → WorkerPc T → Pool n P T → WorkerPc T → Prop where
  | lock {pool} (hfree : pool.lock = none) :
      WorkerAct spurious w pool .outside { pool with lock := some (.inl w) } .testing
  | sleep {pool} (hnone : pool.curTaskListSize = 0 ∧ pool.shutdown = false) :
      WorkerAct spurious w pool .testing pool .tested
  | leave {pool} (hsome : ¬(pool.curTaskListSize = 0 ∧ pool.shutdown = false)) :
      WorkerAct spurious w pool .testing pool .checked
  | wait {pool} :
      WorkerAct spurious w pool .tested
        { pool with lock := none, unsignalled := Function.update pool.unsignalled w true }
        .waiting
  | wakeUp {pool} (hsignalled : pool.unsignalled w = false) (hfree : pool.lock = none) :
      WorkerAct spurious w pool .waiting { pool with lock := some (.inl w) } .testing
  | spuriousWakeUp {pool} (hspurious : spurious = true) :
      WorkerAct spurious w pool .waiting
        { pool with unsignalled := Function.update pool.unsignalled w false } .waiting
  | exit {pool} (hshutdown : pool.shutdown = true) :
      WorkerAct spurious w pool .checked { pool with lock := none } .exited
  | goOn {pool} (hshutdown : pool.shutdown = false) :
      WorkerAct spurious w pool .checked pool .taking
  | count {pool} (hassert : pool.curTaskListSize ≠ 0 ∧ pool.tasks ≠ []) :
      WorkerAct spurious w pool .taking
        { pool with curTaskListSize := pool.curTaskListSize - 1 } .counted
  | assertFail {pool} (hassert : ¬(pool.curTaskListSize ≠ 0 ∧ pool.tasks ≠ [])) :
      WorkerAct spurious w pool .taking pool .assertFailed
  | pop {pool task rest} (htasks : pool.tasks = task :: rest) :
      WorkerAct spurious w pool .counted
        { pool with tasks := rest, dequeued := pool.dequeued ++ [(w, task)] } (.popped task)
  | unlock {pool task} :
      WorkerAct spurious w pool (.popped task) { pool with lock := none } (.running task)
  | done {pool task} : WorkerAct spurious w pool (.running task) pool .outside

inductive ProducerAct (p : P) :
    Pool n P T → ProducerPc T → Pool n P T → ProducerPc T → Prop where
  | call {pool} (task : T) : ProducerAct p pool .idle pool (.outside task)
  | lock {pool task} (hfree : pool.lock = none) :
      ProducerAct p pool (.outside task) { pool with lock := some (.inr p) } (.locked task)
  | link {pool task} :
      ProducerAct p pool (.locked task)
        { pool with tasks := pool.tasks ++ [task], enqueued := pool.enqueued ++ [task] } .linked
  | count {pool} (hassert : pool.tasks ≠ []) :
      ProducerAct p pool .linked
        { pool with curTaskListSize := pool.curTaskListSize + 1 } .counted
  | assertFail {pool} (hassert : ¬pool.tasks ≠ []) :
      ProducerAct p pool .linked pool .assertFailed
  | unlock {pool} : ProducerAct p pool .counted { pool with lock := none } .unlocked
  | signal {pool} (w : Fin n) (hwaits : pool.unsignalled w = true) :
      ProducerAct p pool .unlocked
        { pool with unsignalled := Function.update pool.unsignalled w false } .idle
  | signalNone {pool} (hnone : ∀ w, pool.unsignalled w = false) :
      ProducerAct p pool .unlocked pool .idle

/-- A step of `pool_destroy`, which looks at the workers in `pthread_join`. -/
inductive DestroyAct (workers : Fin n → WorkerPc T) :
    Pool n P T → DestroyPc → Pool n P T → DestroyPc → Prop where
  | call {pool} (hshutdown : pool.shutdown = false) :
      DestroyAct workers pool .notCalled pool .called
  | flag {pool} :
      DestroyAct workers pool .called { pool with shutdown := true } .flagged
  | broadcast {pool} :
      DestroyAct workers pool .flagged { pool with unsignalled := fun _ => false } (.joining 0)
  | join {pool} (w : Fin n) (hexited : workers w = .exited) :
      DestroyAct workers pool (.joining w) pool (.joining (w + 1))
  | finish {pool} : DestroyAct workers pool (.joining n) { pool with tasks := [] } .finished

structure State (n : Nat) (P : Type u) (T : Type v) where
  pool : Pool n P T
  workers : Fin n → WorkerPc T
  producers : P → ProducerPc T
  destroyer : DestroyPc

/-- After `thread_pool_init`. -/
def start (n : Nat) (P : Type u) (T : Type v) : State n P T where
  pool :=
    { lock := none, tasks := [], curTaskListSize := 0, shutdown := false,
      unsignalled := fun _ => false, enqueued := [], dequeued := [] }
  workers _ := .outside
  producers _ := .idle
  destroyer := .notCalled

inductive Step [DecidableEq P] (spurious : Bool) : State n P T → State n P T → Prop where
  | worker {state pool pc} (w : Fin n)
      (hact : WorkerAct spurious w state.pool (state.workers w) pool pc) :
      Step spurious state
        { state with pool := pool, workers := Function.update state.workers w pc }
  | producer {state pool pc} (p : P)
      (hact : ProducerAct p state.pool (state.producers p) pool pc) :
      Step spurious state
        { state with pool := pool, producers := Function.update state.producers p pc }
  | destroy {state pool pc}
      (hact : DestroyAct state.workers state.pool state.destroyer pool pc) :
      Step spurious state { state with pool := pool, destroyer := pc }

/-- What some interleaving leads to. -/
def Reaches [DecidableEq P] (spurious : Bool) (before after : State n P T) : Prop :=
  Relation.ReflTransGen (Step spurious) before after

/-- What a worker relies on at its place; outside of the lock that is nothing. -/
def WorkerOk (pool : Pool n P T) : WorkerPc T → Prop
  | .testing => pool.curTaskListSize = pool.tasks.length
  | .tested => pool.curTaskListSize = pool.tasks.length ∧ pool.tasks = []
  | .checked => pool.curTaskListSize = pool.tasks.length ∧
      (pool.tasks ≠ [] ∨ pool.shutdown = true)
  | .taking => pool.curTaskListSize = pool.tasks.length ∧ pool.tasks ≠ []
  | .counted => pool.curTaskListSize + 1 = pool.tasks.length
  | .popped _ => pool.curTaskListSize = pool.tasks.length
  | .assertFailed => False
  | _ => True

def ProducerOk (pool : Pool n P T) : ProducerPc T → Prop
  | .locked _ => pool.curTaskListSize = pool.tasks.length
  | .linked => pool.curTaskListSize + 1 = pool.tasks.length ∧ pool.tasks ≠ []
  | .counted => pool.curTaskListSize = pool.tasks.length
  | .assertFailed => False
  | _ => True

/-- Who is inside of the lock. -/
def inside (workers : Fin n → WorkerPc T) (producers : P → ProducerPc T) : Fin n ⊕ P → Bool :=
  Sum.elim (fun w => (workers w).inside) (fun p => (producers p).inside)

/-- What holds between any two steps as long as the pool exists. -/
structure Core (pool : Pool n P T) (workers : Fin n → WorkerPc T)
    (producers : P → ProducerPc T) : Prop where
  guarded : Guarded pool.lock (inside workers producers)
  size_free : pool.lock = none → pool.curTaskListSize = pool.tasks.length
  workerOk : ∀ w, WorkerOk pool (workers w)
  producerOk : ∀ p, ProducerOk pool (producers p)
  waits : ∀ w, pool.unsignalled w = true → workers w = .waiting
  fifo : pool.enqueued = pool.dequeued.map Prod.snd ++ pool.tasks
  awake : pool.tasks ≠ [] → n = 0 ∨ (∃ w, pool.unsignalled w = false) ∨
    ∃ p, (producers p).pending = true

theorem core_start : Core (start n P T).pool (start n P T).workers (start n P T).producers where
  guarded i := by
    rcases i with w | p <;> simp [inside, start, WorkerPc.inside, ProducerPc.inside]
  size_free _ := rfl
  workerOk _ := trivial
  producerOk _ := trivial
  waits w hw := by simp [start] at hw
  fifo := rfl
  awake htasks := absurd rfl htasks

section Frames

variable {pool next : Pool n P T} {workers : Fin n → WorkerPc T} {producers : P → ProducerPc T}

/-- The task list, its size and its records are as before; `shutdown` may have been set. -/
structure SameTasks (pool next : Pool n P T) : Prop where
  tasks : next.tasks = pool.tasks
  size : next.curTaskListSize = pool.curTaskListSize
  shutdown : pool.shutdown = true → next.shutdown = true
  enqueued : next.enqueued = pool.enqueued
  dequeued : next.dequeued = pool.dequeued

theorem SameTasks.workerOk (hsame : SameTasks pool next) {pc : WorkerPc T}
    (hok : WorkerOk pool pc) : WorkerOk next pc := by
  cases pc with
  | checked =>
    rw [WorkerOk, hsame.size, hsame.tasks]
    exact ⟨hok.1, hok.2.imp_right hsame.shutdown⟩
  | testing | tested | taking | counted | popped task =>
    simpa only [WorkerOk, hsame.size, hsame.tasks] using hok
  | assertFailed => exact hok
  | _ => trivial

theorem SameTasks.producerOk (hsame : SameTasks pool next) {pc : ProducerPc T}
    (hok : ProducerOk pool pc) : ProducerOk next pc := by
  cases pc with
  | locked task | linked | counted =>
    simpa only [ProducerOk, hsame.size, hsame.tasks] using hok
  | assertFailed => exact hok
  | _ => trivial

theorem workerOk_outside {pc : WorkerPc T} (houtside : pc.inside = false)
    (hok : WorkerOk pool pc) : WorkerOk next pc := by
  cases pc with
  | outside | waiting | running task | exited => trivial
  | assertFailed => exact hok
  | _ => cases houtside

theorem producerOk_outside {pc : ProducerPc T} (houtside : pc.inside = false)
    (hok : ProducerOk pool pc) : ProducerOk next pc := by
  cases pc with
  | idle | outside task | unlocked => trivial
  | assertFailed => exact hok
  | _ => cases houtside

theorem Core.alone_worker (hcore : Core pool workers producers) {w : Fin n}
    (hinside : (workers w).inside = true) :
    (∀ v, v ≠ w → (workers v).inside = false) ∧ ∀ p, (producers p).inside = false := by
  have hown : inside workers producers (.inl w) = true := hinside
  constructor
  · intro v hne
    change inside workers producers (.inl v) = false
    exact hcore.guarded.other_outside hown (by simpa using hne)
  · intro p
    change inside workers producers (.inr p) = false
    exact hcore.guarded.other_outside hown (by simp)

theorem Core.alone_producer (hcore : Core pool workers producers) {p : P}
    (hinside : (producers p).inside = true) :
    (∀ w, (workers w).inside = false) ∧ ∀ q, q ≠ p → (producers q).inside = false := by
  have hown : inside workers producers (.inr p) = true := hinside
  constructor
  · intro w
    change inside workers producers (.inl w) = false
    exact hcore.guarded.other_outside hown (by simp)
  · intro q hne
    change inside workers producers (.inr q) = false
    exact hcore.guarded.other_outside hown (by simpa using hne)

theorem Core.waits_update (hcore : Core pool workers producers) {w : Fin n}
    (hnot : workers w ≠ .waiting) (pc : WorkerPc T) :
    ∀ v, pool.unsignalled v = true → Function.update workers w pc v = .waiting := by
  intro v hv
  have hwaiting := hcore.waits v hv
  rw [update_of_ne _, hwaiting]
  rintro rfl
  exact hnot hwaiting

theorem Core.waits_own (hcore : Core pool workers producers) (w : Fin n) (value : Bool) :
    ∀ v, Function.update pool.unsignalled w value v = true →
      Function.update workers w .waiting v = .waiting := by
  intro v hv
  rcases eq_or_ne v w with rfl | hne
  · rw [update_self]
  · rw [update_of_ne hne] at hv ⊢
    exact hcore.waits v hv

variable [DecidableEq P]

theorem inside_updateWorker (w : Fin n) (pc : WorkerPc T) :
    inside (Function.update workers w pc) producers =
      Function.update (inside workers producers) (.inl w) pc.inside := by
  funext i
  rcases i with v | p
  · rcases eq_or_ne v w with rfl | hne
    · simp [inside]
    · simp [inside, hne]
  · simp [inside]

theorem inside_updateProducer (p : P) (pc : ProducerPc T) :
    inside workers (Function.update producers p pc) =
      Function.update (inside workers producers) (.inr p) pc.inside := by
  funext i
  rcases i with w | q
  · simp [inside]
  · rcases eq_or_ne q p with rfl | hne
    · simp [inside]
    · simp [inside, hne]

end Frames

section Workers

variable [DecidableEq P] {pool next : Pool n P T} {workers : Fin n → WorkerPc T}
  {producers : P → ProducerPc T} {w : Fin n} {pc : WorkerPc T}

theorem forall_update_false (unsignalled : Fin n → Bool) (w v : Fin n)
    (hv : unsignalled v = false) : Function.update unsignalled w false v = false := by
  rw [update_apply]
  split_ifs
  · rfl
  · exact hv

theorem Core.moveWorker (hcore : Core pool workers producers) (hsame : SameTasks pool next)
    (hguarded : Guarded next.lock (Function.update (inside workers producers) (.inl w) pc.inside))
    (hsize : next.lock = none → next.curTaskListSize = next.tasks.length)
    (hok : WorkerOk next pc)
    (hwaits : ∀ v, next.unsignalled v = true → Function.update workers w pc v = .waiting)
    (hawake : next.tasks ≠ [] → ∀ v, pool.unsignalled v = false → next.unsignalled v = false) :
    Core next (Function.update workers w pc) producers where
  guarded := by
    rw [inside_updateWorker]
    exact hguarded
  size_free := hsize
  workerOk := forall_update (fun v => hsame.workerOk (hcore.workerOk v)) hok
  producerOk p := hsame.producerOk (hcore.producerOk p)
  waits := hwaits
  fifo := by
    rw [hsame.enqueued, hsame.dequeued, hsame.tasks]
    exact hcore.fifo
  awake htasks := by
    rcases hcore.awake (hsame.tasks ▸ htasks) with hzero | ⟨v, hv⟩ | hpending
    · exact .inl hzero
    · exact .inr (.inl ⟨v, hawake htasks v hv⟩)
    · exact .inr (.inr hpending)

theorem Core.workTasks (hcore : Core pool workers producers)
    (hinside : (workers w).inside = true) (hinside' : pc.inside = true)
    (hlock : next.lock = pool.lock) (hok : WorkerOk next pc)
    (hunsignalled : next.unsignalled = pool.unsignalled)
    (hfifo : next.enqueued = next.dequeued.map Prod.snd ++ next.tasks)
    (htasks : next.tasks ≠ [] → pool.tasks ≠ []) :
    Core next (Function.update workers w pc) producers := by
  obtain ⟨halone, hproducers⟩ := hcore.alone_worker hinside
  constructor
  case guarded =>
    rw [inside_updateWorker, hlock]
    exact hcore.guarded.keep (hinside'.trans hinside.symm)
  case size_free =>
    intro hnone
    have hown := (hcore.guarded (.inl w)).mp hinside
    rw [← hlock, hnone] at hown
    cases hown
  case workerOk =>
    intro v
    rcases eq_or_ne v w with rfl | hne
    · rwa [update_self]
    · rw [update_of_ne hne]
      exact workerOk_outside (halone v hne) (hcore.workerOk v)
  case producerOk => exact fun p => producerOk_outside (hproducers p) (hcore.producerOk p)
  case waits =>
    rw [hunsignalled]
    apply hcore.waits_update
    intro hwaiting
    rw [hwaiting] at hinside
    cases hinside
  case fifo => exact hfifo
  case awake =>
    intro hnonempty
    rw [hunsignalled]
    exact hcore.awake (htasks hnonempty)

theorem Core.workerAct {spurious : Bool} (hcore : Core pool workers producers)
    (hact : WorkerAct spurious w pool (workers w) next pc) :
    Core next (Function.update workers w pc) producers := by
  have hok := hcore.workerOk w
  generalize hold : workers w = old at hact hok
  have hin : inside workers producers (.inl w) = old.inside := congrArg WorkerPc.inside hold
  have hwaits : old ≠ .waiting → ∀ v, pool.unsignalled v = true →
      Function.update workers w pc v = .waiting :=
    fun hnot => hcore.waits_update (by rwa [hold]) pc
  cases hact with
  | lock hfree =>
    exact hcore.moveWorker ⟨rfl, rfl, id, rfl, rfl⟩ (hcore.guarded.acquire hfree)
      (fun hnone => nomatch hnone) (hcore.size_free hfree) (hwaits (fun h => nomatch h))
      (fun _ _ hv => hv)
  | sleep hnone =>
    have hlength : (pool.tasks.length : Int) = 0 := hok.symm.trans hnone.1
    refine hcore.moveWorker ⟨rfl, rfl, id, rfl, rfl⟩ (hcore.guarded.keep hin.symm)
      hcore.size_free ⟨hok, ?_⟩ (hwaits (fun h => nomatch h)) (fun _ _ hv => hv)
    exact List.length_eq_zero_iff.mp (by omega)
  | leave hsome =>
    refine hcore.moveWorker ⟨rfl, rfl, id, rfl, rfl⟩ (hcore.guarded.keep hin.symm)
      hcore.size_free ⟨hok, ?_⟩ (hwaits (fun h => nomatch h)) (fun _ _ hv => hv)
    by_contra hneither
    rw [not_or, not_not, Bool.not_eq_true] at hneither
    exact hsome ⟨by rw [hok, hneither.1]; rfl, hneither.2⟩
  | wait =>
    exact hcore.moveWorker ⟨rfl, rfl, id, rfl, rfl⟩ (hcore.guarded.release hin)
      (fun _ => hok.1) trivial (hcore.waits_own w true) (fun htasks => absurd hok.2 htasks)
  | wakeUp hsignalled hfree =>
    refine hcore.moveWorker ⟨rfl, rfl, id, rfl, rfl⟩ (hcore.guarded.acquire hfree)
      (fun hnone => nomatch hnone) (hcore.size_free hfree) ?_ (fun _ _ hv => hv)
    intro v hv
    have hne : v ≠ w := by
      rintro rfl
      rw [hsignalled] at hv
      cases hv
    rw [update_of_ne hne]
    exact hcore.waits v hv
  | spuriousWakeUp _ =>
    exact hcore.moveWorker ⟨rfl, rfl, id, rfl, rfl⟩ (hcore.guarded.keep hin.symm)
      hcore.size_free trivial (hcore.waits_own w false)
      (fun _ => forall_update_false pool.unsignalled w)
  | exit _ =>
    exact hcore.moveWorker ⟨rfl, rfl, id, rfl, rfl⟩ (hcore.guarded.release hin)
      (fun _ => hok.1) trivial (hwaits (fun h => nomatch h)) (fun _ _ hv => hv)
  | goOn hshutdown =>
    refine hcore.moveWorker ⟨rfl, rfl, id, rfl, rfl⟩ (hcore.guarded.keep hin.symm)
      hcore.size_free ⟨hok.1, ?_⟩ (hwaits (fun h => nomatch h)) (fun _ _ hv => hv)
    exact hok.2.resolve_right (by rw [hshutdown]; exact fun h => nomatch h)
  | count _ =>
    refine hcore.workTasks hin rfl rfl ?_ rfl hcore.fifo id
    have hsize := hok.1
    change pool.curTaskListSize - 1 + 1 = (pool.tasks.length : Int)
    omega
  | assertFail hassert =>
    refine absurd ⟨?_, hok.2⟩ hassert
    have hsize := hok.1
    have hpos := List.length_pos_iff.mpr hok.2
    omega
  | @pop task rest htasks =>
    refine hcore.workTasks hin rfl rfl ?_ rfl ?_ (fun _ => by rw [htasks]; simp)
    · have hsize : pool.curTaskListSize + 1 = pool.tasks.length := hok
      rw [htasks, List.length_cons] at hsize
      change pool.curTaskListSize = (rest.length : Int)
      omega
    · change pool.enqueued = (pool.dequeued ++ [(w, task)]).map Prod.snd ++ rest
      rw [hcore.fifo, htasks]
      simp
  | unlock =>
    exact hcore.moveWorker ⟨rfl, rfl, id, rfl, rfl⟩ (hcore.guarded.release hin)
      (fun _ => hok) trivial (hwaits (fun h => nomatch h)) (fun _ _ hv => hv)
  | done =>
    exact hcore.moveWorker ⟨rfl, rfl, id, rfl, rfl⟩ (hcore.guarded.keep hin.symm)
      hcore.size_free trivial (hwaits (fun h => nomatch h)) (fun _ _ hv => hv)

end Workers

section Producers

variable [DecidableEq P] {pool next : Pool n P T} {workers : Fin n → WorkerPc T}
  {producers : P → ProducerPc T} {p : P} {pc : ProducerPc T}

theorem Core.moveProducer (hcore : Core pool workers producers) (hsame : SameTasks pool next)
    (hguarded : Guarded next.lock (Function.update (inside workers producers) (.inr p) pc.inside))
    (hsize : next.lock = none → next.curTaskListSize = next.tasks.length)
    (hok : ProducerOk next pc)
    (hunsignalled : ∀ v, pool.unsignalled v = false → next.unsignalled v = false)
    (hawake : n = 0 ∨ (∃ v, next.unsignalled v = false) ∨
      ((producers p).pending = true → pc.pending = true)) :
    Core next workers (Function.update producers p pc) where
  guarded := by
    rw [inside_updateProducer]
    exact hguarded
  size_free := hsize
  workerOk v := hsame.workerOk (hcore.workerOk v)
  producerOk := forall_update (fun q => hsame.producerOk (hcore.producerOk q)) hok
  waits v hv := by
    apply hcore.waits v
    by_contra hnot
    rw [hunsignalled v (Bool.eq_false_iff.mpr hnot)] at hv
    cases hv
  fifo := by
    rw [hsame.enqueued, hsame.dequeued, hsame.tasks]
    exact hcore.fifo
  awake htasks := by
    rcases hawake with hzero | hsome | hpending
    · exact .inl hzero
    · exact .inr (.inl hsome)
    · rcases hcore.awake (hsame.tasks ▸ htasks) with hzero | ⟨v, hv⟩ | ⟨q, hq⟩
      · exact .inl hzero
      · exact .inr (.inl ⟨v, hunsignalled v hv⟩)
      · refine .inr (.inr ⟨q, ?_⟩)
        grind

theorem Core.addTasks (hcore : Core pool workers producers)
    (hinside : (producers p).inside = true) (hinside' : pc.inside = true)
    (hlock : next.lock = pool.lock) (hok : ProducerOk next pc)
    (hunsignalled : next.unsignalled = pool.unsignalled)
    (hfifo : next.enqueued = next.dequeued.map Prod.snd ++ next.tasks)
    (hpending : pc.pending = true) :
    Core next workers (Function.update producers p pc) := by
  obtain ⟨hworkers, halone⟩ := hcore.alone_producer hinside
  constructor
  case guarded =>
    rw [inside_updateProducer, hlock]
    exact hcore.guarded.keep (hinside'.trans hinside.symm)
  case size_free =>
    intro hnone
    have hown := (hcore.guarded (.inr p)).mp hinside
    rw [← hlock, hnone] at hown
    cases hown
  case workerOk => exact fun w => workerOk_outside (hworkers w) (hcore.workerOk w)
  case producerOk =>
    intro q
    rcases eq_or_ne q p with rfl | hne
    · rwa [update_self]
    · rw [update_of_ne hne]
      exact producerOk_outside (halone q hne) (hcore.producerOk q)
  case waits =>
    rw [hunsignalled]
    exact hcore.waits
  case fifo => exact hfifo
  case awake => exact fun _ => .inr (.inr ⟨p, by rwa [update_self]⟩)

theorem Core.producerAct (hcore : Core pool workers producers)
    (hact : ProducerAct p pool (producers p) next pc) :
    Core next workers (Function.update producers p pc) := by
  have hok := hcore.producerOk p
  generalize hold : producers p = old at hact hok
  have hin : inside workers producers (.inr p) = old.inside := congrArg ProducerPc.inside hold
  have hpending : (producers p).pending = old.pending := congrArg ProducerPc.pending hold
  cases hact with
  | call task =>
    refine hcore.moveProducer ⟨rfl, rfl, id, rfl, rfl⟩ (hcore.guarded.keep hin.symm)
      hcore.size_free trivial (fun _ hv => hv) (.inr (.inr ?_))
    rw [hpending]
    exact id
  | lock hfree =>
    refine hcore.moveProducer ⟨rfl, rfl, id, rfl, rfl⟩ (hcore.guarded.acquire hfree)
      (fun hnone => nomatch hnone) (hcore.size_free hfree) (fun _ hv => hv) (.inr (.inr ?_))
    rw [hpending]
    exact id
  | link =>
    refine hcore.addTasks hin rfl rfl ?_ rfl ?_ rfl
    · have hsize : pool.curTaskListSize = pool.tasks.length := hok
      simp [ProducerOk, hsize]
    · simp [hcore.fifo]
  | count _ =>
    refine hcore.addTasks hin rfl rfl ?_ rfl hcore.fifo rfl
    exact hok.1
  | assertFail hassert => exact absurd hok.2 hassert
  | unlock =>
    exact hcore.moveProducer ⟨rfl, rfl, id, rfl, rfl⟩ (hcore.guarded.release hin)
      (fun _ => hok) trivial (fun _ hv => hv) (.inr (.inr fun _ => rfl))
  | signal v _ =>
    refine hcore.moveProducer ⟨rfl, rfl, id, rfl, rfl⟩ (hcore.guarded.keep hin.symm)
      hcore.size_free trivial (forall_update_false pool.unsignalled v) (.inr (.inl ⟨v, ?_⟩))
    exact update_self v false pool.unsignalled
  | signalNone hnone =>
    refine hcore.moveProducer ⟨rfl, rfl, id, rfl, rfl⟩ (hcore.guarded.keep hin.symm)
      hcore.size_free trivial (fun _ hv => hv) ?_
    rcases Nat.eq_zero_or_pos n with hzero | hpos
    · exact .inl hzero
    · exact .inr (.inl ⟨⟨0, hpos⟩, hnone _⟩)

end Producers

theorem WorkerAct.shutdown {spurious : Bool} {w : Fin n} {pool next : Pool n P T}
    {before after : WorkerPc T} (hact : WorkerAct spurious w pool before next after) :
    next.shutdown = pool.shutdown := by
  cases hact <;> rfl

theorem ProducerAct.shutdown {p : P} {pool next : Pool n P T} {before after : ProducerPc T}
    (hact : ProducerAct p pool before next after) : next.shutdown = pool.shutdown := by
  cases hact <;> rfl

section Destroying

variable {pool next : Pool n P T} {workers : Fin n → WorkerPc T}
  {producers : P → ProducerPc T} {before after : DestroyPc}

theorem Core.destroyAct (hcore : Core pool workers producers)
    (hact : DestroyAct workers pool before next after) (hafter : after ≠ .finished) :
    Core next workers producers := by
  cases hact with
  | call _ => exact hcore
  | flag =>
    have hsame : SameTasks pool { pool with shutdown := true } :=
      ⟨rfl, rfl, fun _ => rfl, rfl, rfl⟩
    exact
      { hcore with
        workerOk := fun w => hsame.workerOk (hcore.workerOk w)
        producerOk := fun p => hsame.producerOk (hcore.producerOk p) }
  | broadcast =>
    have hsame : SameTasks pool { pool with unsignalled := fun _ => false } :=
      ⟨rfl, rfl, id, rfl, rfl⟩
    exact
      { hcore with
        workerOk := fun w => hsame.workerOk (hcore.workerOk w)
        producerOk := fun p => hsame.producerOk (hcore.producerOk p)
        waits := fun _ hv => nomatch hv
        awake := fun _ => (Nat.eq_zero_or_pos n).imp_right fun hpos => .inl ⟨⟨0, hpos⟩, rfl⟩ }
  | join _ _ => exact hcore
  | finish => exact absurd rfl hafter

theorem DestroyAct.not_finished (hact : DestroyAct workers pool before next after) :
    before ≠ .finished := by
  cases hact <;> exact fun hfinished => nomatch hfinished

end Destroying

section Runs

variable [DecidableEq P] {spurious : Bool} {state : State n P T}

theorem Reaches.worker {first : State n P T} (hreach : Reaches spurious first state) {pool : Pool n P T}
    {pc : WorkerPc T} (w : Fin n)
    (hact : WorkerAct spurious w state.pool (state.workers w) pool pc) :
    Reaches spurious first
      { state with pool := pool, workers := Function.update state.workers w pc } :=
  hreach.tail (.worker w hact)

theorem Reaches.producer {first : State n P T} (hreach : Reaches spurious first state)
    {pool : Pool n P T} {pc : ProducerPc T} (p : P)
    (hact : ProducerAct p state.pool (state.producers p) pool pc) :
    Reaches spurious first
      { state with pool := pool, producers := Function.update state.producers p pc } :=
  hreach.tail (.producer p hact)

theorem Reaches.destroy {first : State n P T} (hreach : Reaches spurious first state)
    {pool : Pool n P T} {pc : DestroyPc}
    (hact : DestroyAct state.workers state.pool state.destroyer pool pc) :
    Reaches spurious first { state with pool := pool, destroyer := pc } :=
  hreach.tail (.destroy hact)

theorem core_of_reaches (hreach : Reaches spurious (start n P T) state)
    (hfinished : state.destroyer ≠ .finished) :
    Core state.pool state.workers state.producers := by
  revert hfinished
  refine always (P := fun state : State n P T => state.destroyer ≠ .finished →
    Core state.pool state.workers state.producers) (fun _ => core_start) ?_ hreach
  rintro before _ hbefore (⟨w, hact⟩ | ⟨p, hact⟩ | hact) hfinished
  · exact (hbefore hfinished).workerAct hact
  · exact (hbefore hfinished).producerAct hact
  · exact (hbefore hact.not_finished).destroyAct hact hfinished

theorem shutdown_of_reaches (hreach : Reaches spurious (start n P T) state) :
    state.destroyer = .notCalled ∨ state.destroyer = .called ∨ state.pool.shutdown = true := by
  refine always (P := fun state : State n P T => state.destroyer = .notCalled ∨
    state.destroyer = .called ∨ state.pool.shutdown = true) (.inl rfl) ?_ hreach
  rintro before _ hbefore (⟨w, hact⟩ | ⟨p, hact⟩ | hact)
  · rwa [← hact.shutdown] at hbefore
  · rwa [← hact.shutdown] at hbefore
  · generalize hold : before.destroyer = old at hact hbefore
    cases hact with
    | call _ => exact .inr (.inl rfl)
    | flag => exact .inr (.inr rfl)
    | broadcast | join _ _ | finish =>
      grind

end Runs

/-- Tasks leave the list in the order in which they came, each by one worker, and a list
with tasks is never left to workers that all wait for a signal nobody is about to give. -/
structure Orderly (state : State n P T) : Prop where
  size_eq : state.pool.lock = none →
    state.pool.curTaskListSize = state.pool.tasks.length
  fifo : state.pool.enqueued = state.pool.dequeued.map Prod.snd ++ state.pool.tasks
  workers_asserted : ∀ w, state.workers w ≠ .assertFailed
  producers_asserted : ∀ p, state.producers p ≠ .assertFailed
  no_lost_wakeUp : ¬(state.pool.tasks ≠ [] ∧ 0 < n ∧
    (∀ w, state.workers w = .waiting ∧ state.pool.unsignalled w = true) ∧
    ∀ p, (state.producers p).pending = false)

theorem Core.orderly {state : State n P T}
    (hcore : Core state.pool state.workers state.producers) : Orderly state where
  size_eq := hcore.size_free
  fifo := hcore.fifo
  workers_asserted w hfailed := by
    have hok := hcore.workerOk w
    rw [hfailed] at hok
    exact hok
  producers_asserted p hfailed := by
    have hok := hcore.producerOk p
    rw [hfailed] at hok
    exact hok
  no_lost_wakeUp := by
    rintro ⟨htasks, hpos, hblocked, hnone⟩
    rcases hcore.awake htasks with hzero | ⟨w, hw⟩ | ⟨p, hp⟩
    · omega
    · rw [(hblocked w).2] at hw
      cases hw
    · rw [hnone p] at hp
      cases hp

end ThreadPool

/-- Before the shutdown the pool is orderly in every interleaving, spurious wake-ups
included. -/
theorem threadPool_orderly {n : Nat} {P : Type u} {T : Type v} [DecidableEq P]
    (state : ThreadPool.State n P T)
    (hreach : ThreadPool.Reaches true (ThreadPool.start n P T) state)
    (hshutdown : state.pool.shutdown = false) : ThreadPool.Orderly state := by
  grind [ThreadPool.Core.orderly, ThreadPool.core_of_reaches, ThreadPool.shutdown_of_reaches]

namespace ThreadPoolWitness

open ThreadPool

/-- A worker goes to sleep and wakes up by itself; a task comes, the other worker takes it
and the signal wakes the first one for nothing. -/
theorem orderly_oneTask :
    ∃ state : State 2 Unit Nat, Reaches true (start 2 Unit Nat) state ∧
      state.pool.shutdown = false ∧ state.pool.enqueued = [7] ∧
      state.pool.dequeued = [(1, 7)] ∧ state.pool.tasks = [] ∧ Orderly state := by
  have hstart : Reaches true (start 2 Unit Nat) (start 2 Unit Nat) :=
    Relation.ReflTransGen.refl
  have hreach := hstart
    |>.worker 0 (.lock rfl)
    |>.worker 0 (.sleep ⟨rfl, rfl⟩)
    |>.worker 0 .wait
    |>.worker 0 (.spuriousWakeUp rfl)
    |>.worker 0 (.wakeUp rfl rfl)
    |>.worker 0 (.sleep ⟨rfl, rfl⟩)
    |>.worker 0 .wait
    |>.producer () (.call 7)
    |>.producer () (.lock rfl)
    |>.producer () .link
    |>.producer () (.count (by decide))
    |>.producer () .unlock
    |>.worker 1 (.lock rfl)
    |>.producer () (.signal 0 rfl)
    |>.worker 1 (.leave (by decide))
    |>.worker 1 (.goOn rfl)
    |>.worker 1 (.count (by decide))
    |>.worker 1 (.pop rfl)
    |>.worker 1 .unlock
  exact ⟨_, hreach, rfl, rfl, rfl, rfl, threadPool_orderly _ hreach rfl⟩

end ThreadPoolWitness

end WaterWall
