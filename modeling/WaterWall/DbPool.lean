/-
The connection pool of db.c under any number of threads.  `_db_get_conn`,
`_dbpush_free_conn_list`, `_dbenter_pool_conn_hash` and `_dbout_pool_conn_hash` each work
under one lock and are atomic; a thread runs `_dbdo` with its retry loop around them, and
what connect, send and recv answer is left open.
-/
import WaterWall.HashChains
import WaterWall.Interleaving

namespace WaterWall

open List Function

universe u

namespace DbPool

open Interleaving

/-- A connection in the pool hash, by the address of its record and its descriptor. -/
structure PoolNode where
  conn : Nat
  fd : Int
  deriving DecidableEq, Repr

/-- DB_HASH_IDX. -/
def dbHashIdx (fd : Int) : Fin 256 := HashChains.byteBucket (fd % 256).toNat

def PoolNode.bucket (node : PoolNode) : Fin 256 := dbHashIdx node.fd

/-- The global data: the records that are allocated, with their descriptors, the free list
and the pool hash with their counters. -/
structure Pool where
  heap : Nat → Option Int
  freeConnList : List Nat
  freeConnCount : Int
  poolConnHash : HashChains.Table (Fin 256) PoolNode
  poolConnCount : Int

def Pool.empty : Pool where
  heap _ := none
  freeConnList := []
  freeConnCount := 0
  poolConnHash := HashChains.empty
  poolConnCount := 0

/-- The node of a record. -/
def Pool.node (pool : Pool) (conn : Nat) : PoolNode := ⟨conn, (pool.heap conn).getD 0⟩

def Pool.dbenterPoolConnHash (pool : Pool) (conn : Nat) : Pool :=
  { pool with
    poolConnHash := HashChains.insert pool.poolConnHash (pool.node conn).bucket (pool.node conn)
    poolConnCount := pool.poolConnCount + 1 }

def Pool.dboutPoolConnHash (pool : Pool) (conn : Nat) : Pool :=
  { pool with
    poolConnHash :=
      HashChains.removeKey PoolNode.bucket id pool.poolConnHash (pool.node conn)
    poolConnCount := pool.poolConnCount - 1 }

def Pool.dbpushFreeConnList (pool : Pool) (conn : Nat) : Pool :=
  { pool with
    freeConnList := pool.freeConnList ++ [conn]
    freeConnCount := pool.freeConnCount + 1 }

/-- What the locked part of `_db_get_conn` comes to. -/
inductive Got where
  | assertFailed
  | noneFree
  | taken (conn : Nat)
  deriving DecidableEq, Repr

def Pool.dbGetConn (pool : Pool) : Got × Pool :=
  if pool.freeConnCount < 0 then (.assertFailed, pool)
  else if pool.freeConnCount = 0 then (.noneFree, pool)
  else
    match pool.freeConnList with
    | [] => (.assertFailed, pool)
    | conn :: rest =>
      (.taken conn,
        { pool with freeConnList := rest, freeConnCount := pool.freeConnCount - 1 })

/-- A record is allocated or its descriptor is set. -/
def Pool.setFd (pool : Pool) (conn : Nat) (fd : Int) : Pool :=
  { pool with heap := Function.update pool.heap conn (some fd) }

def Pool.wysFree (pool : Pool) (conn : Nat) : Pool :=
  { pool with heap := Function.update pool.heap conn none }

/-- Where a thread is in `_dbdo`, with the value of `trycnt`.  At `redo` it has the
connection that failed, if `flag` is set. -/
inductive Pc where
  | idle
  | redo (trycnt : Nat) (failed : Option Nat)
  | closing (trycnt conn : Nat)
  | getting (trycnt : Nat)
  | opening (trycnt : Nat)
  | connecting (trycnt conn : Nat)
  | entering (trycnt conn : Nat)
  | sending (trycnt conn : Nat)
  | receiving (trycnt conn : Nat)
  | pushing (trycnt conn : Nat)
  | aborted
  deriving DecidableEq, Repr

/-- A thread, with the number of attempts of its current or last `_dbdo`. -/
structure Worker where
  pc : Pc
  attempts : Nat
  deriving DecidableEq, Repr

def Got.pc (trycnt : Nat) : Got → Pc
  | .assertFailed => .aborted
  | .noneFree => .opening trycnt
  | .taken conn => .sending trycnt conn

/-- One atomic step of a thread. -/
inductive Act : Pool → Worker → Pool → Worker → Prop where
  | call {pool n} : Act pool ⟨.idle, n⟩ pool ⟨.redo 0 none, 0⟩
  | giveUp {pool n trycnt} (htry : 3 < trycnt) :
      Act pool ⟨.redo trycnt none, n⟩ pool ⟨.idle, n⟩
  | retry {pool n trycnt} (htry : ¬3 < trycnt) :
      Act pool ⟨.redo trycnt none, n⟩ pool ⟨.getting (trycnt + 1), n⟩
  | out {pool n trycnt conn} :
      Act pool ⟨.redo trycnt (some conn), n⟩ (pool.dboutPoolConnHash conn)
        ⟨.closing trycnt conn, n⟩
  | close {pool n trycnt conn} :
      Act pool ⟨.closing trycnt conn, n⟩ (pool.wysFree conn) ⟨.redo trycnt none, n⟩
  | get {pool n trycnt} :
      Act pool ⟨.getting trycnt, n⟩ pool.dbGetConn.2 ⟨pool.dbGetConn.1.pc trycnt, n + 1⟩
  | noMemory {pool n trycnt} : Act pool ⟨.opening trycnt, n⟩ pool ⟨.idle, n⟩
  | alloc {pool n trycnt conn} (hfresh : pool.heap conn = none) :
      Act pool ⟨.opening trycnt, n⟩ (pool.setFd conn 0) ⟨.connecting trycnt conn, n⟩
  | noConnect {pool n trycnt conn} :
      Act pool ⟨.connecting trycnt conn, n⟩ (pool.wysFree conn) ⟨.idle, n⟩
  | connect {pool n trycnt conn} (fd : Int) :
      Act pool ⟨.connecting trycnt conn, n⟩ (pool.setFd conn fd) ⟨.entering trycnt conn, n⟩
  | enter {pool n trycnt conn} :
      Act pool ⟨.entering trycnt conn, n⟩ (pool.dbenterPoolConnHash conn)
        ⟨.sending trycnt conn, n⟩
  | sent {pool n trycnt conn} :
      Act pool ⟨.sending trycnt conn, n⟩ pool ⟨.receiving trycnt conn, n⟩
  | sendFailed {pool n trycnt conn} :
      Act pool ⟨.sending trycnt conn, n⟩ pool ⟨.redo trycnt (some conn), n⟩
  | received {pool n trycnt conn} :
      Act pool ⟨.receiving trycnt conn, n⟩ pool ⟨.pushing trycnt conn, n⟩
  | recvFailed {pool n trycnt conn} :
      Act pool ⟨.receiving trycnt conn, n⟩ pool ⟨.redo trycnt (some conn), n⟩
  | push {pool n trycnt conn} :
      Act pool ⟨.pushing trycnt conn, n⟩ (pool.dbpushFreeConnList conn) ⟨.idle, n⟩

/-- The connection that a thread works on. -/
def Pc.held : Pc → Option Nat
  | .redo _ failed => failed
  | .closing _ conn => some conn
  | .connecting _ conn => some conn
  | .entering _ conn => some conn
  | .sending _ conn => some conn
  | .receiving _ conn => some conn
  | .pushing _ conn => some conn
  | _ => none

/-- The connection that a thread works on is in the pool hash. -/
def Pc.inHash : Pc → Bool
  | .closing _ _ => false
  | .connecting _ _ => false
  | .entering _ _ => false
  | _ => true

abbrev State (ι : Type u) := Config ι Pool Worker

/-- All threads before their first call, after `dbinit`. -/
def start (ι : Type u) : State ι := ⟨Pool.empty, fun _ => ⟨.idle, 0⟩⟩

def step {ι : Type u} (_ : ι) : Pool → Worker → Pool → Worker → Prop := Act

/-- The record of a connection is in the pool hash. -/
def Pool.registered (pool : Pool) (node : PoolNode) : Bool :=
  (HashChains.lookup PoolNode.bucket id pool.poolConnHash node).isSome

def Pool.live (pool : Pool) (conn : Nat) : Prop := (pool.heap conn).isSome

/-- `trycnt` counts the attempts, and `_dbdo` stops after four. -/
def Worker.Tried (worker : Worker) : Prop :=
  match worker.pc with
  | .idle => worker.attempts ≤ 4
  | .getting trycnt => worker.attempts < trycnt ∧ trycnt ≤ 4
  | .redo trycnt _ => worker.attempts ≤ trycnt ∧ trycnt ≤ 4
  | .closing trycnt _ => worker.attempts ≤ trycnt ∧ trycnt ≤ 4
  | .opening trycnt => worker.attempts ≤ trycnt ∧ trycnt ≤ 4
  | .connecting trycnt _ => worker.attempts ≤ trycnt ∧ trycnt ≤ 4
  | .entering trycnt _ => worker.attempts ≤ trycnt ∧ trycnt ≤ 4
  | .sending trycnt _ => worker.attempts ≤ trycnt ∧ trycnt ≤ 4
  | .receiving trycnt _ => worker.attempts ≤ trycnt ∧ trycnt ≤ 4
  | .pushing trycnt _ => worker.attempts ≤ trycnt ∧ trycnt ≤ 4
  | .aborted => False

section Invariant

variable {ι : Type u}

def held (threads : ι → Worker) (i : ι) : Option Nat := (threads i).pc.held

/-- What holds between any two steps. -/
structure Inv (pool : Pool) (threads : ι → Worker) : Prop where
  custody : Custody pool.live (held threads) pool.freeConnList
  freeCount : pool.freeConnCount = pool.freeConnList.length
  keyed : HashChains.Keyed PoolNode.bucket id pool.poolConnHash
  poolCount : pool.poolConnCount = HashChains.weight (fun _ => (1 : Int)) pool.poolConnHash
  registered_live : ∀ node, pool.registered node → pool.heap node.conn = some node.fd
  registered_held : ∀ i conn, held threads i = some conn →
    pool.registered (pool.node conn) = (threads i).pc.inHash
  registered_free : ∀ conn ∈ pool.freeConnList, pool.registered (pool.node conn)
  tried : ∀ i, (threads i).Tried

theorem inv_start : Inv (start ι).shared (start ι).threads where
  custody := by
    have hnone : Pool.live Pool.empty = fun _ => False := by
      funext conn
      simp [Pool.live, Pool.empty]
    change Custody (Pool.live Pool.empty) (fun _ => none) []
    rw [hnone]
    exact custody_none
  freeCount := rfl
  keyed := HashChains.keyed_empty
  poolCount := HashChains.weight_empty.symm
  registered_live node hnode := by simp [Pool.registered, start, Pool.empty] at hnode
  registered_held i conn hheld := by simp [held, start, Pc.held] at hheld
  registered_free conn hconn := by simp [start, Pool.empty] at hconn
  tried i := Nat.zero_le 4

variable {pool : Pool} {threads : ι → Worker} {i : ι} {worker : Worker} {conn : Nat}

theorem Inv.node_eq (hinv : Inv pool threads) {node : PoolNode} (hnode : pool.registered node) :
    pool.node node.conn = node := by
  rw [Pool.node, hinv.registered_live node hnode]
  rfl

theorem Inv.not_registered (hinv : Inv pool threads) (hheld : (threads i).pc.held = some conn)
    (hhash : (threads i).pc.inHash = false) {node : PoolNode} (hnode : pool.registered node) :
    node.conn ≠ conn := by
  rintro rfl
  have hreg := (hinv.registered_held i node.conn hheld).trans hhash
  rw [hinv.node_eq hnode, hnode] at hreg
  cases hreg

theorem Inv.other_ne (hinv : Inv pool threads) (hheld : (threads i).pc.held = some conn) {j : ι}
    {other : Nat} (hne : j ≠ i) (hother : held threads j = some other) : other ≠ conn := by
  rintro rfl
  exact hne (hinv.custody.exclusive j i other hother hheld)

theorem Inv.free_ne (hinv : Inv pool threads) (hheld : (threads i).pc.held = some conn)
    {other : Nat} (hother : other ∈ pool.freeConnList) : other ≠ conn := by
  rintro rfl
  exact hinv.custody.apart i other hheld hother

theorem Inv.registered_out (hinv : Inv pool threads) (node : PoolNode) :
    (pool.dboutPoolConnHash conn).registered node =
      (!decide (node = pool.node conn) && pool.registered node) := by
  have hlookup : HashChains.lookup PoolNode.bucket id
      (pool.dboutPoolConnHash conn).poolConnHash node = _ :=
    hinv.keyed.lookup_removeKey node
  rw [Pool.registered, hlookup]
  split_ifs with hsame
  · simp [hsame]
  · simp [hsame, Pool.registered]

theorem Inv.dbGetConn_cases (hinv : Inv pool threads) :
    (pool.freeConnList = [] ∧ pool.dbGetConn = (.noneFree, pool)) ∨
      ∃ conn rest, pool.freeConnList = conn :: rest ∧ pool.dbGetConn =
        (.taken conn,
          { pool with freeConnList := rest, freeConnCount := pool.freeConnCount - 1 }) := by
  have hcount := hinv.freeCount
  cases hfree : pool.freeConnList with
  | nil =>
    rw [hfree] at hcount
    have hzero : pool.freeConnCount = 0 := hcount
    exact .inl ⟨rfl, by simp [Pool.dbGetConn, hzero]⟩
  | cons conn rest =>
    rw [hfree, length_cons] at hcount
    refine .inr ⟨conn, rest, rfl, ?_⟩
    rw [Pool.dbGetConn, if_neg (by omega), if_neg (by omega), hfree]

variable [DecidableEq ι]

theorem held_update_eq (threads : ι → Worker) (i : ι) (worker : Worker) :
    held (Function.update threads i worker) =
      Function.update (held threads) i worker.pc.held := by
  funext j
  simp only [held, update_apply]
  split_ifs <;> rfl

theorem held_other {j : ι} {conn : Nat}
    (hheld : held (Function.update threads i worker) j = some conn) :
    (j = i ∧ worker.pc.held = some conn) ∨ (j ≠ i ∧ held threads j = some conn) := by
  rw [held_update_eq] at hheld
  exact held_update hheld

theorem Inv.quiet (hinv : Inv pool threads) (hheld : worker.pc.held = (threads i).pc.held)
    (hhash : worker.pc.held.isSome → worker.pc.inHash = (threads i).pc.inHash)
    (htried : worker.Tried) : Inv pool (Function.update threads i worker) where
  custody := by
    rw [held_update_eq, hheld]
    exact hinv.custody.keep i
  freeCount := hinv.freeCount
  keyed := hinv.keyed
  poolCount := hinv.poolCount
  registered_live := hinv.registered_live
  registered_held j conn hother := by
    rcases held_other hother with ⟨rfl, hown⟩ | ⟨hne, hold⟩
    · rw [update_self, hhash (by rw [hown]; rfl)]
      exact hinv.registered_held j conn (hheld.symm.trans hown)
    · rw [update_of_ne hne]
      exact hinv.registered_held j conn hold
  registered_free := hinv.registered_free
  tried := forall_update hinv.tried htried

section Steps

theorem live_setFd (fd : Int) :
    (pool.setFd conn fd).live = fun other => other = conn ∨ pool.live other := by
  funext other
  simp only [Pool.live, Pool.setFd, update_apply, eq_iff_iff]
  split_ifs with hother <;> simp [hother]

theorem live_wysFree : (pool.wysFree conn).live = fun other => other ≠ conn ∧ pool.live other := by
  funext other
  simp only [Pool.live, Pool.wysFree, update_apply, eq_iff_iff]
  split_ifs with hother <;> simp [hother]

theorem node_setFd {other : Nat} (hother : other ≠ conn) (fd : Int) :
    (pool.setFd conn fd).node other = pool.node other := by
  simp [Pool.node, Pool.setFd, hother]

theorem node_wysFree {other : Nat} (hother : other ≠ conn) :
    (pool.wysFree conn).node other = pool.node other := by
  simp [Pool.node, Pool.wysFree, hother]

theorem Inv.take (hinv : Inv pool threads) {rest : List Nat}
    (hfree : pool.freeConnList = conn :: rest) (hnone : (threads i).pc.held = none)
    (hheld : worker.pc.held = some conn) (hhash : worker.pc.inHash = true)
    (htried : worker.Tried) :
    Inv { pool with freeConnList := rest, freeConnCount := pool.freeConnCount - 1 }
      (Function.update threads i worker) where
  custody := by
    have hcustody := hinv.custody
    rw [hfree] at hcustody
    rw [held_update_eq, hheld]
    exact hcustody.take hnone
  freeCount := by
    have hcount := hinv.freeCount
    rw [hfree, length_cons] at hcount
    change pool.freeConnCount - 1 = (rest.length : Int)
    omega
  keyed := hinv.keyed
  poolCount := hinv.poolCount
  registered_live := hinv.registered_live
  registered_held j other hother := by
    rcases held_other hother with ⟨rfl, hown⟩ | ⟨hne, hold⟩
    · rw [update_self, hhash]
      obtain rfl := Option.some.inj (hheld.symm.trans hown)
      exact hinv.registered_free conn (by rw [hfree]; exact mem_cons_self)
    · rw [update_of_ne hne]
      exact hinv.registered_held j other hold
  registered_free other hother :=
    hinv.registered_free other (by rw [hfree]; exact mem_cons_of_mem conn hother)
  tried := forall_update hinv.tried htried

theorem Inv.push (hinv : Inv pool threads) (hheld : (threads i).pc.held = some conn)
    (hhash : (threads i).pc.inHash = true) (hnone : worker.pc.held = none)
    (htried : worker.Tried) :
    Inv (pool.dbpushFreeConnList conn) (Function.update threads i worker) where
  custody := by
    rw [held_update_eq, hnone]
    exact hinv.custody.put hheld
  freeCount := by
    have hcount := hinv.freeCount
    change pool.freeConnCount + 1 = ((pool.freeConnList ++ [conn]).length : Int)
    rw [length_append, length_singleton]
    omega
  keyed := hinv.keyed
  poolCount := hinv.poolCount
  registered_live := hinv.registered_live
  registered_held j other hother := by
    rcases held_other hother with ⟨_, hown⟩ | ⟨hne, hold⟩
    · rw [hnone] at hown
      cases hown
    · rw [update_of_ne hne]
      exact hinv.registered_held j other hold
  registered_free other hother := by
    rcases mem_append.mp hother with hmem | hsame
    · exact hinv.registered_free other hmem
    · obtain rfl := mem_singleton.mp hsame
      exact (hinv.registered_held i other hheld).trans hhash
  tried := forall_update hinv.tried htried

theorem Inv.alloc (hinv : Inv pool threads) (hfresh : pool.heap conn = none)
    (hnone : (threads i).pc.held = none) (hheld : worker.pc.held = some conn)
    (hhash : worker.pc.inHash = false) (htried : worker.Tried) (fd : Int) :
    Inv (pool.setFd conn fd) (Function.update threads i worker) := by
  have hdead : ¬pool.live conn := by simp [Pool.live, hfresh]
  have hnode : ∀ node, pool.registered node → node.conn ≠ conn := by
    rintro node hnode rfl
    rw [hinv.registered_live node hnode] at hfresh
    cases hfresh
  constructor
  case custody =>
    rw [held_update_eq, hheld, live_setFd]
    exact hinv.custody.create hnone hdead
  case freeCount => exact hinv.freeCount
  case keyed => exact hinv.keyed
  case poolCount => exact hinv.poolCount
  case registered_live =>
    intro node hreg
    change Function.update pool.heap conn (some fd) node.conn = some node.fd
    rw [update_of_ne (hnode node hreg)]
    exact hinv.registered_live node hreg
  case registered_held =>
    intro j other hother
    rcases held_other hother with ⟨rfl, hown⟩ | ⟨hne, hold⟩
    · rw [update_self, hhash]
      obtain rfl := Option.some.inj (hheld.symm.trans hown)
      rw [← Bool.not_eq_true]
      exact fun hreg => hnode _ hreg rfl
    · have hne' : other ≠ conn := by
        rintro rfl
        exact hdead (hinv.custody.held_live j other hold)
      rw [update_of_ne hne, node_setFd hne']
      exact hinv.registered_held j other hold
  case registered_free =>
    intro other hother
    have hne : other ≠ conn := by
      rintro rfl
      exact hdead (hinv.custody.pool_live other hother)
    rw [node_setFd hne]
    exact hinv.registered_free other hother
  case tried => exact forall_update hinv.tried htried

theorem Inv.connect (hinv : Inv pool threads) (hheld : (threads i).pc.held = some conn)
    (hhash : (threads i).pc.inHash = false) (hheld' : worker.pc.held = some conn)
    (hhash' : worker.pc.inHash = false) (htried : worker.Tried) (fd : Int) :
    Inv (pool.setFd conn fd) (Function.update threads i worker) := by
  have hlive := hinv.custody.held_live i conn hheld
  constructor
  case custody =>
    have hsame : (fun other => other = conn ∨ pool.live other) = pool.live := by
      grind
    rw [held_update_eq, hheld', live_setFd, hsame, ← hheld]
    exact hinv.custody.keep i
  case freeCount => exact hinv.freeCount
  case keyed => exact hinv.keyed
  case poolCount => exact hinv.poolCount
  case registered_live =>
    intro node hreg
    change Function.update pool.heap conn (some fd) node.conn = some node.fd
    rw [update_of_ne (hinv.not_registered hheld hhash hreg)]
    exact hinv.registered_live node hreg
  case registered_held =>
    intro j other hother
    rcases held_other hother with ⟨rfl, hown⟩ | ⟨hne, hold⟩
    · rw [update_self, hhash']
      obtain rfl := Option.some.inj (hheld'.symm.trans hown)
      rw [← Bool.not_eq_true]
      exact fun hreg => hinv.not_registered hheld hhash hreg rfl
    · rw [update_of_ne hne, node_setFd (hinv.other_ne hheld hne hold)]
      exact hinv.registered_held j other hold
  case registered_free =>
    intro other hother
    rw [node_setFd (hinv.free_ne hheld hother)]
    exact hinv.registered_free other hother
  case tried => exact forall_update hinv.tried htried

theorem Inv.wysFree (hinv : Inv pool threads) (hheld : (threads i).pc.held = some conn)
    (hhash : (threads i).pc.inHash = false) (hnone : worker.pc.held = none)
    (htried : worker.Tried) :
    Inv (pool.wysFree conn) (Function.update threads i worker) := by
  constructor
  case custody =>
    rw [held_update_eq, hnone, live_wysFree]
    exact hinv.custody.destroy hheld
  case freeCount => exact hinv.freeCount
  case keyed => exact hinv.keyed
  case poolCount => exact hinv.poolCount
  case registered_live =>
    intro node hreg
    change Function.update pool.heap conn none node.conn = some node.fd
    rw [update_of_ne (hinv.not_registered hheld hhash hreg)]
    exact hinv.registered_live node hreg
  case registered_held =>
    intro j other hother
    rcases held_other hother with ⟨_, hown⟩ | ⟨hne, hold⟩
    · rw [hnone] at hown
      cases hown
    · rw [update_of_ne hne, node_wysFree (hinv.other_ne hheld hne hold)]
      exact hinv.registered_held j other hold
  case registered_free =>
    intro other hother
    rw [node_wysFree (hinv.free_ne hheld hother)]
    exact hinv.registered_free other hother
  case tried => exact forall_update hinv.tried htried

theorem registered_enter (node : PoolNode) :
    (pool.dbenterPoolConnHash conn).registered node =
      (decide (node = pool.node conn) || pool.registered node) := by
  have hlookup : HashChains.lookup PoolNode.bucket id
      (pool.dbenterPoolConnHash conn).poolConnHash node = _ :=
    HashChains.lookup_insert (pool.node conn) node
  rw [Pool.registered, hlookup]
  grind [Pool.registered]

theorem Inv.enter (hinv : Inv pool threads) (hheld : (threads i).pc.held = some conn)
    (hhash : (threads i).pc.inHash = false) (hheld' : worker.pc.held = some conn)
    (hhash' : worker.pc.inHash = true) (htried : worker.Tried) :
    Inv (pool.dbenterPoolConnHash conn) (Function.update threads i worker) := by
  have hlive := hinv.custody.held_live i conn hheld
  obtain ⟨fd, hfd⟩ := Option.isSome_iff_exists.mp hlive
  have hreg := (hinv.registered_held i conn hheld).trans hhash
  constructor
  case custody =>
    rw [held_update_eq, hheld', ← hheld]
    exact hinv.custody.keep i
  case freeCount => exact hinv.freeCount
  case keyed =>
    apply hinv.keyed.insert (pool.node conn)
    rwa [Pool.registered, ← Bool.not_eq_true, Bool.not_eq_true, Option.isSome_eq_false_iff,
      Option.isNone_iff_eq_none] at hreg
  case poolCount =>
    change pool.poolConnCount + 1 = _
    rw [hinv.poolCount, ← HashChains.weight_insert]
    rfl
  case registered_live =>
    intro node hnode
    rw [registered_enter, Bool.or_eq_true, decide_eq_true_eq] at hnode
    rcases hnode with rfl | hnode
    · change pool.heap conn = some ((pool.heap conn).getD 0)
      rw [hfd]
      rfl
    · exact hinv.registered_live node hnode
  case registered_held =>
    intro j other hother
    change (pool.dbenterPoolConnHash conn).registered (pool.node other) = _
    rw [registered_enter]
    rcases held_other hother with ⟨rfl, hown⟩ | ⟨hne, hold⟩
    · grind
    · have hne' : pool.node other ≠ pool.node conn := fun hsame =>
        hinv.other_ne hheld hne hold (congrArg PoolNode.conn hsame)
      rw [update_of_ne hne, decide_eq_false hne', Bool.false_or]
      exact hinv.registered_held j other hold
  case registered_free =>
    intro other hother
    change (pool.dbenterPoolConnHash conn).registered (pool.node other) = true
    rw [registered_enter, hinv.registered_free other hother, Bool.or_true]
  case tried => exact forall_update hinv.tried htried

theorem Inv.out (hinv : Inv pool threads) (hheld : (threads i).pc.held = some conn)
    (hhash : (threads i).pc.inHash = true) (hheld' : worker.pc.held = some conn)
    (hhash' : worker.pc.inHash = false) (htried : worker.Tried) :
    Inv (pool.dboutPoolConnHash conn) (Function.update threads i worker) := by
  have hreg := (hinv.registered_held i conn hheld).trans hhash
  obtain ⟨found, hfound⟩ := Option.isSome_iff_exists.mp hreg
  constructor
  case custody =>
    rw [held_update_eq, hheld', ← hheld]
    exact hinv.custody.keep i
  case freeCount => exact hinv.freeCount
  case keyed => exact hinv.keyed.removeKey
  case poolCount =>
    have hweight : _ = HashChains.weight (fun _ => (1 : Int)) pool.poolConnHash :=
      HashChains.weight_removeKey hfound
    change pool.poolConnCount - 1 = HashChains.weight (fun _ => (1 : Int))
      (HashChains.removeKey PoolNode.bucket id pool.poolConnHash (pool.node conn))
    rw [hinv.poolCount]
    omega
  case registered_live =>
    intro node hnode
    rw [hinv.registered_out, Bool.and_eq_true] at hnode
    exact hinv.registered_live node hnode.2
  case registered_held =>
    intro j other hother
    change (pool.dboutPoolConnHash conn).registered (pool.node other) = _
    rw [hinv.registered_out]
    rcases held_other hother with ⟨rfl, hown⟩ | ⟨hne, hold⟩
    · grind
    · have hne' : pool.node other ≠ pool.node conn := fun hsame =>
        hinv.other_ne hheld hne hold (congrArg PoolNode.conn hsame)
      rw [update_of_ne hne, decide_eq_false hne', Bool.not_false, Bool.true_and]
      exact hinv.registered_held j other hold
  case registered_free =>
    intro other hother
    have hne : pool.node other ≠ pool.node conn := fun hsame =>
      hinv.free_ne hheld hother (congrArg PoolNode.conn hsame)
    change (pool.dboutPoolConnHash conn).registered (pool.node other) = true
    rw [hinv.registered_out, decide_eq_false hne, hinv.registered_free other hother]
    rfl
  case tried => exact forall_update hinv.tried htried

theorem Inv.act (hinv : Inv pool threads) {next : Pool}
    (hact : Act pool (threads i) next worker) :
    Inv next (Function.update threads i worker) := by
  have htried := hinv.tried i
  generalize hold : threads i = old at hact htried
  have hheld : (threads i).pc.held = old.pc.held := by rw [hold]
  have hhash : (threads i).pc.inHash = old.pc.inHash := by rw [hold]
  cases hact with
  | call => exact hinv.quiet hheld.symm (fun hsome => nomatch hsome) ⟨le_rfl, by omega⟩
  | giveUp _ => exact hinv.quiet hheld.symm (fun hsome => nomatch hsome) (htried.1.trans htried.2)
  | retry htry =>
    exact hinv.quiet hheld.symm (fun hsome => nomatch hsome)
      ⟨Nat.lt_succ_of_le htried.1, by omega⟩
  | out => exact hinv.out hheld hhash rfl rfl htried
  | close => exact hinv.wysFree hheld hhash rfl htried
  | get =>
    obtain ⟨hlt, hle⟩ := htried
    rcases hinv.dbGetConn_cases with ⟨_, hget⟩ | ⟨conn, rest, hfree, hget⟩
    · rw [hget]
      exact hinv.quiet hheld.symm (fun hsome => nomatch hsome) ⟨hlt, hle⟩
    · rw [hget]
      exact hinv.take hfree hheld rfl rfl ⟨hlt, hle⟩
  | noMemory =>
    exact hinv.quiet hheld.symm (fun hsome => nomatch hsome) (htried.1.trans htried.2)
  | alloc hfresh =>
    refine hinv.alloc hfresh hheld rfl rfl ?_ 0
    exact htried
  | noConnect => exact hinv.wysFree hheld hhash rfl (htried.1.trans htried.2)
  | connect fd =>
    refine hinv.connect hheld hhash rfl rfl ?_ fd
    exact htried
  | enter => exact hinv.enter hheld hhash rfl rfl htried
  | sent => exact hinv.quiet hheld.symm (fun _ => hhash.symm) htried
  | sendFailed => exact hinv.quiet hheld.symm (fun _ => hhash.symm) htried
  | received => exact hinv.quiet hheld.symm (fun _ => hhash.symm) htried
  | recvFailed => exact hinv.quiet hheld.symm (fun _ => hhash.symm) htried
  | push => exact hinv.push hheld hhash rfl (htried.1.trans htried.2)

end Steps

end Invariant

/-- Connections are with one user each, the counters are right, no assertion has failed and
no call has made a fifth attempt. -/
structure Exclusive {ι : Type u} (state : State ι) : Prop where
  one_owner : ∀ conn, (state.shared.heap conn).isSome →
    (state.shared.freeConnList.count conn = 0 ∧ ∃! i, (state.threads i).pc.held = some conn) ∨
      (state.shared.freeConnList.count conn = 1 ∧
        ∀ i, (state.threads i).pc.held ≠ some conn)
  free_live : ∀ conn ∈ state.shared.freeConnList, (state.shared.heap conn).isSome
  held_live : ∀ i conn, (state.threads i).pc.held = some conn →
    (state.shared.heap conn).isSome
  freeCount : state.shared.freeConnCount = state.shared.freeConnList.length
  poolCount : state.shared.poolConnCount =
    HashChains.weight (fun _ => (1 : Int)) state.shared.poolConnHash
  registered_once : ∀ bucket, ∀ node ∈ state.shared.poolConnHash bucket,
    bucket = dbHashIdx node.fd ∧ state.shared.heap node.conn = some node.fd ∧
      HashChains.occurrences PoolNode.conn state.shared.poolConnHash node.conn = 1
  asserted : ∀ i, (state.threads i).pc ≠ .aborted
  attempts : ∀ i, (state.threads i).attempts ≤ 4

theorem Worker.Tried.attempts_le {worker : Worker} (htried : worker.Tried) :
    worker.attempts ≤ 4 := by
  rcases worker with ⟨pc, n⟩
  cases pc with
  | idle => exact htried
  | aborted => exact htried.elim
  | getting trycnt => exact htried.1.le.trans htried.2
  | _ => exact htried.1.trans htried.2

theorem Inv.exclusive {ι : Type u} {state : State ι} (hinv : Inv state.shared state.threads) :
    Exclusive state where
  one_owner conn hlive := by
    have hcustody := hinv.custody
    rcases hcustody.owned conn hlive with hmem | ⟨i, hheld⟩
    · refine .inr ⟨count_eq_one_of_mem hcustody.nodup hmem, ?_⟩
      exact fun i hheld => hcustody.apart i conn hheld hmem
    · refine .inl ⟨count_eq_zero_of_not_mem (hcustody.apart i conn hheld), i, hheld, ?_⟩
      exact fun j hj => hcustody.exclusive j i conn hj hheld
  free_live := hinv.custody.pool_live
  held_live := hinv.custody.held_live
  freeCount := hinv.freeCount
  poolCount := hinv.poolCount
  registered_once bucket node hnode := by
    have hregistered : ∀ bucket, ∀ other ∈ state.shared.poolConnHash bucket,
        state.shared.registered other := by
      intro bucket other hother
      have hplaced := hinv.keyed.placed bucket other hother
      subst hplaced
      exact Option.isSome_iff_exists.mpr
        ⟨other, hinv.keyed.lookup_eq_some_iff.mpr ⟨hother, rfl⟩⟩
    refine ⟨(hinv.keyed.placed bucket node hnode).symm,
      hinv.registered_live node (hregistered bucket node hnode), ?_⟩
    have hsame : HashChains.occurrences PoolNode.conn state.shared.poolConnHash node.conn =
        HashChains.occurrences id state.shared.poolConnHash node := by
      apply HashChains.weight_congr
      intro place other hother
      have hiff : other.conn = node.conn ↔ id other = node := by
        constructor
        · intro hconn
          rw [id, ← hinv.node_eq (hregistered place other hother), hconn,
            hinv.node_eq (hregistered bucket node hnode)]
        · exact fun hnode => congrArg PoolNode.conn hnode
      simp only [hiff]
    rw [hsame, hinv.keyed.occurrences_eq]
    exact if_pos (hregistered bucket node hnode)
  asserted i haborted := by
    have htried := hinv.tried i
    rw [Worker.Tried, haborted] at htried
    exact htried
  attempts i := (hinv.tried i).attempts_le

end DbPool

/-- In every interleaving of any threads the pool stays exclusive. -/
theorem dbPool_exclusive {ι : Type u} [DecidableEq ι] (state : DbPool.State ι)
    (hreach : Interleaving.Reachable DbPool.step (DbPool.start ι) state) :
    DbPool.Exclusive state := by
  apply DbPool.Inv.exclusive
  exact hreach.invariant (P := fun config => DbPool.Inv config.shared config.threads)
    DbPool.inv_start fun _ _ _ _ hinv hact => hinv.act hact

namespace DbPoolWitness

open DbPool Interleaving

/-- One of two threads connects, loses the connection and is about to destroy it while the
other one connects. -/
theorem exclusive_twoThreads :
    ∃ state : DbPool.State Bool, Reachable DbPool.step (DbPool.start Bool) state ∧
      (state.threads true).pc = .closing 1 1 ∧ (state.threads false).pc = .sending 1 2 ∧
      state.shared.poolConnCount = 1 ∧ Exclusive state := by
  have hstart : Reachable DbPool.step (DbPool.start Bool) (DbPool.start Bool) := .refl
  have hreach := hstart
    |>.next true .call
    |>.next true (.retry (by decide))
    |>.next true .get
    |>.next false .call
    |>.next false (.retry (by decide))
    |>.next false .get
    |>.next true (@Act.alloc _ _ _ 1 rfl)
    |>.next true (.connect 7)
    |>.next true .enter
    |>.next false (@Act.alloc _ _ _ 2 rfl)
    |>.next false (.connect 8)
    |>.next true .sendFailed
    |>.next false .enter
    |>.next true .out
  exact ⟨_, hreach, rfl, rfl, rfl, dbPool_exclusive _ hreach⟩

end DbPoolWitness

end WaterWall
