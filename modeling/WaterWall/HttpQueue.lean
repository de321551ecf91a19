/-
The response queue of one HTTP session.  Requests put their responses into the send block and
`ses_send` takes them from its front, in any order.
-/
import WaterWall.HttpSession

namespace WaterWall

namespace Http

open ByteText HeapBlock List

/-- A session with the responses that were produced for it and how many of their bytes `send`
has accepted. -/
structure QueueState where
  session : Session
  produced : Bytes
  accepted : Nat

/-- A complete request with the way its script ends, or a `ses_send` whose `send` would take so
many bytes.  Every allocation is granted. -/
inductive QueueOp where
  | request (lua : LuaOutcome) (stale : Nat → Byte) (date : Tm)
  | send (count : ℕ+)

namespace QueueState

def step (state : QueueState) : QueueOp → Except Fault QueueState
  | .request lua stale date => do
      let handled ← sesHttpProcotolHandler state.session ⟨fun _ => true, stale⟩ lua date
      return { state with
        session := handled.session
        produced := state.produced ++ lua.response date }
  | .send count => do
      let len := min (count : Nat) state.session.sndLen
      let sent ← sesSend state.session len
      return { state with session := sent.handled.session, accepted := state.accepted + len }

/-- The unsent bytes are at the front of a block that is large enough. -/
def Exact (state : QueueState) : Prop :=
  state.session.Queues (state.produced.drop state.accepted)

/-- The queue is exact before the operations and after each of them, and all of them end. -/
def ExactAlong : QueueState → List QueueOp → Prop
  | state, [] => state.Exact
  | state, op :: ops => state.Exact ∧ ∃ next, state.step op = .ok next ∧ next.ExactAlong ops

/-- Every request meets an empty queue, and no request before it ended in an error. -/
def MeetsEmpty : QueueState → List QueueOp → Prop
  | _, [] => True
  | state, op :: ops =>
    (match op with
      | .request _ _ _ => state.session.sndLen = 0 ∧ state.session.state.luaError = false
      | .send _ => True) ∧
    ∀ next, state.step op = .ok next → next.MeetsEmpty ops

/-- More is produced than is accepted. -/
def Ahead (state : QueueState) : Prop :=
  state.accepted ≤ state.produced.length

end QueueState

/-- The script of the request gave an answer. -/
def QueueOp.Answered : QueueOp → Prop
  | .request (.answered _ _) _ _ => True
  | .request _ _ _ => False
  | .send _ => True

section Steps

variable {state : QueueState}

theorem Session.Queues.quiet {session : Session} {response : Bytes}
    (hqueues : session.Queues response) (hlen : session.sndLen = 0)
    (hlua : session.state.luaError = false) : session.Quiet := by
  have hresponse : response = [] := by
    rw [← length_eq_zero_iff, ← hqueues.len, hlen]
  exact ⟨hqueues.empty hresponse, hlen, hlua⟩

theorem QueueState.Exact.request (hexact : state.Exact) (hahead : state.Ahead)
    (hlen : state.session.sndLen = 0) (hlua : state.session.state.luaError = false)
    (lua : LuaOutcome) (stale : Nat → Byte) (date : Tm) :
    ∃ next, state.step (.request lua stale date) = .ok next ∧ next.Exact ∧ next.Ahead ∧
      (∀ data keepAlive, lua = .answered data keepAlive →
        next.session.state.luaError = false) := by
  obtain ⟨handled, hhandled, hqueues, hanswered⟩ :=
    (Session.Queues.quiet hexact hlen hlua).answered ⟨fun _ => true, stale⟩ lua date
  have hall : state.accepted = state.produced.length := by
    have hlength := hexact.len
    rw [hlen, length_drop] at hlength
    exact Nat.le_antisymm hahead (by omega)
  refine ⟨_, by simp only [QueueState.step, hhandled, bind, Except.bind]; rfl, ?_, ?_, hanswered⟩
  · rw [QueueState.Exact, hall, drop_left]
    exact hqueues fun _ => rfl
  · exact (Nat.le_of_eq hall).trans (by simp)

theorem QueueState.Exact.send (hexact : state.Exact) (hahead : state.Ahead) (count : ℕ+) :
    ∃ next, state.step (.send count) = .ok next ∧ next.Exact ∧ next.Ahead ∧
      next.session.state.luaError = state.session.state.luaError := by
  have hlen := hexact.len
  rw [length_drop] at hlen
  rcases Nat.eq_zero_or_pos state.session.sndLen with hzero | hpos
  · have hdrop : state.produced.drop state.accepted = [] := by
      rw [← length_eq_zero_iff, ← hexact.len, hzero]
    have hsent : sesSend state.session (min (count : Nat) state.session.sndLen : Nat) =
        .ok ⟨⟨0, state.session, some false⟩, []⟩ := by
      apply Session.Queues.sends_nothing
      rw [← hdrop]
      exact hexact
    refine ⟨{ state with accepted := state.accepted + min (count : Nat) state.session.sndLen },
      by simp only [QueueState.step, hsent, bind, Except.bind]; rfl, ?_, ?_, rfl⟩
    · simpa [QueueState.Exact, hzero] using hexact
    · simpa [QueueState.Ahead, hzero] using hahead
  · have hcount : 0 < min (count : Nat) state.session.sndLen := lt_min count.pos hpos
    have hle : min (count : Nat) state.session.sndLen ≤
        (state.produced.drop state.accepted).length := by
      rw [← hexact.len]
      exact Nat.min_le_right _ _
    obtain ⟨next, pollout, hsent, hqueues, -, -, hlua, -⟩ := Session.Queues.sends hexact hcount hle
    refine ⟨_, by simp only [QueueState.step, hsent, bind, Except.bind]; rfl, ?_, ?_, hlua⟩
    · rw [QueueState.Exact, ← drop_drop]
      exact hqueues
    · rw [QueueState.Ahead]
      dsimp only
      omega

/-- Behind bytes that wait there is never room for another answer: the block is made as large
as the answer alone. -/
theorem Session.Queues.queue_breaks {session : Session} {response : Bytes}
    (hqueues : session.Queues response) (hresponse : response ≠ []) (memory : Memory)
    (data : Bytes) :
    (∃ fault, session.queue memory data = .error fault) ∨
      session.queue memory data = .ok (-1, { session with sndBuf := none }) := by
  have hwaits : 0 < session.sndLen := by
    rw [hqueues.len]
    exact length_pos_iff.mpr hresponse
  rw [Session.queue]
  cases hrealloc : wysRealloc memory session.sndBuf data.length with
  | error fault => exact .inl ⟨fault, rfl⟩
  | ok ptr =>
    cases ptr with
    | none => exact .inr rfl
    | some block =>
      have hlength := wysRealloc_length hrealloc
      have hwrite : writeAt block session.sndLen data = none := by
        rw [writeAt, if_neg]
        omega
      refine .inl ⟨.outsideBlock, ?_⟩
      simp only [bind, Except.bind, hwrite]
      rfl

theorem QueueState.Exact.answer_breaks (hexact : state.Exact)
    (hwaits : state.session.sndLen ≠ 0) {data : Bytes} {keepAlive : Bool} {stale : Nat → Byte}
    {date : Tm} {next : QueueState}
    (hstep : state.step (.request (.answered data keepAlive) stale date) = .ok next) :
    ¬next.Exact := by
  have hresponse : state.produced.drop state.accepted ≠ [] := by
    rw [Ne, ← length_eq_zero_iff, ← hexact.len]
    exact hwaits
  have hqueues : Session.Queues
      { state.session.forgetInput with
        state := { state.session.state with
          keepAlive := state.session.state.keepAlive || keepAlive } }
      (state.produced.drop state.accepted) := ⟨hexact.len, hexact.block, hexact.empty⟩
  intro hafter
  rcases hqueues.queue_breaks hresponse ⟨fun _ => true, stale⟩ data with
    ⟨fault, hfault⟩ | hnone
  · have haccess : luaAccess state.session ⟨fun _ => true, stale⟩ (.answered data keepAlive) =
        .error fault := hfault
    simp [QueueState.step, sesHttpProcotolHandler, haccess, bind, Except.bind] at hstep
  · -- the block is gone, but not what is counted in it
    have haccess : luaAccess state.session ⟨fun _ => true, stale⟩ (.answered data keepAlive) =
        .ok (-1, _) := hnone
    simp only [QueueState.step, sesHttpProcotolHandler, haccess, bind, Except.bind] at hstep
    cases hstep
    have hroom := hafter.block.length_le
    rw [← hafter.len] at hroom
    exact hwaits (Nat.le_zero.mp hroom)

end Steps

section Runs

variable {state : QueueState} {ops : List QueueOp}

theorem QueueState.Exact.along (hexact : state.Exact) (hahead : state.Ahead)
    (hmeets : state.MeetsEmpty ops) : state.ExactAlong ops := by
  induction ops generalizing state with
  | nil => exact hexact
  | cons op ops ih =>
    obtain ⟨hmeet, hrest⟩ := hmeets
    refine ⟨hexact, ?_⟩
    cases op with
    | request lua stale date =>
      obtain ⟨next, hstep, hnext, hahead, -⟩ :=
        hexact.request hahead hmeet.1 hmeet.2 lua stale date
      exact ⟨next, hstep, ih hnext hahead (hrest next hstep)⟩
    | send count =>
      obtain ⟨next, hstep, hnext, hahead, -⟩ := hexact.send hahead count
      exact ⟨next, hstep, ih hnext hahead (hrest next hstep)⟩

theorem QueueState.ExactAlong.head (halong : state.ExactAlong ops) : state.Exact := by
  cases ops with
  | nil => exact halong
  | cons op ops => exact halong.1

theorem QueueState.ExactAlong.meetsEmpty (halong : state.ExactAlong ops) (hahead : state.Ahead)
    (hlua : state.session.state.luaError = false) (hanswered : ∀ op ∈ ops, op.Answered) :
    state.MeetsEmpty ops := by
  induction ops generalizing state with
  | nil => trivial
  | cons op ops ih =>
    obtain ⟨hexact, next, hstep, hrest⟩ := halong
    have hothers : ∀ op ∈ ops, op.Answered := fun op hop =>
      hanswered op (mem_cons_of_mem _ hop)
    have hop : op.Answered := hanswered op mem_cons_self
    cases op with
    | request lua stale date =>
      cases lua with
      | loadFailed => exact hop.elim
      | raised message => exact hop.elim
      | answered data keepAlive =>
        have hempty : state.session.sndLen = 0 := by
          by_contra hwaits
          exact hexact.answer_breaks hwaits hstep hrest.head
        obtain ⟨other, hother, -, hahead, hstays⟩ :=
          hexact.request hahead hempty hlua (.answered data keepAlive) stale date
        refine ⟨⟨hempty, hlua⟩, fun last hlast => ?_⟩
        cases hstep.symm.trans hother
        cases hother.symm.trans hlast
        exact ih hrest hahead (hstays data keepAlive rfl) hothers
    | send count =>
      obtain ⟨other, hother, -, hahead, hstays⟩ := hexact.send hahead count
      refine ⟨trivial, fun last hlast => ?_⟩
      grind

end Runs

/-- A session before its first request. -/
def QueueState.start (fid : Int) (sid pid : BitVec 32) : QueueState :=
  ⟨newSession fid sid pid, [], 0⟩

/-- The queue of a session is exact along any requests and sends in which every request meets an
empty queue and no earlier error; if no script fails, then only along these. -/
theorem responseQueue_exact (fid : Int) (sid pid : BitVec 32) (ops : List QueueOp) :
    ((QueueState.start fid sid pid).MeetsEmpty ops →
      (QueueState.start fid sid pid).ExactAlong ops) ∧
    ((∀ op ∈ ops, op.Answered) → (QueueState.start fid sid pid).ExactAlong ops →
      (QueueState.start fid sid pid).MeetsEmpty ops) := by
  have hexact : (QueueState.start fid sid pid).Exact := ⟨rfl, ⟨rfl, rfl⟩, fun _ => rfl⟩
  have hahead : (QueueState.start fid sid pid).Ahead := Nat.le_refl 0
  exact ⟨fun hmeets => hexact.along hahead hmeets,
    fun hanswered halong => halong.meetsEmpty hahead rfl hanswered⟩

namespace QueueWitness

def request (text : String) : QueueOp :=
  .request (.answered (ascii text) false) Sample.memory.stale Sample.date

/-- A request, and sends that take its response in two parts. -/
def oneRequest : List QueueOp := [request "HTTP/1.1 200 OK", .send 4, .send 20]

theorem exactAlong_oneRequest : (QueueState.start 7 0 1).ExactAlong oneRequest :=
  (responseQueue_exact 7 0 1 oneRequest).1
    ⟨⟨rfl, rfl⟩, fun _ _ => ⟨trivial, fun _ _ => ⟨trivial, fun _ _ => trivial⟩⟩⟩

/-- Two requests before the first response has been sent. -/
def pipelined : List QueueOp := [request "abc", request "de"]

theorem not_exactAlong_pipelined : ¬(QueueState.start 7 0 1).ExactAlong pipelined := by
  intro halong
  have hmeets := halong.meetsEmpty (Nat.le_refl 0) rfl
    (by simp [pipelined, request, QueueOp.Answered])
  obtain ⟨-, next, hstep, -⟩ := halong
  have hempty : next.session.sndLen = 0 := (hmeets.2 next hstep).1.1
  have hfull : next.session.sndLen = 3 := by
    cases hstep
    rfl
  omega

end QueueWitness

end Http

end WaterWall
