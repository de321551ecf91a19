/-
Sending a response from the poll loop of main.c: `an_tcp_send` hands the whole
`send_buf` to the kernel on every POLLOUT event, and `an_tcp_events_do` keeps or
drops the connection by the result.
-/
import WaterWall.ByteText

namespace WaterWall

open ByteText

universe u

/-- `errno` after a failed `send`; `other` is any value but the two ignored. -/
inductive Errno where
  | eagain | eintr | other (code : Int)
  deriving DecidableEq, Repr

def anIgnoreErrno : Errno → Int
  | .eagain => 0
  | .eintr => 0
  | .other _ => -1

/-- What a call of `send` returns. -/
inductive SendResult where
  | sent (len : Nat)
  | failed (errno : Errno)
  deriving DecidableEq, Repr

inductive SendStat where
  | error | again | finish | shutdown
  deriving DecidableEq, Repr

/-- The part of an_socket_t that the event loop uses; `rcv` is its receiving
half, which only `an_tcp_recv` looks into. -/
structure AnSocket (R : Type u) where
  sendBuf : Option Bytes
  sendLen : Nat
  rcv : R

/-- An entry of an_conn_array with the socket record of its index. -/
structure Conn (R : Type u) where
  fd : Int
  pollin : Bool
  pollout : Bool
  sock : Option (AnSocket R)

structure Revents where
  pollerr : Bool
  pollout : Bool
  pollin : Bool

variable {R : Type u}

def mSockDelWrite (conn : Conn R) : Conn R := { conn with pollout := false }

def mSockAddWrite (conn : Conn R) : Conn R := { conn with pollout := true }

/-- `an_sock_destory`: the record is freed and the poll entry cleared. -/
def anSockDestory (_ : Conn R) : Conn R :=
  { fd := -1, pollin := true, pollout := false, sock := none }

/-- The status of `an_tcp_send`, the connection after it, and the bytes that
the kernel accepted.  `outcome` is what `send` returns if it is called. -/
def anTcpSend (outcome : SendResult) (conn : Conn R) : SendStat × Conn R × Bytes :=
  match conn.sock with
  | none => (.shutdown, conn, [])
  | some sock =>
    if sock.sendLen = 0 then (.shutdown, conn, [])
    else
      match outcome with
      | .failed errno =>
        if anIgnoreErrno errno ≠ 0 then (.error, conn, [])
        else (.again, mSockAddWrite conn, [])
      | .sent len =>
        let accepted := (sock.sendBuf.getD []).take len
        if len = 0 then (.shutdown, conn, accepted)
        else if len < sock.sendLen then
          (.again, mSockDelWrite conn, accepted)
        else
          (.finish,
            { mSockDelWrite conn with
              sock := some { sock with sendBuf := none, sendLen := 0 } },
            accepted)

/-- The result of one event: the return value, the status of the send if there
was one, the connection, and the bytes accepted. -/
structure EventResult (R : Type u) where
  ret : Int
  stat : Option SendStat
  conn : Conn R
  accepted : Bytes

def anTcpEventsDo (anTcpRecv : Conn R → Int × Conn R) (revents : Revents)
    (outcome : SendResult) (conn : Conn R) : EventResult R :=
  if revents.pollerr then ⟨-1, none, anSockDestory conn, []⟩
  else if revents.pollout then
    let (stat, conn, accepted) := anTcpSend outcome conn
    match stat with
    | .finish => ⟨0, some stat, anSockDestory (mSockDelWrite conn), accepted⟩
    | .again => ⟨0, some stat, mSockAddWrite conn, accepted⟩
    | _ => ⟨0, some stat, anSockDestory conn, accepted⟩
  else if revents.pollin then
    let (ret, conn) := anTcpRecv conn
    if ret ≠ 0 then ⟨0, none, anSockDestory conn, []⟩ else ⟨0, none, conn, []⟩
  else ⟨0, none, conn, []⟩

/-- An event without an error that allows writing; reading may be possible as
well. -/
def writable (pollin : Bool) : Revents := ⟨false, true, pollin⟩

/-- One POLLOUT event for each outcome, until SEND_FINISH destroys the
connection: all bytes accepted, if the run ends so with the last outcome. -/
def deliver (anTcpRecv : Conn R → Int × Conn R) :
    Conn R → List (Bool × SendResult) → Option Bytes
  | _, [] => none
  | conn, (pollin, outcome) :: rest =>
    let result := anTcpEventsDo anTcpRecv (writable pollin) outcome conn
    match result.stat with
    | some .finish => if rest = [] then some result.accepted else none
    | some .again =>
      (deliver anTcpRecv result.conn rest).map (result.accepted ++ ·)
    | _ => none

/-- The outcomes of `send` on a healthy connection for a request of `len`
bytes. -/
def Healthy (len : Nat) : SendResult → Prop
  | .sent n => 0 < n ∧ n ≤ len
  | .failed errno => errno = .eagain ∨ errno = .eintr

/-- A response waits on the connection. -/
def Queued (buf : Bytes) (conn : Conn R) : Prop :=
  ∃ sock, conn.sock = some sock ∧ sock.sendBuf = some buf ∧
    sock.sendLen = buf.length

section Events

variable (anTcpRecv : Conn R → Int × Conn R)

/-- One POLLOUT event: a write of the whole buffer finishes the response, and
every other outcome leaves the whole buffer queued and asks for POLLOUT again. -/
theorem anTcpEventsDo_writable {buf : Bytes} (hbuf : buf ≠ []) {conn : Conn R}
    (hqueued : Queued buf conn) {outcome : SendResult}
    (hhealthy : Healthy buf.length outcome) (pollin : Bool) :
    let result := anTcpEventsDo anTcpRecv (writable pollin) outcome conn
    (outcome = .sent buf.length ∧ result.stat = some .finish ∧
        result.accepted = buf ∧ result.conn.sock = none) ∨
      (outcome ≠ .sent buf.length ∧ result.stat = some .again ∧
        Queued buf result.conn ∧ result.conn.pollout = true ∧
        result.accepted = match outcome with
          | .sent n => buf.take n
          | .failed _ => []) := by
  obtain ⟨sock, hsock, hsend, hlen⟩ := hqueued
  have hpos : buf.length ≠ 0 := by simpa using hbuf
  cases outcome with
  | failed errno =>
    right
    have hignored : anIgnoreErrno errno = 0 := by
      rcases hhealthy with rfl | rfl <;> rfl
    simp only [anTcpEventsDo, writable, anTcpSend, hsock, hlen, hpos, hignored,
      Bool.false_eq_true, ↓reduceIte, ne_eq, not_true_eq_false, reduceCtorEq,
      not_false_eq_true, mSockAddWrite, true_and, and_true]
    exact ⟨sock, rfl, hsend, hlen⟩
  | sent n =>
    obtain ⟨hn, hle⟩ := hhealthy
    have hne : n ≠ 0 := by omega
    by_cases hshort : n < buf.length
    · right
      have hincomplete : n ≠ buf.length := by omega
      simp only [anTcpEventsDo, writable, anTcpSend, hsock, hsend, hlen, hpos,
        hne, hshort, hincomplete, Bool.false_eq_true, ↓reduceIte, ne_eq,
        SendResult.sent.injEq, not_false_eq_true, mSockAddWrite, mSockDelWrite,
        Option.getD_some, true_and, and_true]
      exact ⟨sock, rfl, hsend, hlen⟩
    grind [anTcpEventsDo, writable, anTcpSend, anSockDestory]

/-- A run that ends with SEND_FINISH has given the whole buffer to the kernel
at its end, after what the short writes before it had given. -/
theorem deliver_eq {buf : Bytes} (hbuf : buf ≠ []) {conn : Conn R}
    (hqueued : Queued buf conn) {outcomes : List (Bool × SendResult)}
    (hhealthy : ∀ outcome ∈ outcomes, Healthy buf.length outcome.2)
    {accepted : Bytes} (hrun : deliver anTcpRecv conn outcomes = some accepted) :
    ∃ early, accepted = early ++ buf ∧
      (early = [] ↔ ∀ n pollin, (pollin, .sent n) ∈ outcomes → n = buf.length) := by
  induction outcomes generalizing conn accepted with
  | nil => simp [deliver] at hrun
  | cons head rest ih =>
    obtain ⟨pollin, outcome⟩ := head
    have hhead : Healthy buf.length outcome :=
      hhealthy (pollin, outcome) List.mem_cons_self
    have hrest := fun other hother =>
      hhealthy other (List.mem_cons_of_mem (pollin, outcome) hother)
    rcases anTcpEventsDo_writable anTcpRecv hbuf hqueued hhead pollin with
      ⟨hfull, hstat, haccepted, _⟩ | ⟨hincomplete, hstat, hnext, _, haccepted⟩
    · simp only [deliver, hstat, haccepted] at hrun
      simp_all
    · simp only [deliver, hstat, Option.map_eq_some_iff] at hrun
      obtain ⟨later, hlater, rfl⟩ := hrun
      obtain ⟨early, rfl, hearly⟩ := ih hnext hrest hlater
      refine ⟨_ ++ early, (List.append_assoc _ _ _).symm, ?_⟩
      rw [List.append_eq_nil_iff, hearly, haccepted]
      cases outcome with
      | failed errno => simp
      | sent n =>
        have hshort : n ≠ buf.length := fun heq => hincomplete (by rw [heq])
        have hn := hhead.1
        have htake : buf.take n ≠ [] := by
          rw [Ne, List.take_eq_nil_iff]
          rintro (hzero | hnil)
          · omega
          · exact hbuf hnil
        grind

end Events

/-- The kernel gets exactly the queued response if and only if it never takes a
part of it: `send_buf` is not advanced behind the part that it took. -/
theorem deliver_exact_iff (anTcpRecv : Conn R → Int × Conn R) (buf : Bytes)
    (conn : Conn R) (outcomes : List (Bool × SendResult)) (accepted : Bytes)
    (hbuf : buf ≠ []) (hqueued : Queued buf conn)
    (hhealthy : ∀ outcome ∈ outcomes, Healthy buf.length outcome.2)
    (hrun : deliver anTcpRecv conn outcomes = some accepted) :
    accepted = buf ↔
      ∀ n pollin, (pollin, .sent n) ∈ outcomes → n = buf.length := by
  obtain ⟨early, rfl, hearly⟩ := deliver_eq anTcpRecv hbuf hqueued hhealthy hrun
  rw [← hearly, List.append_left_eq_self]

namespace DeliveryWitness

def recv (conn : Conn Unit) : Int × Conn Unit := (0, conn)

def conn : Conn Unit :=
  { fd := 7, pollin := true, pollout := true,
    sock := some { sendBuf := some (ascii "abc"), sendLen := 3, rcv := () } }

theorem queued_conn : Queued (ascii "abc") conn :=
  ⟨_, rfl, rfl, rfl⟩

/-- Two interrupted calls, then a write of all three bytes. -/
theorem deliver_exact_iff_interrupted :
    deliver recv conn [(false, .failed .eagain), (true, .failed .eintr),
      (false, .sent 3)] = some (ascii "abc") ∧
    (ascii "abc" = ascii "abc" ↔ ∀ n pollin,
      (pollin, SendResult.sent n) ∈ [(false, .failed .eagain),
        (true, .failed .eintr), (false, .sent 3)] → n = (ascii "abc").length) :=
  ⟨by decide, deliver_exact_iff recv (ascii "abc") conn _ _ (by decide)
    queued_conn (by simp [Healthy, ascii]) (by decide)⟩

/-- One byte is taken first; the retry sends the response from its start. -/
theorem deliver_short_write :
    Queued (ascii "abc") conn ∧ Healthy 3 (.sent 1) ∧ Healthy 3 (.sent 3) ∧
      deliver recv conn [(false, .sent 1), (false, .sent 3)] =
        some (ascii "aabc") ∧ ascii "aabc" ≠ ascii "abc" :=
  ⟨queued_conn, by simp [Healthy], by simp [Healthy], by decide, by decide⟩

end DeliveryWitness

end WaterWall
