/-
Requests and replies over the pooled SSDB connections of db.c.  `_dbrecv` reads
until what it has received ends with an empty line, `_dbdo` takes a connection
from the free list, sends, receives, and puts it back.  The server is any one
that answers each request on a connection with one well-formed reply.
-/
import WaterWall.SsdbStatus

namespace WaterWall

open ByteText List

/-- DB_BUFLEN. -/
def dbBuflen : Nat := 10240

/-- A connection, with the bytes sent by the server and not yet received. -/
structure DbConn where
  unread : Bytes
  deriving DecidableEq, Repr

/-- What the environment of one round of `_dbdo` decides. -/
structure Attempt where
  /-- A new connection can be made. -/
  connectOk : Bool
  sendOk : Bool
  /-- The blocks of the server's reply to this request. -/
  reply : List Bytes
  /-- How many bytes the n-th `recv` would like to return. -/
  segment : Nat → Nat
  /-- The byte in front of the allocated buffer. -/
  before : Byte
  mallocOk : Bool
  reallocOk : Nat → Bool

/-- `_dbcheck`: non-zero when the last two bytes are newlines.  With one byte
received the first of the two is the byte in front of the buffer. -/
def dbcheck (before : Byte) (buf : Bytes) : Int :=
  if [10, 10] <:+ before :: buf then -1 else 0

/-- The length that `recv` returns: positive, unless nothing is asked for or
nothing comes. -/
def recvLength (wish request available : Nat) : Nat :=
  min (max wish 1) (min request available)

inductive RecvOutcome where
  | received (buf : Bytes) (conn : DbConn)
  | failed
  | overrun
  deriving DecidableEq, Repr

/-- The `while(r_len > 0)` loop of `_dbrecv`: `buf` has been received, `rLen`
of it by the last `recv`, into an allocation of `rBuflen` bytes.  Every round
receives at least one byte. -/
def dbrecvLoop (attempt : Attempt) :
    Nat → Nat → Bytes → Nat → Nat → DbConn → RecvOutcome
  | 0, _, _, _, _, _ => .failed
  | fuel + 1, round, buf, rLen, rBuflen, conn =>
    if dbcheck attempt.before buf ≠ 0 then .received buf conn
    else if buf.length = rBuflen ∧ attempt.reallocOk round = false then .failed
    else
      let space := if buf.length = rBuflen then rBuflen + dbBuflen else rBuflen
      let request := if buf.length = rBuflen then dbBuflen else dbBuflen - rLen
      let len := recvLength (attempt.segment round) request conn.unread.length
      if len = 0 then .failed
      else if space < buf.length + len then .overrun
      else
        dbrecvLoop attempt fuel (round + 1) (buf ++ conn.unread.take len) len space
          ⟨conn.unread.drop len⟩

def dbrecv (attempt : Attempt) (conn : DbConn) : RecvOutcome :=
  if attempt.mallocOk then
    let len := recvLength (attempt.segment 0) dbBuflen conn.unread.length
    if len = 0 then .failed
    else
      dbrecvLoop attempt conn.unread.length 1 (conn.unread.take len) len dbBuflen
        ⟨conn.unread.drop len⟩
  else .failed

/-- `_db_get_conn`: the head of the free list, or a new connection. -/
def dbGetConn (connectOk : Bool) (free : List DbConn) : Option (DbConn × List DbConn) :=
  match free with
  | conn :: rest => some (conn, rest)
  | [] => if connectOk then some (⟨[]⟩, []) else none

/-- The server answers a request. -/
def DbConn.answer (conn : DbConn) (reply : List Bytes) : DbConn :=
  ⟨conn.unread ++ replyText reply⟩

/-- What a call of `_dbdo` comes to: the buffer handed to `_dbphrase`, with the
reply to its request and the connection put back; no buffer; or a write behind
the allocation. -/
inductive DoOutcome where
  | handed (buf : Bytes) (reply : List Bytes) (conn : DbConn)
  | gaveUp
  | overrun
  deriving DecidableEq, Repr

structure DoResult where
  outcome : DoOutcome
  free : List DbConn
  deriving DecidableEq, Repr

/-- The rounds of `_dbdo`; a connection that fails is destroyed. -/
def dbdoLoop (attempts : Nat → Attempt) : Nat → Nat → List DbConn → DoResult
  | 0, _, free => ⟨.gaveUp, free⟩
  | tries + 1, round, free =>
    let attempt := attempts round
    match dbGetConn attempt.connectOk free with
    | none => ⟨.gaveUp, free⟩
    | some (conn, rest) =>
      if attempt.sendOk then
        match dbrecv attempt (conn.answer attempt.reply) with
        | .received buf conn =>
          ⟨.handed buf attempt.reply conn, rest ++ [conn]⟩
        | .failed => dbdoLoop attempts tries (round + 1) rest
        | .overrun => ⟨.overrun, rest⟩
      else dbdoLoop attempts tries (round + 1) rest

/-- `trycnt++ > 3`. -/
def dbdoTries : Nat := 4

def dbdo (attempts : Nat → Attempt) (free : List DbConn) : DoResult :=
  dbdoLoop attempts dbdoTries 0 free

def dbdoRun : List DbConn → List (Nat → Attempt) → List DoResult
  | _, [] => []
  | free, attempts :: calls =>
    let result := dbdo attempts free
    result :: dbdoRun result.free calls

/-- The buffer handed over is the reply to the call's own request, and nothing
is left unread on the connection. -/
def Paired (result : DoResult) : Prop :=
  match result.outcome with
  | .handed buf reply conn => buf = replyText reply ∧ conn.unread = []
  | .gaveUp => True
  | .overrun => False

/-- How a reply comes in on a connection without stale bytes. -/
inductive Segmentation where
  | complete | givenUp | early | overrun
  deriving DecidableEq, Repr

/-- The boundaries between the segments of a reply of which `pos` bytes have
been received: an early one ends a proper beginning of the reply at an empty
line, an overrun is a segment longer than the space left. -/
def segmentation (attempt : Attempt) (text : Bytes) :
    Nat → Nat → Nat → Nat → Nat → Segmentation
  | 0, _, _, _, _ => .givenUp
  | fuel + 1, round, pos, last, space =>
    if pos = text.length then .complete
    else if [10, 10] <:+ text.take pos then .early
    else if pos = space ∧ attempt.reallocOk round = false then .givenUp
    else
      let next := if pos = space then space + dbBuflen else space
      let request := if pos = space then dbBuflen else dbBuflen - last
      let len := recvLength (attempt.segment round) request (text.length - pos)
      if len = 0 then .givenUp
      else if next < pos + len then .overrun
      else segmentation attempt text fuel (round + 1) (pos + len) len next

def replySegmentation (attempt : Attempt) : Segmentation :=
  let text := replyText attempt.reply
  if attempt.mallocOk then
    let len := recvLength (attempt.segment 0) dbBuflen text.length
    segmentation attempt text text.length 1 len len dbBuflen
  else .givenUp

/-- A call over `free` clean connections none of whose replies comes in early or
overruns, and the number of free connections after it. -/
def cleanCall (attempts : Nat → Attempt) : Nat → Nat → Nat → Option Nat
  | 0, _, free => some free
  | tries + 1, round, free =>
    let attempt := attempts round
    if free = 0 ∧ attempt.connectOk = false then some free
    else if attempt.sendOk then
      match replySegmentation attempt with
      | .complete => some (free - 1 + 1)
      | .givenUp => cleanCall attempts tries (round + 1) (free - 1)
      | .early => none
      | .overrun => none
    else cleanCall attempts tries (round + 1) (free - 1)

def CleanCalls : Nat → List (Nat → Attempt) → Prop
  | _, [] => True
  | free, attempts :: calls =>
    match cleanCall attempts dbdoTries 0 free with
    | some next => CleanCalls next calls
    | none => False

/-- Every reply of the call has a block, so that it starts with a digit and
ends with an empty line. -/
def Answered (attempts : Nat → Attempt) : Prop :=
  ∀ round, (attempts round).reply ≠ []

section Receiving

variable {attempt : Attempt} {text : Bytes}

/-- A text that a client can tell from the end of an earlier reply: it does not
start with a newline, and it ends with an empty line. -/
structure ReplyShape (text : Bytes) : Prop where
  head : text.head? ≠ some 10
  nonempty : text ≠ []
  last : [10, 10] <:+ text

theorem replyText_shape {blocks : List Bytes} (hblocks : blocks ≠ []) :
    ReplyShape (replyText blocks) := by
  obtain ⟨init, last, rfl⟩ := (eq_nil_or_concat' blocks).resolve_left hblocks
  have hend : replyText (init ++ [last]) =
      (init.flatMap blockText ++ decimal last.length ++ 10 :: last) ++ [10, 10] := by
    simp [replyText, blockText]
  refine ⟨?_, ?_, ⟨_, hend.symm⟩⟩
  · obtain ⟨first, rest, hfirst⟩ :=
      exists_cons_of_ne_nil (show init ++ [last] ≠ [] by simp)
    obtain ⟨digit, digits, hdigits⟩ :=
      exists_cons_of_ne_nil (decimal_ne_nil first.length)
    have hdigit : IsDigit digit :=
      decimal_isDigit first.length digit (by rw [hdigits]; exact mem_cons_self)
    rw [hfirst, replyText_cons, blockText, hdigits]
    simp only [cons_append, List.head?_cons, ne_eq, Option.some.injEq]
    rintro rfl
    exact absurd hdigit (by decide)
  · rw [hend]
    simp

theorem dbcheck_take (hshape : ReplyShape text) (before : Byte) {pos : Nat}
    (hpos : 0 < pos) :
    dbcheck before (text.take pos) ≠ 0 ↔ [10, 10] <:+ text.take pos := by
  obtain ⟨first, rest, rfl⟩ := exists_cons_of_ne_nil hshape.nonempty
  have hfirst : first ≠ 10 := by simpa using hshape.head
  obtain ⟨count, rfl⟩ : ∃ count, pos = count + 1 := ⟨pos - 1, by omega⟩
  have hcheck : dbcheck before ((first :: rest).take (count + 1)) ≠ 0 ↔
      [10, 10] <:+ before :: (first :: rest).take (count + 1) := by
    rw [dbcheck]
    split <;> simp_all
  rw [hcheck, suffix_cons_iff, take_succ_cons]
  constructor
  · rintro (heq | hsuffix)
    · simp only [List.cons.injEq] at heq
      exact absurd heq.2.1.symm hfirst
    · exact hsuffix
  · exact Or.inr

/-- What the receive loop comes to, by the segmentation of the reply. -/
def RecvFollows (text : Bytes) (outcome : RecvOutcome) : Segmentation → Prop
  | .complete => outcome = .received text ⟨[]⟩
  | .early => ∃ pos < text.length, outcome = .received (text.take pos) ⟨text.drop pos⟩
  | .givenUp => outcome = .failed
  | .overrun => outcome = .overrun

theorem dbrecvLoop_follows (hshape : ReplyShape text) (fuel : Nat)
    {round pos last space : Nat} (hpos : 0 < pos) (hle : pos ≤ text.length) :
    RecvFollows text
      (dbrecvLoop attempt fuel round (text.take pos) last space ⟨text.drop pos⟩)
      (segmentation attempt text fuel round pos last space) := by
  induction fuel generalizing round pos last space with
  | zero => rfl
  | succ fuel ih =>
    have hcheck := dbcheck_take hshape attempt.before hpos
    have hlength : (text.take pos).length = pos := by
      rw [length_take]
      exact Nat.min_eq_left hle
    rw [dbrecvLoop, segmentation]
    by_cases hall : pos = text.length
    · have hwhole : text.take pos = text := take_of_length_le hall.ge
      rw [if_pos hall, if_pos (hcheck.mpr (by rw [hwhole]; exact hshape.last)), hwhole,
        hall, drop_length]
      rfl
    · rw [if_neg hall]
      by_cases hearly : [10, 10] <:+ text.take pos
      · rw [if_pos (hcheck.mpr hearly), if_pos hearly]
        exact ⟨pos, by omega, rfl⟩
      · rw [if_neg (fun hne => hearly (hcheck.mp hne)), if_neg hearly]
        simp only [hlength, length_drop]
        by_cases hrealloc : pos = space ∧ attempt.reallocOk round = false
        · rw [if_pos hrealloc, if_pos hrealloc]
          rfl
        · rw [if_neg hrealloc, if_neg hrealloc]
          generalize (if pos = space then space + dbBuflen else space) = next
          generalize (if pos = space then dbBuflen else dbBuflen - last) = request
          generalize hlen : recvLength (attempt.segment round) request
            (text.length - pos) = len
          by_cases hzero : len = 0
          · rw [if_pos hzero, if_pos hzero]
            rfl
          · rw [if_neg hzero, if_neg hzero]
            by_cases hover : next < pos + len
            · rw [if_pos hover, if_pos hover]
              rfl
            · rw [if_neg hover, if_neg hover, drop_drop, ← take_add]
              have hbound : len ≤ text.length - pos := by
                rw [← hlen, recvLength]
                omega
              exact ih (by omega) (by omega)

theorem dbrecv_follows (hreply : attempt.reply ≠ []) {conn : DbConn}
    (hclean : conn.unread = []) :
    RecvFollows (replyText attempt.reply) (dbrecv attempt (conn.answer attempt.reply))
      (replySegmentation attempt) := by
  have hshape := replyText_shape hreply
  have hpos : 0 < (replyText attempt.reply).length :=
    length_pos_iff.mpr hshape.nonempty
  rw [dbrecv, replySegmentation, DbConn.answer, hclean, nil_append]
  by_cases hmalloc : attempt.mallocOk = true
  · have hlen : 0 < recvLength (attempt.segment 0) dbBuflen
        (replyText attempt.reply).length := by
      rw [recvLength, dbBuflen]
      omega
    have hle : recvLength (attempt.segment 0) dbBuflen
        (replyText attempt.reply).length ≤ (replyText attempt.reply).length := by
      rw [recvLength]
      omega
    simp only [hmalloc, ↓reduceIte]
    rw [if_neg (by omega)]
    exact dbrecvLoop_follows hshape _ hlen hle
  · simp only [hmalloc, Bool.false_eq_true, ↓reduceIte]
    rfl

end Receiving

/-- No connection of the free list has stale bytes. -/
def Clean (free : List DbConn) : Prop :=
  ∀ conn ∈ free, conn.unread = []

section Calls

variable {attempts : Nat → Attempt} {free : List DbConn}

/-- What `cleanCall` says of a call over clean connections. -/
def CallFollows (result : DoResult) : Option Nat → Prop
  | some next => Paired result ∧ Clean result.free ∧ result.free.length = next
  | none => ¬ Paired result

theorem dbGetConn_cases (connectOk : Bool) (hclean : Clean free) :
    (free.length = 0 ∧ connectOk = false ∧ dbGetConn connectOk free = none) ∨
      (¬ (free.length = 0 ∧ connectOk = false) ∧
        ∃ conn rest, dbGetConn connectOk free = some (conn, rest) ∧
          conn.unread = [] ∧ Clean rest ∧ rest.length = free.length - 1) := by
  cases free with
  | nil =>
    cases connectOk with
    | false => exact Or.inl ⟨rfl, rfl, rfl⟩
    | true => exact Or.inr ⟨by simp, ⟨[]⟩, [], rfl, rfl, hclean, rfl⟩
  | cons conn rest =>
    right
    refine ⟨by simp, conn, rest, rfl, hclean conn mem_cons_self, ?_, by simp⟩
    exact fun other hother => hclean other (mem_cons_of_mem conn hother)

theorem Clean.concat (hclean : Clean free) : Clean (free ++ [⟨[]⟩]) := by
  intro conn hconn
  rw [mem_append, mem_singleton] at hconn
  rcases hconn with hold | rfl
  · exact hclean conn hold
  · rfl

theorem dbdoLoop_follows (hanswered : Answered attempts) (hclean : Clean free)
    (tries round : Nat) :
    CallFollows (dbdoLoop attempts tries round free)
      (cleanCall attempts tries round free.length) := by
  induction tries generalizing round free with
  | zero => exact ⟨trivial, hclean, rfl⟩
  | succ tries ih =>
    rw [dbdoLoop, cleanCall]
    rcases dbGetConn_cases (attempts round).connectOk hclean with
      ⟨hnone, hrefused, hget⟩ | ⟨hsome, conn, rest, hget, hunread, hrest, hlength⟩
    · rw [hget, if_pos ⟨hnone, hrefused⟩]
      exact ⟨trivial, hclean, rfl⟩
    · simp only [hget, hsome, ↓reduceIte]
      have hretry := ih hrest (round + 1)
      rw [hlength] at hretry
      by_cases hsend : (attempts round).sendOk = true
      · have hrecv := dbrecv_follows (hanswered round) hunread
        simp only [hsend, ↓reduceIte]
        generalize replySegmentation (attempts round) = seg at hrecv
        cases seg with
        | complete =>
          simp only [RecvFollows] at hrecv
          rw [hrecv]
          refine ⟨⟨rfl, rfl⟩, hrest.concat, ?_⟩
          rw [length_append, length_singleton, hlength]
        | givenUp =>
          simp only [RecvFollows] at hrecv
          rw [hrecv]
          exact hretry
        | early =>
          obtain ⟨pos, hpos, hrecv⟩ := hrecv
          rw [hrecv]
          rintro ⟨hbuf, _⟩
          have hshort := congrArg List.length hbuf
          rw [length_take] at hshort
          omega
        | overrun =>
          simp only [RecvFollows] at hrecv
          rw [hrecv]
          exact id
      · simp only [hsend, Bool.false_eq_true, ↓reduceIte]
        exact hretry

end Calls

/-- Over connections without stale bytes, every call gets exactly the reply to
its own request if and only if no reply comes in with a segment boundary behind
an empty line inside it, and no segment overruns the receive buffer. -/
theorem dbdoRun_paired_iff (free : List DbConn) (calls : List (Nat → Attempt))
    (hclean : Clean free) (hanswered : ∀ attempts ∈ calls, Answered attempts) :
    (∀ result ∈ dbdoRun free calls, Paired result) ↔
      CleanCalls free.length calls := by
  induction calls generalizing free with
  | nil => simp [dbdoRun, CleanCalls]
  | cons attempts calls ih =>
    have hcall := dbdoLoop_follows (hanswered attempts mem_cons_self) hclean
      dbdoTries 0
    rw [dbdoRun, CleanCalls, forall_mem_cons]
    change (Paired (dbdoLoop attempts dbdoTries 0 free) ∧ _) ↔ _
    cases hstep : cleanCall attempts dbdoTries 0 free.length with
    | none =>
      rw [hstep] at hcall
      exact iff_of_false (fun hboth => hcall hboth.1) id
    | some next =>
      rw [hstep] at hcall
      obtain ⟨hpaired, hfree, hlength⟩ := hcall
      have hrest := ih (dbdo attempts free).free hfree
        fun other hother => hanswered other (mem_cons_of_mem attempts hother)
      rw [show (dbdo attempts free).free.length = next from hlength] at hrest
      rw [hrest]
      exact and_iff_right hpaired

namespace SessionWitness

/-- Replies `ok` with one payload, a newline; every `recv` returns `cut` bytes
if it can. -/
def attempt (cut : Nat) : Attempt :=
  { connectOk := true, sendOk := true, reply := [ascii "ok", ascii "\n"],
    segment := fun _ => cut, before := 0, mallocOk := true, reallocOk := fun _ => true }

theorem answered_attempt (cut : Nat) : Answered fun _ => attempt cut :=
  fun _ => cons_ne_nil _ _

/-- Two calls, the reply coming in seven bytes at a time. -/
theorem dbdoRun_paired_iff_seven :
    Clean [] ∧ ∀ result ∈ dbdoRun [] [fun _ => attempt 7, fun _ => attempt 7],
      Paired result :=
  ⟨fun _ hconn => absurd hconn not_mem_nil,
    (dbdoRun_paired_iff [] [fun _ => attempt 7, fun _ => attempt 7]
      (fun _ hconn => absurd hconn not_mem_nil)
      (by simp [answered_attempt])).mpr trivial⟩

/-- A boundary behind the payload's newline: the first call gets a part of its
reply and leaves two bytes on the connection, which the second call reads as the
beginning of its own. -/
theorem dbdoRun_desynchronised :
    Answered (fun _ => attempt 8) ∧
      (dbdoRun [] [fun _ => attempt 8, fun _ => attempt 8]).map DoResult.outcome =
        [.handed (ascii "2\nok\n1\n\n") [ascii "ok", ascii "\n"] ⟨ascii "\n\n"⟩,
          .handed (ascii "\n\n2\nok\n1\n\n\n\n") [ascii "ok", ascii "\n"] ⟨[]⟩] ∧
      ¬ ∀ result ∈ dbdoRun [] [fun _ => attempt 8, fun _ => attempt 8],
        Paired result := by
  refine ⟨answered_attempt 8, by decide, ?_⟩
  intro hpaired
  have hfirst := hpaired (dbdo (fun _ => attempt 8) []) mem_cons_self
  exact absurd hfirst.2 (by decide)

end SessionWitness

end WaterWall
