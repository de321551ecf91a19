/-
How a request reaches the script.  The bytes of a request come in any pieces; `ses_recv` is
called for each of them and decides by the end of the header alone.
-/
import WaterWall.HttpSession

namespace WaterWall

namespace Http

open ByteText HeapBlock List

section Lines

/-- The lines of a header. -/
def splitLines : Bytes → List Bytes
  | [] => [[]]
  | 13 :: 10 :: rest => [] :: splitLines rest
  | b :: rest =>
    match splitLines rest with
    | [] => [[b]]
    | line :: lines => (b :: line) :: lines

def lowerCase (b : Byte) : Byte :=
  if 65 ≤ b.toNat ∧ b.toNat ≤ 90 then UInt8.ofNat (b.toNat + 32) else b

/-- The number in a line `Content-Length: n`. -/
def lengthOfLine (line : Bytes) : Option Nat :=
  if (line.take 15).map lowerCase = ascii "content-length:" then
    some (numeralValue (((line.drop 15).dropWhile fun b => b = 32).takeWhile fun b =>
      decide (IsDigit b)))
  else none

def contentLength (header : Bytes) : Nat :=
  ((splitLines header).findSome? lengthOfLine).getD 0

/-- A header up to the first empty line, and the body that it announces. -/
structure HttpRequest where
  header : Bytes
  body : Bytes
  ends : httpEof <:+ header
  once : ¬httpEof <:+: header.take (header.length - 1)
  announced : body.length = contentLength header

def HttpRequest.bytes (request : HttpRequest) : Bytes :=
  request.header ++ request.body

end Lines

/-- What has been read stands in a block of just that size. -/
structure Session.Holds (session : Session) (text : Bytes) : Prop where
  block : session.rcvBuf.getD [] = text
  buflen : session.rcvBuflen = text.length
  len : session.rcvLen = text.length

section Append

variable {session : Session} {text chunk : Bytes} {memory : Memory}

theorem Session.Holds.append (hholds : session.Holds text) (hchunk : chunk ≠ [])
    (hgrants : memory.grants (text.length + chunk.length) = true) :
    session.append memory chunk = .ok (true, { session with
      rcvBuf := some (text ++ chunk)
      rcvBuflen := (text ++ chunk).length
      rcvLen := (text ++ chunk).length }) := by
  have hpos := length_pos_iff.mpr hchunk
  have hgrow : (session.rcvBuf.getD []).length < text.length + chunk.length := by
    rw [hholds.block]
    omega
  obtain ⟨block, hrealloc, hfills⟩ := wysRealloc_fills hgrow hgrants
  rw [hholds.block] at hfills
  obtain ⟨next, hwrite, hnext⟩ := hfills.writeAt (Nat.le_refl _)
  have heq : next = text ++ chunk := hnext.eq_text length_append.symm
  rw [Session.append, hholds.len, hholds.buflen]
  simp only [Session.grow, hholds.buflen, if_pos (Nat.lt_add_of_pos_right hpos), hrealloc, bind,
    Except.bind, hwrite, heq, length_append]
  rfl

theorem Session.Holds.append_denied (hholds : session.Holds text) (hchunk : chunk ≠ [])
    (hdenied : memory.grants (text.length + chunk.length) = false) :
    session.append memory chunk = .ok (false, { session with rcvBuf := none }) := by
  have hpos := length_pos_iff.mpr hchunk
  have hgrow : (session.rcvBuf.getD []).length < text.length + chunk.length := by
    rw [hholds.block]
    omega
  rw [Session.append, hholds.len, hholds.buflen]
  simp only [Session.grow, hholds.buflen, if_pos (Nat.lt_add_of_pos_right hpos),
    wysRealloc_denied hgrow hdenied, bind, Except.bind]
  rfl

end Append

/-- Every `realloc` of an event is granted: each read takes what is there, at most 10240. -/
def Granted (memory : Memory) (received : Nat) (pending : Bytes) : Prop :=
  ∀ round, rcvSize * round < pending.length →
    memory.grants (received + min (rcvSize * (round + 1)) pending.length) = true

/-- The last read of the event is neither full nor without data. -/
def Taken (received : Nat) (input : Readable) : Prop :=
  Granted input.memory received input.pending ∧ ¬rcvSize ∣ input.pending.length

section Rounds

variable {session : Session} {text pending : Bytes} {memory : Memory}

theorem size_later {length round : Nat} (received : Nat) (hround : rcvSize * (round + 1) < length) :
    received + min rcvSize length + min (rcvSize * (round + 1)) (length - rcvSize) =
      received + min (rcvSize * (round + 1 + 1)) length := by
  simp only [rcvSize] at hround ⊢
  omega

theorem granted_iff {received : Nat} (hpending : pending ≠ []) :
    Granted memory received pending ↔
      memory.grants (received + (pending.take rcvSize).length) = true ∧
        Granted memory (received + (pending.take rcvSize).length) (pending.drop rcvSize) := by
  have hpos := length_pos_iff.mpr hpending
  rw [length_take]
  constructor
  · intro hall
    refine ⟨by simpa using hall 0 (by omega), ?_⟩
    intro round hround
    rw [length_drop] at hround ⊢
    have hlater : rcvSize * (round + 1) < pending.length := by
      rw [Nat.mul_succ]
      omega
    exact (congrArg memory.grants (size_later received hlater)).trans (hall (round + 1) hlater)
  · rintro ⟨hfirst, hrest⟩ round hround
    cases round with
    | zero => simpa using hfirst
    | succ round =>
      have hnext := hrest round (by
        rw [length_drop]
        rw [Nat.mul_succ] at hround
        omega)
      rw [length_drop] at hnext
      exact (congrArg memory.grants (size_later received hround)).symm.trans hnext

/-- The loop ends well if every read is granted and the last one is short; then all the bytes
have been read. -/
theorem sesRecvRounds_spec (hholds : session.Holds text) :
    ∃ complete next, sesRecvRounds memory session pending = .ok (complete, next) ∧
      (complete = true ↔ Granted memory text.length pending ∧ ¬rcvSize ∣ pending.length) ∧
      (complete = true → next = { session with
        rcvBuf := some (text ++ pending)
        rcvBuflen := (text ++ pending).length
        rcvLen := (text ++ pending).length }) := by
  induction hlength : pending.length using Nat.strong_induction_on
    generalizing session text pending with
  | _ length ih =>
    subst hlength
    rw [sesRecvRounds]
    by_cases hpending : pending = []
    · exact ⟨false, session, by simp [hpending], by simp [hpending], by simp⟩
    have hchunk : pending.take rcvSize ≠ [] := by
      simp [hpending, rcvSize]
    rw [dif_neg hpending, granted_iff hpending]
    cases hgrants : memory.grants (text.length + (pending.take rcvSize).length) with
    | false =>
      rw [hholds.append_denied hchunk hgrants]
      exact ⟨false, _, rfl, by simp, by simp⟩
    | true =>
      rw [hholds.append hchunk hgrants]
      dsimp only
      split_ifs with hfull
      · -- a full read: the same question for what is left
        rw [hfull]
        have hle : rcvSize ≤ pending.length := by
          rw [length_take] at hfull
          omega
        obtain ⟨complete, next, hrun, hiff, hnext⟩ :=
          @ih (pending.drop rcvSize).length (drop_rcvSize_lt hpending)
            { session with
              rcvBuf := some (text ++ pending.take rcvSize)
              rcvBuflen := (text ++ pending.take rcvSize).length
              rcvLen := (text ++ pending.take rcvSize).length }
            (text ++ pending.take rcvSize) (pending.drop rcvSize) ⟨rfl, rfl, rfl⟩ rfl
        refine ⟨complete, next, hrun, ?_, ?_⟩
        · have hdvd : rcvSize ∣ pending.length - rcvSize ↔ rcvSize ∣ pending.length :=
            Nat.dvd_sub_iff_left hle (Nat.dvd_refl rcvSize)
          rw [hiff, length_append, hfull, length_drop, hdvd]
          simp only [true_and]
        simp_all
      · have hlt : pending.length < rcvSize := by
          rw [length_take] at hfull
          omega
        refine ⟨true, _, rfl, ?_, ?_⟩
        · have hdrop : pending.drop rcvSize = [] := drop_of_length_le hlt.le
          have hnot : ¬rcvSize ∣ pending.length :=
            Nat.not_dvd_of_pos_of_lt (length_pos_iff.mpr hpending) hlt
          simp [hdrop, hnot, Granted]
        · intro _
          rw [take_of_length_le hlt.le]

end Rounds

section Receive

variable {session : Session} {text : Bytes} {input : Readable}

theorem Session.Holds.sesRecv_fails (hholds : session.Holds text)
    (hnot : ¬Taken text.length input) :
    ∃ next, sesRecv session input = .ok ⟨⟨-1, next, none⟩, []⟩ := by
  obtain ⟨complete, next, hrun, hiff, -⟩ := @sesRecvRounds_spec session text input.pending
    input.memory hholds
  have hcomplete : complete = false := by
    rw [← Bool.not_eq_true, hiff]
    exact hnot
  refine ⟨next, ?_⟩
  simp only [sesRecv, hrun, hcomplete, bind, Except.bind]
  rfl

theorem Session.Holds.sesRecv_taken (hholds : session.Holds text)
    (htaken : Taken text.length input) :
    ∃ next : Session, next.Holds (text ++ input.pending) ∧ (session.Quiet → next.Quiet) ∧
      sesRecv session input =
        if sesCheckEof (text ++ input.pending) input.behind = false then
          .ok ⟨⟨0, next.awaitMore, none⟩, []⟩
        else do
          let handled ← sesHttpProcotolHandler next input.memory input.lua input.date
          return ⟨if handled.ret ≠ 0 then { handled with ret := -1 }
            else { handled with ret := 0 }, [text ++ input.pending]⟩ := by
  obtain ⟨complete, next, hrun, hiff, hnext⟩ := @sesRecvRounds_spec session text input.pending
    input.memory hholds
  have hcomplete : complete = true := hiff.mpr htaken
  refine ⟨next, ?_, ?_, ?_⟩
  · rw [hnext hcomplete]
    exact ⟨rfl, rfl, rfl⟩
  · intro hquiet
    rw [hnext hcomplete]
    exact ⟨hquiet.block, hquiet.len, hquiet.luaError⟩
  · have hbuf : next.rcvBuf.getD [] = text ++ input.pending := by
      rw [hnext hcomplete]
      rfl
    have hlen : next.rcvLen = (text ++ input.pending).length := by
      rw [hnext hcomplete]
    simp only [sesRecv, hrun, hcomplete, bind, Except.bind, hbuf, hlen, take_length]
    rfl

theorem Session.Holds.sesRecv_waits (hholds : session.Holds text) (hquiet : session.Quiet)
    (htaken : Taken text.length input)
    (heof : sesCheckEof (text ++ input.pending) input.behind = false) :
    ∃ next : Session, next.Holds (text ++ input.pending) ∧ next.Quiet ∧
      sesRecv session input = .ok ⟨⟨0, next, none⟩, []⟩ := by
  obtain ⟨next, hnext, hstays, hrecv⟩ := hholds.sesRecv_taken htaken
  have hquiet := hstays hquiet
  rw [if_pos heof] at hrecv
  exact ⟨next.awaitMore, ⟨hnext.block, hnext.buflen, hnext.len⟩,
    ⟨hquiet.block, hquiet.len, hquiet.luaError⟩, hrecv⟩

theorem Session.Holds.sesRecv_calls (hholds : session.Holds text) (hquiet : session.Quiet)
    (htaken : Taken text.length input)
    (heof : sesCheckEof (text ++ input.pending) input.behind = true) :
    ∃ handled, sesRecv session input = .ok ⟨handled, [text ++ input.pending]⟩ := by
  obtain ⟨next, -, hstays, hrecv⟩ := hholds.sesRecv_taken htaken
  obtain ⟨handled, hhandled, -, -⟩ := (hstays hquiet).answered input.memory input.lua input.date
  rw [if_neg (by simp [heof]), hhandled] at hrecv
  exact ⟨_, hrecv⟩

end Receive

/-- The readable events of a connection in their order, up to the first one that gives it up. -/
def receiveAll (session : Session) : List Readable → Except Fault (List Received)
  | [] => .ok []
  | input :: inputs => do
      let received ← sesRecv session input
      if received.handled.ret ≠ 0 then return [received]
      else
        let rest ← receiveAll received.handled.session inputs
        return received :: rest

/-- No event before the last one gives the connection up, and the script gets these bytes and
nothing else. -/
def HandledOnce (session : Session) (inputs : List Readable) (bytes : Bytes) : Prop :=
  ∃ log, receiveAll session inputs = .ok log ∧ log.length = inputs.length ∧
    log.flatMap Received.calls = [bytes]

def allPending (inputs : List Readable) : Bytes :=
  (inputs.map Readable.pending).flatten

/-- Every event is taken, and an end is found after the last one and not before. -/
def InOnePiece (text : Bytes) : List Readable → Prop
  | [] => False
  | [input] =>
    Taken text.length input ∧ sesCheckEof (text ++ input.pending) input.behind = true
  | input :: inputs =>
    (Taken text.length input ∧ sesCheckEof (text ++ input.pending) input.behind = false) ∧
      InOnePiece (text ++ input.pending) inputs

section Run

variable {session : Session} {text : Bytes} {input : Readable} {inputs : List Readable}

theorem receiveAll_fails {received : Received} (hrecv : sesRecv session input = .ok received)
    (hret : received.handled.ret ≠ 0) (inputs : List Readable) :
    receiveAll session (input :: inputs) = .ok [received] := by
  simp only [receiveAll, hrecv, bind, Except.bind]
  rw [if_pos hret]
  rfl

theorem receiveAll_waits {next : Session}
    (hrecv : sesRecv session input = .ok ⟨⟨0, next, none⟩, []⟩) (inputs : List Readable)
    (bytes : Bytes) :
    HandledOnce session (input :: inputs) bytes ↔ HandledOnce next inputs bytes := by
  have hrun : receiveAll session (input :: inputs) =
      (receiveAll next inputs).map fun rest => ⟨⟨0, next, none⟩, []⟩ :: rest := by
    simp only [receiveAll, hrecv, bind, Except.bind]
    cases receiveAll next inputs <;> rfl
  rw [HandledOnce, HandledOnce, hrun]
  cases receiveAll next inputs with
  | error fault => simp [Except.map]
  | ok log => simp [Except.map]

theorem HandledOnce.first {bytes first : Bytes} {handled : Handled}
    (honce : HandledOnce session (input :: inputs) bytes)
    (hrecv : sesRecv session input = .ok ⟨handled, [first]⟩) : bytes = first := by
  obtain ⟨log, hrun, -, hcalls⟩ := honce
  simp only [receiveAll, hrecv, bind, Except.bind] at hrun
  split_ifs at hrun with hret
  · cases hrun
    simpa using hcalls.symm
  · cases hrest : receiveAll handled.session inputs with
    | error fault =>
      rw [hrest] at hrun
      exact absurd hrun (by simp)
    | ok rest =>
      rw [hrest] at hrun
      cases hrun
      rw [flatMap_cons, singleton_append] at hcalls
      exact (List.cons.inj hcalls).1.symm

theorem not_handledOnce_nil (bytes : Bytes) : ¬HandledOnce session [] bytes := by
  rintro ⟨log, hrun, -, hcalls⟩
  cases hrun
  exact absurd hcalls (by simp)

theorem Session.Holds.handledOnce_iff (hholds : session.Holds text) (hquiet : session.Quiet)
    (hpending : ∀ input ∈ inputs, input.pending ≠ []) :
    HandledOnce session inputs (text ++ allPending inputs) ↔ InOnePiece text inputs := by
  induction inputs generalizing session text with
  | nil => exact iff_of_false (not_handledOnce_nil _) id
  | cons input inputs ih =>
    have hall : text ++ allPending (input :: inputs) =
        text ++ input.pending ++ allPending inputs := by
      simp [allPending]
    by_cases htaken : Taken text.length input
    · cases heof : sesCheckEof (text ++ input.pending) input.behind with
      | false =>
        obtain ⟨next, hnext, hquiet, hrecv⟩ := hholds.sesRecv_waits hquiet htaken heof
        rw [hall, receiveAll_waits hrecv,
          ih hnext hquiet fun input hinput => hpending input (mem_cons_of_mem _ hinput)]
        cases inputs with
        | nil => simp [InOnePiece, heof]
        | cons next rest => simp only [InOnePiece, htaken, heof, true_and]
      | true =>
        obtain ⟨handled, hrecv⟩ := hholds.sesRecv_calls hquiet htaken heof
        cases inputs with
        | nil =>
          refine iff_of_true ⟨[⟨handled, [text ++ input.pending]⟩], ?_, rfl, ?_⟩
            ⟨htaken, heof⟩
          · simp only [receiveAll, hrecv, bind, Except.bind]
            split_ifs <;> rfl
          · simp [allPending]
        | cons next rest =>
          refine iff_of_false (fun honce => ?_) fun hpiece => ?_
          · -- more bytes come behind those that the script has got
            have hfirst := honce.first hrecv
            rw [hall, append_right_eq_self] at hfirst
            simp_all [allPending]
          · rw [hpiece.1.2] at heof
            exact absurd heof (by decide)
    · obtain ⟨next, hrecv⟩ := hholds.sesRecv_fails htaken
      have hrun := receiveAll_fails hrecv (by simp) inputs
      refine iff_of_false ?_ ?_
      · rintro ⟨log, hlog, -, hcalls⟩
        rw [hrun] at hlog
        cases hlog
        exact absurd hcalls (by simp)
      · cases inputs with
        | nil => exact fun hpiece => htaken hpiece.1
        | cons next rest => exact fun hpiece => htaken hpiece.1.1

end Run

/-- Whatever the pieces in which a request comes to a new connection, `ses_recv` gives it to
`lua_access` once and whole just when no event brings a multiple of 10240 bytes, no memory is
missing, and an end of the header is seen after the last event and not before. -/
theorem sesRecv_handlesOnce_iff (request : HttpRequest) (fid : Int) (sid pid : BitVec 32)
    (inputs : List Readable) (hpending : ∀ input ∈ inputs, input.pending ≠ [])
    (hrequest : allPending inputs = request.bytes) :
    HandledOnce (newSession fid sid pid) inputs request.bytes ↔ InOnePiece [] inputs := by
  rw [← hrequest]
  exact Session.Holds.handledOnce_iff ⟨rfl, rfl, rfl⟩ ⟨rfl, rfl, rfl⟩ hpending

namespace ReceiveWitness

def header : Bytes := ascii "POST /login HTTP/1.1\r\nContent-Length: 3\r\n\r\n"

theorem header_ends : httpEof <:+ header := by decide

theorem header_once : ¬httpEof <:+: header.take (header.length - 1) := by decide +kernel

theorem body_announced : (ascii "a=1").length = contentLength header := by decide +kernel

def request : HttpRequest := ⟨header, ascii "a=1", header_ends, header_once, body_announced⟩

/-- A readable event with memory that ends in a NUL. -/
def event (pending : Bytes) : Readable :=
  ⟨pending, [0], Sample.memory, .answered (ascii "ok") false, Sample.date⟩

theorem taken_event {received : Nat} {pending : Bytes} (hshort : ¬rcvSize ∣ pending.length) :
    Taken received (event pending) :=
  ⟨fun _ _ => rfl, hshort⟩

/-- A request that is cut in its first line. -/
def cutInHeader : List Readable :=
  [event (header.take 20), event (header.drop 20 ++ ascii "a=1")]

theorem handledOnce_cutInHeader :
    HandledOnce (newSession 7 0 1) cutInHeader request.bytes := by
  apply (sesRecv_handlesOnce_iff request 7 0 1 cutInHeader (by decide) (by decide +kernel)).mpr
  refine ⟨⟨taken_event (by decide), ?_⟩, taken_event (by decide), ?_⟩
  · decide +kernel
  · decide +kernel

/-- A request that is cut between its header and its body. -/
def cutAtBody : List Readable := [event header, event (ascii "a=1")]

theorem not_handledOnce_cutAtBody :
    (∀ input ∈ cutAtBody, input.pending ≠ []) ∧ allPending cutAtBody = request.bytes ∧
      ¬HandledOnce (newSession 7 0 1) cutAtBody request.bytes := by
  have hpending : ∀ input ∈ cutAtBody, input.pending ≠ [] := by decide
  have hbytes : allPending cutAtBody = request.bytes := by decide +kernel
  refine ⟨hpending, hbytes, fun honce => ?_⟩
  have hholds : (newSession 7 0 1).Holds [] := ⟨rfl, rfl, rfl⟩
  rw [← hbytes] at honce
  have hpiece := (hholds.handledOnce_iff ⟨rfl, rfl, rfl⟩ hpending).mp honce
  have heof : sesCheckEof ([] ++ header) [0] = true := by decide +kernel
  have hnot : sesCheckEof ([] ++ header) [0] = false := hpiece.1.2
  exact Bool.false_ne_true (hnot.symm.trans heof)

end ReceiveWitness

end Http

end WaterWall
