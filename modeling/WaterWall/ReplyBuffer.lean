/-
The `recv` calls of `_dbrecv` in db.c: where each one writes, how much it asks for, and
how large the buffer is.  The amount is worked out from the last chunk alone, so whether
it fits depends on where the chunks begin and end.
-/
import WaterWall.SsdbSession

namespace WaterWall

open ByteText List

/-- `recv(conn->fd, buf + offset, request, 0)` with `buflen` bytes allocated. -/
structure RecvCall where
  offset : Nat
  request : Nat
  buflen : Nat
  deriving DecidableEq, Repr

/-- The call stays in the allocation and asks for something; the lengths are `int`. -/
def RecvCall.Fits (call : RecvCall) : Prop :=
  call.offset + call.request ≤ call.buflen ∧ 0 < call.request ∧ call.buflen < 2 ^ 31

instance (call : RecvCall) : Decidable call.Fits :=
  inferInstanceAs (Decidable (_ ∧ _))

def firstRecv : RecvCall := ⟨0, dbBuflen, dbBuflen⟩

/-- The call that follows one that returned `rLen`. -/
def nextRecv (call : RecvCall) (rLen : Nat) : RecvCall :=
  if call.offset + rLen = call.buflen then
    ⟨call.offset + rLen, dbBuflen, call.buflen + dbBuflen⟩
  else ⟨call.offset + rLen, dbBuflen - rLen, call.buflen⟩

/-- The calls of `_dbrecv`, whose results are the chunks, from one of them on. -/
def recvCalls (before : Byte) : Bytes → RecvCall → List Bytes → List RecvCall
  | _, call, [] => [call]
  | buf, call, chunk :: chunks =>
    call :: if dbcheck before (buf ++ chunk) ≠ 0 then []
      else recvCalls before (buf ++ chunk) (nextRecv call chunk.length) chunks

def dbrecvCalls (before : Byte) (chunks : List Bytes) : List RecvCall :=
  recvCalls before [] firstRecv chunks

/-- No call returns nothing or more than it asked for. -/
def Delivers (before : Byte) : Bytes → RecvCall → List Bytes → Prop
  | _, _, [] => True
  | buf, call, chunk :: chunks =>
    (0 < chunk.length ∧ chunk.length ≤ call.request) ∧
      (dbcheck before (buf ++ chunk) = 0 →
        Delivers before (buf ++ chunk) (nextRecv call chunk.length) chunks)

/-- Where the chunks begin and end after which `_dbrecv` goes on. -/
def goesOn (before : Byte) : Bytes → List Bytes → List (Nat × Nat)
  | _, [] => []
  | buf, chunk :: chunks =>
    if dbcheck before (buf ++ chunk) ≠ 0 then []
    else (buf.length, buf.length + chunk.length) :: goesOn before (buf ++ chunk) chunks

/-- The chunk begins or ends at a multiple of DB_BUFLEN, and the next multiple behind it
is an `int`. -/
def Tidy (span : Nat × Nat) : Prop :=
  (dbBuflen ∣ span.1 ∨ dbBuflen ∣ span.2) ∧ (span.2 / dbBuflen + 1) * dbBuflen < 2 ^ 31

/-- A call that fills up the last DB_BUFLEN bytes of the allocation. -/
structure RecvCall.Ready (call : RecvCall) (buf : Bytes) : Prop where
  received : call.offset = buf.length
  filling : call.offset + call.request = call.buflen
  asks : 0 < call.request
  rounded : dbBuflen ∣ call.buflen
  last : call.buflen ≤ call.offset + dbBuflen
  isInt : call.buflen < 2 ^ 31

section Steps

variable {before : Byte} {buf chunk : Bytes} {call : RecvCall}

theorem firstRecv_ready : firstRecv.Ready [] where
  received := rfl
  filling := rfl
  asks := by decide
  rounded := dvd_rfl
  last := by decide
  isInt := by decide

theorem RecvCall.Ready.fits (hready : call.Ready buf) : call.Fits :=
  ⟨hready.filling.le, hready.asks, hready.isInt⟩

theorem RecvCall.Ready.next (hready : call.Ready buf) (hpos : 0 < chunk.length)
    (hle : chunk.length ≤ call.request)
    (htidy : Tidy (buf.length, buf.length + chunk.length)) :
    (nextRecv call chunk.length).Ready (buf ++ chunk) := by
  obtain ⟨hreceived, hfilling, hasks, hrounded, hlast, hint⟩ := hready
  obtain ⟨haligned, hroom⟩ := htidy
  rw [nextRecv]
  by_cases hfull : call.offset + chunk.length = call.buflen
  · rw [if_pos hfull]
    -- the chunk ends at the end of the allocation, which grows
    have hgrown : ((buf.length + chunk.length) / dbBuflen + 1) * dbBuflen =
        call.buflen + dbBuflen := by
      rw [← hreceived, hfull, Nat.add_mul, one_mul, Nat.div_mul_cancel hrounded]
    constructor
    · rw [length_append, hreceived]
    · exact congrArg (· + dbBuflen) hfull
    · exact Nat.succ_pos _
    · exact Nat.dvd_add hrounded dvd_rfl
    · exact (congrArg (· + dbBuflen) hfull).ge
    · rw [← hgrown]
      exact hroom
  · rw [if_neg hfull]
    -- the chunk starts with the last part of the allocation
    have hstart : call.offset + dbBuflen = call.buflen := by
      rw [← hreceived] at haligned
      simp only [dbBuflen] at *
      omega
    have hsmall : chunk.length ≤ dbBuflen := by omega
    constructor
    · rw [length_append, hreceived]
    · change call.offset + chunk.length + (dbBuflen - chunk.length) = call.buflen
      omega
    · change 0 < dbBuflen - chunk.length
      omega
    · exact hrounded
    · change call.buflen ≤ call.offset + chunk.length + dbBuflen
      omega
    · exact hint

theorem RecvCall.Ready.tidy_of_fits (hready : call.Ready buf)
    (hfits : (nextRecv call chunk.length).Fits) :
    Tidy (buf.length, buf.length + chunk.length) := by
  obtain ⟨hreceived, hfilling, hasks, hrounded, hlast, hint⟩ := hready
  rw [Tidy, ← hreceived]
  rw [nextRecv] at hfits
  by_cases hfull : call.offset + chunk.length = call.buflen
  · rw [if_pos hfull] at hfits
    rw [hfull, Nat.add_mul, one_mul, Nat.div_mul_cancel hrounded]
    exact ⟨Or.inr hrounded, hfits.2.2⟩
  · rw [if_neg hfull] at hfits
    obtain ⟨hroom, _, _⟩ := hfits
    change call.offset + chunk.length + (dbBuflen - chunk.length) ≤ call.buflen at hroom
    simp only [dbBuflen] at *
    omega

theorem head_mem_recvCalls (before : Byte) (buf : Bytes) (call : RecvCall)
    (chunks : List Bytes) : call ∈ recvCalls before buf call chunks := by
  cases chunks <;> exact mem_cons_self

theorem recvCalls_fit_iff {chunks : List Bytes} (hready : call.Ready buf)
    (hdelivers : Delivers before buf call chunks) :
    (∀ made ∈ recvCalls before buf call chunks, made.Fits) ↔
      ∀ span ∈ goesOn before buf chunks, Tidy span := by
  induction chunks generalizing buf call with
  | nil =>
    rw [recvCalls, goesOn, forall_mem_singleton]
    exact iff_of_true hready.fits (forall_mem_nil _)
  | cons chunk chunks ih =>
    obtain ⟨⟨hpos, hle⟩, hrest⟩ := hdelivers
    rw [recvCalls, goesOn, forall_mem_cons]
    by_cases hend : dbcheck before (buf ++ chunk) = 0
    · rw [if_neg (not_not.mpr hend), if_neg (not_not.mpr hend), forall_mem_cons]
      constructor
      · rintro ⟨_, hfits⟩
        have htidy := hready.tidy_of_fits (hfits _ (head_mem_recvCalls _ _ _ _))
        exact ⟨htidy, (ih (hready.next hpos hle htidy) (hrest hend)).mp hfits⟩
      · rintro ⟨htidy, hspans⟩
        exact ⟨hready.fits, (ih (hready.next hpos hle htidy) (hrest hend)).mpr hspans⟩
    · rw [if_pos hend, if_pos hend]
      exact iff_of_true ⟨hready.fits, forall_mem_nil _⟩ (forall_mem_nil _)

end Steps

/-- Every `recv` of `_dbrecv` stays in the buffer and asks for something exactly if every
chunk after which it goes on is tidy. -/
theorem dbrecvCalls_fit_iff (before : Byte) (chunks : List Bytes)
    (hdelivers : Delivers before [] firstRecv chunks) :
    (∀ call ∈ dbrecvCalls before chunks, call.Fits) ↔
      ∀ span ∈ goesOn before [] chunks, Tidy span :=
  recvCalls_fit_iff firstRecv_ready hdelivers

section Session

variable {attempt : Attempt} {round : Nat} {buf chunk : Bytes} {call : RecvCall} {conn : DbConn}

/-- What the n-th `recv` of a session returns. -/
def sessionChunk (attempt : Attempt) (round : Nat) (call : RecvCall) (conn : DbConn) : Bytes :=
  conn.unread.take (recvLength (attempt.segment round) call.request conn.unread.length)

theorem sessionChunk_length (attempt : Attempt) (round : Nat) (call : RecvCall) (conn : DbConn) :
    (sessionChunk attempt round call conn).length =
      recvLength (attempt.segment round) call.request conn.unread.length := by
  rw [sessionChunk, length_take]
  exact min_eq_left ((min_le_right _ _).trans (min_le_right _ _))

theorem sessionChunk_le (attempt : Attempt) (round : Nat) (call : RecvCall) (conn : DbConn) :
    (sessionChunk attempt round call conn).length ≤ call.request := by
  rw [sessionChunk_length]
  exact (min_le_right _ _).trans (min_le_left _ _)

theorem dbrecvLoop_overrun_step (hoffset : call.offset = buf.length) {fuel : Nat}
    (hoverrun : dbrecvLoop attempt (fuel + 1) round (buf ++ chunk) chunk.length call.buflen
      conn = .overrun) :
    let next := nextRecv call chunk.length
    let got := sessionChunk attempt round next conn
    dbcheck attempt.before (buf ++ chunk) = 0 ∧ next.offset = (buf ++ chunk).length ∧
      0 < got.length ∧ (next.buflen < next.offset + got.length ∨
        dbrecvLoop attempt fuel (round + 1) ((buf ++ chunk) ++ got) got.length next.buflen
          ⟨conn.unread.drop got.length⟩ = .overrun) := by
  have hnext : nextRecv call chunk.length =
      if (buf ++ chunk).length = call.buflen
      then ⟨(buf ++ chunk).length, dbBuflen, call.buflen + dbBuflen⟩
      else ⟨(buf ++ chunk).length, dbBuflen - chunk.length, call.buflen⟩ := by
    rw [nextRecv, hoffset, length_append]
  intro next got
  have hgot := sessionChunk_length attempt round next conn
  rw [dbrecvLoop] at hoverrun
  by_cases hend : dbcheck attempt.before (buf ++ chunk) = 0
  · rw [if_neg (not_not.mpr hend)] at hoverrun
    have hspace : (if (buf ++ chunk).length = call.buflen then call.buflen + dbBuflen
        else call.buflen) = next.buflen := by
      change _ = (nextRecv call chunk.length).buflen
      rw [hnext]
      split <;> rfl
    have hrequest : (if (buf ++ chunk).length = call.buflen then dbBuflen
        else dbBuflen - chunk.length) = next.request := by
      change _ = (nextRecv call chunk.length).request
      rw [hnext]
      split <;> rfl
    have hreceived : next.offset = (buf ++ chunk).length := by
      change (nextRecv call chunk.length).offset = _
      rw [hnext]
      split <;> rfl
    simp only [hspace, hrequest, ← hgot] at hoverrun
    split at hoverrun
    · cases hoverrun
    · split at hoverrun
      · cases hoverrun
      · rename_i hsome
        refine ⟨hend, hreceived, Nat.pos_of_ne_zero hsome, ?_⟩
        split at hoverrun
        · rename_i hover
          rw [hreceived]
          exact Or.inl hover
        · refine Or.inr ?_
          change dbrecvLoop attempt fuel (round + 1)
            ((buf ++ chunk) ++ conn.unread.take (recvLength _ _ _)) _ _ _ = _
          rw [← hgot]
          exact hoverrun
  · rw [if_pos hend] at hoverrun
    cases hoverrun

theorem dbrecvLoop_overrun (hoffset : call.offset = buf.length) {fuel : Nat}
    (hoverrun : dbrecvLoop attempt fuel round (buf ++ chunk) chunk.length call.buflen conn =
      .overrun) :
    dbcheck attempt.before (buf ++ chunk) = 0 ∧ ∃ chunks,
      Delivers attempt.before (buf ++ chunk) (nextRecv call chunk.length) chunks ∧
      ∃ made ∈ recvCalls attempt.before (buf ++ chunk) (nextRecv call chunk.length) chunks,
        ¬made.Fits := by
  induction fuel generalizing round buf chunk call conn with
  | zero => cases hoverrun
  | succ fuel ih =>
    obtain ⟨hend, hreceived, hpos, hstep⟩ := dbrecvLoop_overrun_step hoffset hoverrun
    have hle := sessionChunk_le attempt round (nextRecv call chunk.length) conn
    refine ⟨hend, ?_⟩
    rcases hstep with hover | hlater
    · refine ⟨[], trivial, _, mem_singleton_self _, ?_⟩
      rintro ⟨hfits, _⟩
      exact absurd (hover.trans_le (Nat.add_le_add_left hle _)) (not_lt.mpr hfits)
    · obtain ⟨hgoes, chunks, hdelivers, made, hmade, hunfit⟩ := ih hreceived hlater
      refine ⟨sessionChunk attempt round (nextRecv call chunk.length) conn :: chunks,
        ⟨⟨hpos, hle⟩, fun _ => hdelivers⟩, made, ?_, hunfit⟩
      rw [recvCalls, if_neg (not_not.mpr hgoes)]
      exact mem_cons_of_mem _ hmade

/-- A session only runs over its buffer by calls that do not fit. -/
theorem dbrecv_overrun (hoverrun : dbrecv attempt conn = .overrun) :
    ∃ chunks, Delivers attempt.before [] firstRecv chunks ∧
      ¬∀ call ∈ dbrecvCalls attempt.before chunks, call.Fits := by
  have hgot := sessionChunk_length attempt 0 firstRecv conn
  have hle := sessionChunk_le attempt 0 firstRecv conn
  rw [dbrecv] at hoverrun
  split at hoverrun
  · change (if recvLength (attempt.segment 0) firstRecv.request conn.unread.length = 0 then _
      else dbrecvLoop attempt conn.unread.length 1 ([] ++ sessionChunk attempt 0 firstRecv conn)
        (recvLength (attempt.segment 0) firstRecv.request conn.unread.length)
        firstRecv.buflen _) = _ at hoverrun
    rw [← hgot] at hoverrun
    split at hoverrun
    · cases hoverrun
    · rename_i hsome
      have hempty : firstRecv.offset = ([] : Bytes).length := rfl
      obtain ⟨hgoes, chunks, hdelivers, made, hmade, hunfit⟩ :=
        dbrecvLoop_overrun hempty hoverrun
      refine ⟨sessionChunk attempt 0 firstRecv conn :: chunks,
        ⟨⟨Nat.pos_of_ne_zero hsome, hle⟩, fun _ => hdelivers⟩, ?_⟩
      intro hfits
      simp_all [dbrecvCalls.eq_1, recvCalls.eq_2]
  · cases hoverrun

end Session

namespace ReplyBufferWitness

/-- The first line of a reply comes alone. -/
def firstLine : List Bytes := [[50, 10]]

theorem firstLine_fits : Delivers 0 [] firstRecv firstLine ∧
    ∀ call ∈ dbrecvCalls 0 firstLine, call.Fits := by
  have hdelivers : Delivers 0 [] firstRecv firstLine := ⟨by decide, fun _ => trivial⟩
  refine ⟨hdelivers, (dbrecvCalls_fit_iff 0 firstLine hdelivers).mpr ?_⟩
  intro span hspan
  obtain rfl := mem_singleton.mp hspan
  exact ⟨Or.inl (dvd_zero _), by decide⟩

/-- Two bytes come one by one. -/
def byteByByte : List Bytes := [[50], [10]]

/-- The third call may write one byte behind the buffer. -/
theorem byteByByte_overruns : Delivers 0 [] firstRecv byteByByte ∧
    dbrecvCalls 0 byteByByte = [⟨0, 10240, 10240⟩, ⟨1, 10239, 10240⟩, ⟨2, 10239, 10240⟩] ∧
    ¬∀ call ∈ dbrecvCalls 0 byteByByte, call.Fits := by
  refine ⟨⟨by decide, fun _ => ⟨by decide, fun _ => trivial⟩⟩, by decide, by decide⟩

end ReplyBufferWitness

end WaterWall
