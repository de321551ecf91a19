/-
When does `an_tcp_recv` put the frames of a byte stream together again?  The
abstract state is the list of frames not yet handed over and the number of
their bytes that are buffered; each call moves it on, or spoils the stream.
-/
import WaterWall.FrameSplitter

namespace WaterWall

open ByteText List

/-- A scan of a JSON text that knows string literals. -/
structure JsonScan where
  depth : Int
  inString : Bool
  escaped : Bool
  deriving DecidableEq, Repr

def JsonScan.step (scan : JsonScan) (c : Byte) : JsonScan :=
  if scan.inString then
    if scan.escaped then { scan with escaped := false }
    else if c = 92 then { scan with escaped := true }
    else if c = 34 then { scan with inString := false }
    else scan
  else if c = 34 then { scan with inString := true }
  else { scan with depth := scan.depth + braceDelta c }

/-- The serialised text of a JSON object, as a frame carries it. -/
structure JsonObject where
  text : Bytes
  opens : text.head? = some 123
  balanced : text.foldl JsonScan.step ⟨0, false, false⟩ = ⟨0, false, false⟩
  noNewline : (10 : Byte) ∉ text
  noNul : (0 : Byte) ∉ text

/-- The bytes that a sender puts on the wire. -/
def stream (frames : List Bytes) : Bytes :=
  frames.flatMap fun text => 10 :: text

def frameTask (text : Bytes) : Task :=
  ⟨text, text.length⟩

/-- After a frame of `carry` bytes has been handed over: what the REDO loop
makes of the `left` bytes behind it.  `json_len` still counts the `carry`
bytes, so the next frame is scanned only up to `left - carry` bytes, and is cut
off with a length that is `carry` too large. -/
def drainFrames (carry left : Nat) : List Bytes → Option (Nat × List Bytes)
  | [] => if left = 0 then some (0, []) else none
  | text :: frames =>
    if left = 0 then some (0, text :: frames)
    else if left ≤ carry then none
    else
      match firstReturn 0 (text.take (left - carry)) with
      | some z =>
        if carry + z = text.length ∧ text.length < left then
          drainFrames text.length (left - (text.length + 1)) frames
        else none
      | none =>
        if left - carry ≤ text.length then some (left, text :: frames) else none

/-- One call: `total` bytes are buffered after the append, and `stale` is the
byte behind them.  The scan looks at the received part of the first frame and,
as it does not count the newline, at the stale byte. -/
def receiveFrames (total : Nat) (stale : Byte) :
    List Bytes → Option (Nat × List Bytes)
  | [] => none
  | text :: frames =>
    match firstReturn 0 (text.take (total - 1)) with
    | some z =>
      if z = text.length then
        drainFrames text.length (total - (text.length + 1)) frames
      else none
    | none =>
      if total ≤ text.length + 1 ∧ stale ≠ 10 ∧
          depth (text.take (total - 1)) + braceDelta stale ≠ 0 then
        some (total, text :: frames)
      else none

/-- Every call moves the frames on, no call exceeds the range of `_s32`, and
nothing is left at the end. -/
def Reassembles : Nat → List Bytes → List RecvInput → Prop
  | buffered, frames, [] => buffered = 0 ∧ frames = []
  | buffered, frames, input :: inputs =>
    let total := buffered + input.chunk.length
    (total : Int) ≤ s32Max ∧
      match receiveFrames total (input.junk total) frames with
      | some (left, rest) => Reassembles left rest inputs
      | none => False

/-- Every call of the run is made and returns 0, and the tasks are the frames,
in order. -/
def Delivered (frames : List Bytes) (inputs : List RecvInput)
    (calls : List CallResult) : Prop :=
  calls.length = inputs.length ∧
    (∀ call ∈ calls, call.outcome = .returned 0) ∧
    calls.flatMap CallResult.tasks = frames.map frameTask

/-- What the proofs below use of a frame. -/
structure FrameText (text : Bytes) : Prop where
  opens : text.head? = some 123
  noNewline : (10 : Byte) ∉ text
  noNul : (0 : Byte) ∉ text

/-- The buffer holds the first `buffered` bytes of the frames. -/
structure Holding (sock : RcvSocket) (buffered : Nat) (frames : List Bytes) : Prop where
  rcvLen : sock.rcvLen = buffered
  within : buffered ≤ (stream frames).length
  reads : Reads (sock.rcvBuf.getD fun _ => 0) 0 ((stream frames).take buffered)

/-- The call hands over some frames and holds what is left of the buffered
bytes. -/
def Moves (call : CallResult) (frames : List Bytes) (total left : Nat)
    (rest : List Bytes) : Prop :=
  call.outcome = .returned 0 ∧ Holding call.sock left rest ∧
    ∃ handed, frames = handed ++ rest ∧ call.tasks = handed.map frameTask ∧
      total = (stream handed).length + left

/-- The stream cannot be delivered any more: the call fails, its tasks are not
the next frames, or `rcv_len` is negative while bytes are still to come. -/
def Spoils (call : CallResult) (frames : List Bytes) (total : Nat) : Prop :=
  call.outcome ≠ .returned 0 ∨ ¬ call.tasks <+: frames.map frameTask ∨
    (call.sock.rcvLen < 0 ∧ total < (stream frames).length)

/-- What the abstract step says of a call. -/
def Follows (call : CallResult) (frames : List Bytes) (total : Nat) :
    Option (Nat × List Bytes) → Prop
  | some (left, rest) => Moves call frames total left rest
  | none => Spoils call frames total

section FrameScan

variable {mem : Mem} {carry total : Nat} {text : Bytes}

theorem scanLoop_start (hline : mem 0 = 10) (hin : carry < total) (fuel : Nat) :
    scanLoop mem total (fuel + 1) ⟨carry, 0, 0, 0, 0⟩ =
      (scanLoop mem total fuel ⟨carry, 1, 1, 0, 1⟩).after (.inspect 0 total) := by
  rw [scanLoop_newline hline (by exact_mod_cast hin), if_pos rfl]
  rfl

theorem scanFrame_return (hline : mem 0 = 10) (hreads : Reads mem 1 text)
    (hnewline : (10 : Byte) ∉ text) {z : Nat}
    (hreturn : firstReturn 0 text = some z) (hin : carry + z ≤ total) :
    (scanLoop mem total (scanFuel total) ⟨carry, 0, 0, 0, 0⟩).exit = .leave ∧
      (scanLoop mem total (scanFuel total) ⟨carry, 0, 0, 0, 0⟩).state =
        ⟨carry + z, 1, 1 + z, 0, 1⟩ := by
  obtain ⟨hpos, hle⟩ := firstReturn_bounds hreturn
  have hdepth := firstReturn_depth hreturn
  have hfuel : scanFuel total = z + (total - z + 1) + 1 := by
    rw [scanFuel]
    omega
  have hlength : (text.take z).length = z := by simp [hle]
  rw [hfuel, scanLoop_start hline (by omega),
    @scanLoop_return mem total ⟨carry, 1, 1, 0, 1⟩ text hreads hnewline rfl z
      hreturn (by exact_mod_cast hin)]
  simp only [ScanResult.after, ScanState.advance, hlength, hdepth, and_self]

theorem scanFrame_wait (hline : mem 0 = 10) (hreads : Reads mem 1 text)
    (hnewline : (10 : Byte) ∉ text) (hreturn : firstReturn 0 text = none)
    (hpos : 0 < text.length) (hin : carry + text.length = total) :
    (scanLoop mem total (scanFuel total) ⟨carry, 0, 0, 0, 0⟩).exit = .leave ∧
      (scanLoop mem total (scanFuel total) ⟨carry, 0, 0, 0, 0⟩).state =
        ⟨total, 1, 1 + text.length, depth text, 1⟩ := by
  have hfuel : scanFuel total = text.length + (carry + 1) + 1 := by
    rw [scanFuel]
    omega
  rw [hfuel, scanLoop_start hline (by omega),
    @scanLoop_advance mem total ⟨carry, 1, 1, 0, 1⟩ text hreads hnewline
      (by simp only; omega) (fun _ => hreturn),
    scanLoop_bound (by simp only [ScanState.advance]; omega)]
  simp only [ScanResult.after, ScanResult.afterAll, ScanState.advance, Int.zero_add,
    hin, and_self]

theorem scanFrame_out (hline : mem 0 = 10) (hreads : Reads mem 1 text)
    (hnewline : (10 : Byte) ∉ text) (hreturn : firstReturn 0 text = none)
    (hin : carry + text.length < total) (hnext : mem (1 + text.length) = 10) :
    (scanLoop mem total (scanFuel total) ⟨carry, 0, 0, 0, 0⟩).exit = .out := by
  have hfuel : scanFuel total =
      text.length + ((total - text.length) + 1) + 1 := by
    rw [scanFuel]
    omega
  rw [hfuel, scanLoop_start hline (by omega),
    @scanLoop_advance mem total ⟨carry, 1, 1, 0, 1⟩ text hreads hnewline
      (by simp only; omega) (fun _ => hreturn),
    scanLoop_newline hnext (by simp only [ScanState.advance]; omega),
    if_neg (by simp [ScanState.advance])]
  rfl

end FrameScan

section Redo

variable {malloc : Nat → Bool} {mem : Mem} {sock : RcvSocket} {carry : Nat}

/-- The task that a pass hands over when its scan ends in `state`. -/
def scanTask (mem : Mem) (state : ScanState) : Task :=
  ⟨strText mem state.startP state.jsonLen, state.jsonLen⟩

/-- The socket after a frame of `jsonLen` bytes has been cut off. -/
def cutSock (mem : Mem) (sock : RcvSocket) (jsonLen : Nat) : RcvSocket :=
  { sock with
    rcvBuf := some (memmove mem (jsonLen + 1) (sock.rcvLen - jsonLen + 1))
    rcvLen := sock.rcvLen - (jsonLen + 1) }

theorem redoLoop_out {fuel : Nat} {startFlag : Int}
    (hexit : (scanLoop mem sock.rcvLen (scanFuel sock.rcvLen)
      ⟨carry, 0, 0, startFlag, 0⟩).exit = .out) :
    (redoLoop malloc (fuel + 1) mem sock carry startFlag).outcome =
      .returned (-1) := by
  rw [redoLoop]
  simp only [hexit]

theorem redoLoop_wait {fuel : Nat} {startFlag : Int} {state : ScanState}
    (hexit : (scanLoop mem sock.rcvLen (scanFuel sock.rcvLen)
      ⟨carry, 0, 0, startFlag, 0⟩).exit = .leave)
    (hstate : (scanLoop mem sock.rcvLen (scanFuel sock.rcvLen)
      ⟨carry, 0, 0, startFlag, 0⟩).state = state)
    (hflag : state.startFlag ≠ 0) :
    (redoLoop malloc (fuel + 1) mem sock carry startFlag).outcome = .returned 0 ∧
      (redoLoop malloc (fuel + 1) mem sock carry startFlag).sock =
        { sock with rcvBuf := some mem } ∧
      (redoLoop malloc (fuel + 1) mem sock carry startFlag).tasks = [] := by
  rw [redoLoop]
  simp only [hexit, hstate, hflag, and_false, ↓reduceIte, and_self]

/-- A pass whose scan ends with a brace count of zero fails, or hands over the
bytes it counted and goes on with what is left. -/
theorem redoLoop_emit (hmalloc : ∀ size, malloc size = true) (fuel : Nat)
    {startFlag : Int} {state : ScanState}
    (hexit : (scanLoop mem sock.rcvLen (scanFuel sock.rcvLen)
      ⟨carry, 0, 0, startFlag, 0⟩).exit = .leave)
    (hstate : (scanLoop mem sock.rcvLen (scanFuel sock.rcvLen)
      ⟨carry, 0, 0, startFlag, 0⟩).state = state)
    (hflag : state.startFlag = 0) (hpos : 0 < state.jsonLen) :
    let call := redoLoop malloc (fuel + 1) mem sock carry startFlag
    let cut := cutSock mem sock state.jsonLen
    let rest := redoLoop malloc fuel
      (memmove mem (state.jsonLen + 1) (sock.rcvLen - state.jsonLen + 1)) cut
      state.jsonLen 0
    (s32Max < state.jsonLen + 1 ∨ sock.rcvLen - state.jsonLen + 1 < 0) ∧
        call.outcome = .fault ∨
      call.tasks = scanTask mem state :: (if 0 < cut.rcvLen then rest.tasks else []) ∧
        call.outcome = (if 0 < cut.rcvLen then rest.outcome else .returned 0) ∧
        call.sock = (if 0 < cut.rcvLen then rest.sock else cut) := by
  intro call cut rest
  have hcall : call = redoLoop malloc (fuel + 1) mem sock carry startFlag := rfl
  rw [redoLoop] at hcall
  simp only [hexit, hstate, hflag, hpos, hmalloc, and_self, ↓reduceIte] at hcall
  by_cases hbig : s32Max < state.jsonLen + 1
  · left
    rw [if_pos hbig] at hcall
    exact ⟨Or.inl hbig, by rw [hcall]⟩
  · rw [if_neg hbig] at hcall
    by_cases hneg : sock.rcvLen - state.jsonLen + 1 < 0
    · left
      rw [if_pos hneg] at hcall
      exact ⟨Or.inr hneg, by rw [hcall]⟩
    · right
      rw [if_neg hneg] at hcall
      by_cases hmore : 0 < sock.rcvLen - (state.jsonLen + 1)
      · rw [if_pos hmore] at hcall
        have hcut : 0 < cut.rcvLen := hmore
        simp only [hcut, ↓reduceIte]
        rw [hcall]
        exact ⟨rfl, rfl, rfl⟩
      · rw [if_neg hmore] at hcall
        have hcut : ¬ 0 < cut.rcvLen := hmore
        simp only [hcut, ↓reduceIte]
        rw [hcall]
        exact ⟨rfl, rfl, rfl⟩

end Redo

section Stream

variable {mem : Mem} {text : Bytes} {frames : List Bytes} {total : Nat}

theorem stream_cons (text : Bytes) (frames : List Bytes) :
    stream (text :: frames) = 10 :: (text ++ stream frames) := by
  simp [stream]

theorem stream_append (handed rest : List Bytes) :
    stream (handed ++ rest) = stream handed ++ stream rest := by
  simp [stream]

theorem stream_cons_length (text : Bytes) (frames : List Bytes) :
    (stream (text :: frames)).length = text.length + 1 + (stream frames).length := by
  rw [stream_cons, length_cons, length_append]
  omega

theorem take_stream_cons (hpos : 0 < total) :
    (stream (text :: frames)).take total =
      10 :: (text.take (total - 1) ++ (stream frames).take (total - 1 - text.length)) := by
  rw [stream_cons, take_cons hpos, take_append]

theorem reads_newline (hreads : Reads mem 0 ((stream (text :: frames)).take total))
    (hpos : 0 < total) : mem 0 = 10 := by
  rw [take_stream_cons hpos] at hreads
  exact (reads_cons.mp hreads).1

theorem reads_text (hreads : Reads mem 0 ((stream (text :: frames)).take total))
    (hpos : 0 < total) : Reads mem 1 (text.take (total - 1)) := by
  rw [take_stream_cons hpos] at hreads
  exact (reads_cons.mp hreads).2.append_left

theorem reads_rest (hreads : Reads mem 0 ((stream (text :: frames)).take total))
    (hcomplete : text.length < total) :
    Reads mem (text.length + 1) ((stream frames).take (total - (text.length + 1))) := by
  rw [take_stream_cons (by omega), take_of_length_le (by omega)] at hreads
  have hright := (reads_cons.mp hreads).2.append_right
  rwa [show 0 + 1 + text.length = text.length + 1 by omega,
    show total - 1 - text.length = total - (text.length + 1) by omega] at hright

theorem reads_next_newline
    (hreads : Reads mem 0 ((stream (text :: frames)).take total))
    (hwithin : total ≤ (stream (text :: frames)).length)
    (hmore : text.length + 1 < total) : mem (1 + text.length) = 10 := by
  have hrest := reads_rest hreads (by omega)
  rw [stream_cons_length] at hwithin
  cases frames with
  | nil =>
    simp only [stream, flatMap_nil, length_nil] at hwithin
    omega
  | cons next frames =>
    rw [take_stream_cons (by omega)] at hrest
    rw [Nat.add_comm]
    exact (reads_cons.mp hrest).1

theorem firstReturn_none_depth {count : Int} {text : Bytes}
    (hreturn : firstReturn count text = none) (hne : text ≠ []) :
    count + depth text ≠ 0 := by
  induction text generalizing count with
  | nil => exact absurd rfl hne
  | cons b text ih =>
    rw [firstReturn] at hreturn
    split at hreturn
    · exact absurd hreturn (by simp)
    · rename_i hzero
      rw [Option.map_eq_none_iff] at hreturn
      rw [depth_cons]
      cases text with
      | nil => simpa using hzero
      | cons c text =>
        have hrest := ih hreturn (by simp)
        omega

theorem firstReturn_concat {count : Int} {text : Bytes}
    (hreturn : firstReturn count text = none) (b : Byte) :
    firstReturn count (text ++ [b]) =
      if count + depth text + braceDelta b = 0 then some (text.length + 1)
      else none := by
  induction text generalizing count with
  | nil => simp [firstReturn]
  | cons c text ih =>
    rw [firstReturn] at hreturn
    split at hreturn
    · exact absurd hreturn (by simp)
    · rename_i hzero
      rw [Option.map_eq_none_iff] at hreturn
      rw [cons_append, firstReturn, if_neg hzero, ih hreturn, depth_cons,
        length_cons, Int.add_assoc count]
      split <;> simp

end Stream

section Spoiling

variable {call inner : CallResult} {text : Bytes} {frames : List Bytes} {total left : Nat}

theorem spoils_of_task {task : Task} {more : List Task}
    (htasks : call.tasks = task :: more) (hne : task ≠ frameTask text) :
    Spoils call (text :: frames) total := by
  right
  left
  rw [htasks, map_cons, cons_prefix_cons]
  exact fun hboth => hne hboth.1

theorem Follows.cons (houtcome : call.outcome = inner.outcome)
    (hsock : call.sock = inner.sock)
    (htasks : call.tasks = frameTask text :: inner.tasks)
    {result : Option (Nat × List Bytes)} (hinner : Follows inner frames left result) :
    Follows call (text :: frames) (text.length + 1 + left) result := by
  cases result with
  | none =>
    rcases hinner with hfail | htask | ⟨hneg, hmore⟩
    · exact Or.inl (houtcome ▸ hfail)
    · right
      grind
    · right
      grind [stream_cons_length]
  | some next =>
    obtain ⟨hreturn, hholding, handed, hframes, hhanded, hleft⟩ := hinner
    refine ⟨houtcome ▸ hreturn, hsock ▸ hholding, text :: handed, ?_, ?_, ?_⟩
    · rw [hframes, cons_append]
    · rw [htasks, hhanded, map_cons]
    · rw [stream_cons_length]
      omega

end Spoiling

section Calls

variable {malloc : Nat → Bool} {mem : Mem} {sock : RcvSocket} {carry total fuel : Nat}
  {text : Bytes} {frames : List Bytes}

theorem drainFrames_zero (carry : Nat) (frames : List Bytes) :
    drainFrames carry 0 frames = some (0, frames) := by
  cases frames <;> simp [drainFrames]

/-- A pass that counts exactly the first frame hands it over; what follows is
decided by the pass over the rest. -/
theorem redoLoop_handOver (hmalloc : ∀ size, malloc size = true)
    (hframe : FrameText text) (hrcv : sock.rcvLen = total)
    (hmax : (total : Int) ≤ s32Max)
    (hreads : Reads mem 0 ((stream (text :: frames)).take total))
    (hcomplete : text.length < total)
    (hwithin : total ≤ (stream (text :: frames)).length)
    {endP : Nat}
    (hexit : (scanLoop mem sock.rcvLen (scanFuel sock.rcvLen)
      ⟨carry, 0, 0, 0, 0⟩).exit = .leave)
    (hstate : (scanLoop mem sock.rcvLen (scanFuel sock.rcvLen)
      ⟨carry, 0, 0, 0, 0⟩).state = ⟨text.length, 1, endP, 0, 1⟩)
    (hrest : ∀ (moved : Mem) (cut : RcvSocket) (left : Nat), 0 < left →
      left = total - (text.length + 1) → cut.rcvLen = left →
      Reads moved 0 ((stream frames).take left) →
      Follows (redoLoop malloc fuel moved cut text.length 0) frames left
        (drainFrames text.length left frames)) :
    Follows (redoLoop malloc (fuel + 1) mem sock carry 0) (text :: frames) total
      (drainFrames text.length (total - (text.length + 1)) frames) := by
  have hpos : 0 < text.length := by
    cases text with
    | nil => exact absurd hframe.opens (by simp)
    | cons b text => simp
  have htotal : total = text.length + 1 + (total - (text.length + 1)) := by omega
  have htext : Reads mem 1 text := by
    have htake := reads_text hreads (by omega)
    rwa [take_of_length_le (by omega)] at htake
  have htask : scanTask mem ⟨text.length, 1, endP, 0, 1⟩ = frameTask text := by
    simp only [scanTask, frameTask, strText_of_reads htext hframe.noNul]
  have hmoved : Reads (memmove mem (text.length + 1) (sock.rcvLen - text.length + 1)) 0
      ((stream frames).take (total - (text.length + 1))) := by
    apply (reads_rest hreads hcomplete).memmove
    rw [hrcv, length_take]
    omega
  have hcut : (cutSock mem sock text.length).rcvLen =
      (total - (text.length + 1) : Nat) := by
    simp only [cutSock, hrcv]
    omega
  rcases redoLoop_emit hmalloc fuel hexit hstate rfl hpos with
    ⟨hbig | hneg, _⟩ | ⟨htasks, houtcome, hsock⟩
  · simp only at hbig
    omega
  · simp only [hrcv] at hneg
    omega
  · simp only [htask, hcut] at htasks houtcome hsock
    by_cases hmore : 0 < total - (text.length + 1)
    · have hmoreInt : (0 : Int) < (total - (text.length + 1) : Nat) := by omega
      rw [if_pos hmoreInt] at htasks houtcome hsock
      rw [htotal, Nat.add_sub_cancel_left]
      exact Follows.cons houtcome hsock htasks
        (hrest _ _ _ hmore rfl hcut hmoved)
    · have hmoreInt : ¬ (0 : Int) < (total - (text.length + 1) : Nat) := by omega
      have hzero : total - (text.length + 1) = 0 := by omega
      rw [if_neg hmoreInt] at htasks houtcome hsock
      rw [hzero, drainFrames_zero]
      refine ⟨houtcome, ?_, [text], rfl, by rw [htasks]; rfl, ?_⟩
      · rw [hsock]
        refine ⟨by rw [hcut, hzero], by omega, ?_⟩
        rw [take_zero]
        exact reads_nil
      grind [stream]

/-- A pass that counts another number of bytes than the first frame has, or
that counts the frame before all of it is there, spoils the stream. -/
theorem redoLoop_miscount (hmalloc : ∀ size, malloc size = true)
    (hrcv : sock.rcvLen = total)
    {state : ScanState}
    (hexit : (scanLoop mem sock.rcvLen (scanFuel sock.rcvLen)
      ⟨carry, 0, 0, 0, 0⟩).exit = .leave)
    (hstate : (scanLoop mem sock.rcvLen (scanFuel sock.rcvLen)
      ⟨carry, 0, 0, 0, 0⟩).state = state)
    (hflag : state.startFlag = 0) (hpos : 0 < state.jsonLen)
    (hbad : scanTask mem state ≠ frameTask text ∨
      (total ≤ state.jsonLen ∧ total < (stream (text :: frames)).length)) :
    Spoils (redoLoop malloc (fuel + 1) mem sock carry 0) (text :: frames) total := by
  rcases redoLoop_emit hmalloc fuel hexit hstate hflag hpos with
    ⟨_, hfault⟩ | ⟨htasks, _, hsock⟩
  · left
    rw [hfault]
    simp
  · rcases hbad with htask | ⟨hshort, hmore⟩
    · exact spoils_of_task htasks htask
    · right
      right
      have hcut : (cutSock mem sock state.jsonLen).rcvLen < 0 := by
        simp only [cutSock, hrcv]
        omega
      rw [if_neg (by omega)] at hsock
      rw [hsock]
      exact ⟨hcut, hmore⟩

theorem redoLoop_keep (hrcv : sock.rcvLen = total)
    (hreads : Reads mem 0 ((stream (text :: frames)).take total))
    (hwithin : total ≤ (stream (text :: frames)).length) {state : ScanState}
    (hexit : (scanLoop mem sock.rcvLen (scanFuel sock.rcvLen)
      ⟨carry, 0, 0, 0, 0⟩).exit = .leave)
    (hstate : (scanLoop mem sock.rcvLen (scanFuel sock.rcvLen)
      ⟨carry, 0, 0, 0, 0⟩).state = state)
    (hflag : state.startFlag ≠ 0) :
    Moves (redoLoop malloc (fuel + 1) mem sock carry 0) (text :: frames) total total
      (text :: frames) := by
  obtain ⟨houtcome, hsock, htasks⟩ := redoLoop_wait hexit hstate hflag
  refine ⟨houtcome, ?_, [], rfl, htasks, by simp [stream]⟩
  rw [hsock]
  exact ⟨hrcv, hwithin, hreads⟩

theorem redoLoop_secondLine (hrcv : sock.rcvLen = total) (hline : mem 0 = 10)
    {seen : Bytes} (hseen : Reads mem 1 seen) (hnewline : (10 : Byte) ∉ seen)
    (hreturn : firstReturn 0 seen = none) (hin : carry + seen.length < total)
    (hnext : mem (1 + seen.length) = 10) :
    Spoils (redoLoop malloc (fuel + 1) mem sock carry 0) frames total := by
  have hout := scanFrame_out hline hseen hnewline hreturn hin hnext
  rw [← hrcv] at hout
  left
  rw [redoLoop_out hout]
  decide

theorem redoLoop_unfinished (hrcv : sock.rcvLen = total)
    (hreads : Reads mem 0 ((stream (text :: frames)).take total))
    (hwithin : total ≤ (stream (text :: frames)).length) (hline : mem 0 = 10)
    {seen : Bytes} (hseen : Reads mem 1 seen) (hnewline : (10 : Byte) ∉ seen)
    (hreturn : firstReturn 0 seen = none) (hpos : 0 < seen.length)
    (hend : carry + seen.length = total) :
    Moves (redoLoop malloc (fuel + 1) mem sock carry 0) (text :: frames) total total
      (text :: frames) := by
  obtain ⟨hexit, hstate⟩ := scanFrame_wait hline hseen hnewline hreturn hpos hend
  rw [← hrcv] at hexit hstate
  refine redoLoop_keep hrcv hreads hwithin hexit hstate ?_
  have hdepth := firstReturn_none_depth hreturn (ne_nil_of_length_pos hpos)
  rwa [Int.zero_add] at hdepth

theorem strText_head (hline : mem 0 = 10) (hcarry : 0 < carry) :
    (strText mem 0 carry).head? = some 10 := by
  obtain ⟨count, rfl⟩ : ∃ count, carry = count + 1 := ⟨carry - 1, by omega⟩
  rw [strText, range_succ_eq_map, map_cons, cstr]
  simp [hline]

/-- A pass that has counted all of `rcv_len` before it scans hands over a text that
starts with the newline. -/
theorem redoLoop_counted (hmalloc : ∀ size, malloc size = true) (hframe : FrameText text)
    (hcarry : 0 < carry) (hrcv : sock.rcvLen = total) (hline : mem 0 = 10)
    (hshort : total ≤ carry) :
    Spoils (redoLoop malloc (fuel + 1) mem sock carry 0) (text :: frames) total := by
  have hscan : scanLoop mem sock.rcvLen (scanFuel sock.rcvLen)
      ⟨carry, 0, 0, 0, 0⟩ = ⟨.leave, ⟨carry, 0, 0, 0, 0⟩, []⟩ :=
    scanLoop_bound (by rw [hrcv]; simp only; omega) _
  refine redoLoop_miscount hmalloc hrcv (by rw [hscan]) (by rw [hscan]) rfl
    hcarry (Or.inl ?_)
  intro heq
  have hhead := congrArg (fun task => task.text.head?) heq
  grind [scanTask, frameTask, strText_head, FrameText.opens]

theorem redoLoop_drain (hmalloc : ∀ size, malloc size = true)
    (hframes : ∀ text ∈ frames, FrameText text) (hcarry : 0 < carry)
    (hpos : 0 < total) (hwithin : total ≤ (stream frames).length)
    (hmax : (total : Int) ≤ s32Max) (hrcv : sock.rcvLen = total)
    (hreads : Reads mem 0 ((stream frames).take total)) (hfuel : total < fuel) :
    Follows (redoLoop malloc fuel mem sock carry 0) frames total
      (drainFrames carry total frames) := by
  induction frames generalizing mem sock carry total fuel with
  | nil =>
    simp only [stream, flatMap_nil, length_nil] at hwithin
    omega
  | cons text frames ih =>
    obtain ⟨fuel, rfl⟩ : ∃ count, fuel = count + 1 := ⟨fuel - 1, by omega⟩
    have hframe := hframes text mem_cons_self
    have hline := reads_newline hreads hpos
    have hlength := stream_cons_length text frames
    rw [drainFrames, if_neg (by omega)]
    by_cases hshort : total ≤ carry
    · rw [if_pos hshort]
      exact redoLoop_counted hmalloc hframe hcarry hrcv hline hshort
    · rw [if_neg hshort]
      have htext : Reads mem 1 (text.take (total - carry)) := by
        have htake := (reads_text hreads hpos).take (total - carry)
        rwa [take_take, Nat.min_eq_left (by omega)] at htake
      have hnewline : (10 : Byte) ∉ text.take (total - carry) :=
        fun hmem => hframe.noNewline (mem_of_mem_take hmem)
      cases hreturn : firstReturn 0 (text.take (total - carry)) with
      | some z =>
        obtain ⟨hz, hle⟩ := firstReturn_bounds hreturn
        rw [length_take] at hle
        obtain ⟨hexit, hstate⟩ := scanFrame_return hline htext hnewline hreturn
          (show carry + z ≤ total by omega)
        rw [← hrcv] at hexit hstate
        by_cases hgood : carry + z = text.length ∧ text.length < total
        · simp only [hgood, and_self, ↓reduceIte]
          rw [hgood.1] at hstate
          refine redoLoop_handOver hmalloc hframe hrcv hmax hreads hgood.2
            hwithin hexit hstate ?_
          intro moved cut left hleft heq hcut hmoved
          exact ih (fun other hother => hframes other (mem_cons_of_mem text hother))
            (by omega) hleft (by omega) (by omega) hcut hmoved (by omega)
        · simp only [hgood, ↓reduceIte]
          refine redoLoop_miscount hmalloc hrcv hexit hstate rfl
            (show 0 < carry + z by omega) ?_
          by_cases hcount : carry + z = text.length
          · exact Or.inr ⟨by simp only; omega, by omega⟩
          · left
            intro heq
            exact hcount (congrArg Task.len heq)
      | none =>
        by_cases hpart : total - carry ≤ text.length
        · simp only [hpart, ↓reduceIte]
          have hcount : (text.take (total - carry)).length = total - carry := by
            rw [length_take]
            omega
          exact redoLoop_unfinished hrcv hreads hwithin hline htext hnewline hreturn
            (by omega) (by omega)
        · simp only [hpart, ↓reduceIte]
          have hall : text.take (total - carry) = text :=
            take_of_length_le (by omega)
          rw [hall] at htext hreturn
          exact redoLoop_secondLine hrcv hline htext hframe.noNewline hreturn
            (by omega) (reads_next_newline hreads hwithin (by omega))

theorem redoLoop_stale (hmalloc : ∀ size, malloc size = true)
    (hrcv : sock.rcvLen = total) (hwithin : total ≤ (stream (text :: frames)).length)
    (hreads : Reads mem 0 ((stream (text :: frames)).take total))
    (hline : mem 0 = 10) (htext : Reads mem 1 (text.take (total - 1)))
    (hnewline : (10 : Byte) ∉ text.take (total - 1))
    (hreturn : firstReturn 0 (text.take (total - 1)) = none)
    (hpos : 0 < total) (hpart : total ≤ text.length + 1) :
    Follows (redoLoop malloc (fuel + 1) mem sock 0 0) (text :: frames) total
      (if total ≤ text.length + 1 ∧ mem total ≠ 10 ∧
          depth (text.take (total - 1)) + braceDelta (mem total) ≠ 0 then
        some (total, text :: frames)
      else none) := by
  have hlength := stream_cons_length text frames
  have hcount : (text.take (total - 1)).length = total - 1 := by
    rw [length_take]
    omega
  have hindex : 1 + (text.take (total - 1)).length = total := by omega
  by_cases hstale : mem total = 10
  · rw [if_neg fun hboth => hboth.2.1 hstale]
    exact redoLoop_secondLine hrcv hline htext hnewline hreturn (by omega)
      (by rw [hindex]; exact hstale)
  · have hseen := htext.concat
    rw [hindex] at hseen
    have hnoline : (10 : Byte) ∉ text.take (total - 1) ++ [mem total] := by
      rw [mem_append, mem_singleton]
      rintro (hmem | heq)
      · exact hnewline hmem
      · exact hstale heq.symm
    have hnext := firstReturn_concat hreturn (mem total)
    rw [Int.zero_add] at hnext
    by_cases hzero : depth (text.take (total - 1)) + braceDelta (mem total) = 0
    · rw [if_neg fun hboth => hboth.2.2 hzero]
      rw [if_pos hzero] at hnext
      obtain ⟨hexit, hstate⟩ := scanFrame_return hline hseen hnoline hnext
        (show 0 + _ ≤ total by omega)
      rw [← hrcv] at hexit hstate
      refine redoLoop_miscount hmalloc hrcv hexit hstate rfl
        (by simp only; omega) ?_
      by_cases hfull : total < (stream (text :: frames)).length
      · exact Or.inr ⟨by simp only; omega, hfull⟩
      · left
        intro heq
        have hlen := congrArg Task.len heq
        simp only [scanTask, frameTask] at hlen
        omega
    · rw [if_pos ⟨hpart, hstale, hzero⟩]
      rw [if_neg hzero] at hnext
      apply redoLoop_unfinished hrcv hreads hwithin hline hseen hnoline hnext (by simp)
      rw [length_append, length_singleton]
      omega

theorem redoLoop_first (hmalloc : ∀ size, malloc size = true)
    (hframes : ∀ text ∈ frames, FrameText text)
    (hpos : 0 < total) (hwithin : total ≤ (stream frames).length)
    (hmax : (total : Int) ≤ s32Max) (hrcv : sock.rcvLen = total)
    (hreads : Reads mem 0 ((stream frames).take total)) (hfuel : total < fuel) :
    Follows (redoLoop malloc fuel mem sock 0 0) frames total
      (receiveFrames total (mem total) frames) := by
  cases frames with
  | nil =>
    simp only [stream, flatMap_nil, length_nil] at hwithin
    omega
  | cons text frames =>
    obtain ⟨fuel, rfl⟩ : ∃ count, fuel = count + 1 := ⟨fuel - 1, by omega⟩
    have hframe := hframes text mem_cons_self
    have hrest := fun other hother =>
      hframes other (mem_cons_of_mem text hother)
    have hline := reads_newline hreads hpos
    have htext := reads_text hreads hpos
    have hlength := stream_cons_length text frames
    have hnewline : (10 : Byte) ∉ text.take (total - 1) :=
      fun hmem => hframe.noNewline (mem_of_mem_take hmem)
    rw [receiveFrames]
    cases hreturn : firstReturn 0 (text.take (total - 1)) with
    | some z =>
      obtain ⟨hz, hle⟩ := firstReturn_bounds hreturn
      rw [length_take] at hle
      obtain ⟨hexit, hstate⟩ := scanFrame_return hline htext hnewline hreturn
        (show 0 + z ≤ total by omega)
      rw [← hrcv, Nat.zero_add] at hstate
      rw [← hrcv] at hexit
      by_cases hgood : z = text.length
      · simp only [hgood, ↓reduceIte]
        rw [hgood] at hstate
        refine redoLoop_handOver hmalloc hframe hrcv hmax hreads (by omega)
          hwithin hexit hstate ?_
        intro moved cut left hleft heq hcut hmoved
        exact redoLoop_drain hmalloc hrest (by omega) hleft (by omega) (by omega)
          hcut hmoved (by omega)
      · simp only [hgood, ↓reduceIte]
        refine redoLoop_miscount hmalloc hrcv hexit hstate rfl hz (Or.inl ?_)
        intro heq
        exact hgood (congrArg Task.len heq)
    | none =>
      by_cases hmore : text.length + 1 < total
      · rw [if_neg (by omega)]
        have hall : text.take (total - 1) = text :=
          take_of_length_le (by omega)
        rw [hall] at htext hreturn
        exact redoLoop_secondLine hrcv hline htext hframe.noNewline hreturn
          (by omega) (reads_next_newline hreads hwithin hmore)
      grind [redoLoop_stale]

theorem anSplitRcvBufToJson_newline (hline : mem 0 = 10)
    (hbuf : sock.rcvBuf = some mem) :
    (anSplitRcvBufToJson malloc sock).outcome =
        (redoLoop malloc (sock.rcvLen.toNat + 1) mem sock 0 0).outcome ∧
      (anSplitRcvBufToJson malloc sock).sock =
        (redoLoop malloc (sock.rcvLen.toNat + 1) mem sock 0 0).sock ∧
      (anSplitRcvBufToJson malloc sock).tasks =
        (redoLoop malloc (sock.rcvLen.toNat + 1) mem sock 0 0).tasks := by
  have hcut : (cutLoop mem sock.rcvLen (sock.rcvLen.toNat + 1) 0).1 = 0 := by
    rw [cutLoop, if_neg fun hboth => hboth.2.2 hline]
  have hlen : sock.rcvLen - (0 : Nat) = sock.rcvLen := by simp
  have hsame : ({ sock with rcvBuf := some mem } : RcvSocket) = sock := by
    rw [← hbuf]
  simp_all [anSplitRcvBufToJson]

theorem Follows.of_eq {call inner : CallResult} (houtcome : call.outcome = inner.outcome)
    (hsock : call.sock = inner.sock) (htasks : call.tasks = inner.tasks)
    {result : Option (Nat × List Bytes)} (hinner : Follows inner frames total result) :
    Follows call frames total result := by
  simp_all [Follows, Spoils.eq_1, Moves.eq_1]

theorem anTcpRecv_follows {buffered : Nat} {input : RecvInput}
    (hframes : ∀ text ∈ frames, FrameText text)
    (hholding : Holding sock buffered frames)
    (hchunk : 0 < input.chunk.length) (hrealloc : input.reallocOk = true)
    (hmalloc : ∀ size, input.malloc size = true)
    (hnext : input.chunk <+: (stream frames).drop buffered)
    (hmax : ((buffered + input.chunk.length : Nat) : Int) ≤ s32Max) :
    Follows (anTcpRecv sock input) frames (buffered + input.chunk.length)
      (receiveFrames (buffered + input.chunk.length)
        (input.junk (buffered + input.chunk.length)) frames) := by
  obtain ⟨hrcv, hwithin, hreads⟩ := hholding
  obtain ⟨later, hlater⟩ := hnext
  have hlength : ((stream frames).take buffered).length = buffered := by
    rw [length_take]
    omega
  have htotal : buffered + input.chunk.length ≤ (stream frames).length := by
    have hcount := congrArg List.length hlater
    rw [length_append, length_drop] at hcount
    omega
  have htake : (stream frames).take (buffered + input.chunk.length) =
      (stream frames).take buffered ++ input.chunk := by
    rw [take_add, ← hlater, take_left]
  have hmem := hreads.appendChunk input.chunk input.junk
  rw [hlength, ← htake] at hmem
  have hstale : appendChunk (sock.rcvBuf.getD fun _ => 0) buffered input.chunk
      input.junk (buffered + input.chunk.length) =
      input.junk (buffered + input.chunk.length) := by
    rw [appendChunk, if_neg (by omega), Nat.add_sub_cancel_left,
      List.getElem?_eq_none (le_refl _), Option.getD_none]
  have hline : appendChunk (sock.rcvBuf.getD fun _ => 0) buffered input.chunk
      input.junk 0 = 10 := by
    cases frames with
    | nil =>
      simp only [stream, flatMap_nil, length_nil] at htotal
      omega
    | cons text frames => exact reads_newline hmem (by omega)
  rw [anTcpRecv_eq_split hrcv hchunk hrealloc hmax, ← hstale]
  obtain ⟨houtcome, hsock, htasks⟩ := @anSplitRcvBufToJson_newline input.malloc _
    (sock.extend buffered input) hline rfl
  refine Follows.of_eq houtcome hsock htasks ?_
  exact redoLoop_first hmalloc hframes (by omega) htotal hmax rfl hmem
    (by simp only [RcvSocket.extend, Int.toNat_natCast]; omega)

end Calls

section Runs

variable {sock : RcvSocket} {frames : List Bytes} {buffered : Nat}
  {input : RecvInput} {inputs : List RecvInput}

theorem delivered_cons_iff :
    Delivered frames (input :: inputs) (recvRun sock (input :: inputs)) ↔
      (anTcpRecv sock input).outcome = .returned 0 ∧
        ∃ rest, frames.map frameTask = (anTcpRecv sock input).tasks ++ rest ∧
          (recvRun (anTcpRecv sock input).sock inputs).length = inputs.length ∧
          (∀ call ∈ recvRun (anTcpRecv sock input).sock inputs,
            call.outcome = .returned 0) ∧
          (recvRun (anTcpRecv sock input).sock inputs).flatMap CallResult.tasks =
            rest := by
  by_cases houtcome : (anTcpRecv sock input).outcome = .returned 0
  · simp only [Delivered, recvRun, houtcome, ↓reduceIte, length_cons,
      Nat.add_right_cancel_iff, mem_cons, forall_eq_or_imp, true_and,
      flatMap_cons]
    grind
  simp_all [Delivered, recvRun]

theorem anTcpRecv_negative (hneg : sock.rcvLen < 0)
    (hchunk : 0 < input.chunk.length) (hlen : input.chunk.length ≤ anTcpBufLen)
    (hrealloc : input.reallocOk = true) :
    (anTcpRecv sock input).outcome = .fault := by
  rw [anTcpBufLen] at hlen
  rw [anTcpRecv, if_neg (ne_nil_of_length_pos hchunk)]
  simp only [hrealloc]
  rw [if_neg (by rw [s32Max]; omega), if_neg (by simp), if_pos hneg]

theorem delivered_append_iff {handed rest : List Bytes}
    (houtcome : (anTcpRecv sock input).outcome = .returned 0)
    (htasks : (anTcpRecv sock input).tasks = handed.map frameTask) :
    Delivered (handed ++ rest) (input :: inputs) (recvRun sock (input :: inputs)) ↔
      Delivered rest inputs (recvRun (anTcpRecv sock input).sock inputs) := by
  rw [delivered_cons_iff, htasks, map_append]
  constructor
  · rintro ⟨_, more, hmore, hlength, hall, hflat⟩
    rw [append_cancel_left_eq] at hmore
    exact ⟨hlength, hall, by rw [hflat, hmore]⟩
  · rintro ⟨hlength, hall, hflat⟩
    exact ⟨houtcome, _, rfl, hlength, hall, hflat⟩

theorem drop_stream_append {handed rest : List Bytes} {left : Nat} {chunk later : Bytes}
    (hchunks : chunk ++ later = (stream (handed ++ rest)).drop buffered)
    (htotal : buffered + chunk.length = (stream handed).length + left) :
    later = (stream rest).drop left := by
  have hdrop := congrArg (List.drop chunk.length) hchunks
  rw [drop_left, drop_drop, htotal, stream_append, drop_append] at hdrop
  rw [hdrop, drop_eq_nil_of_le (by omega), nil_append, Nat.add_sub_cancel_left]

theorem not_delivered_of_spoils (hreceived : Received (input :: inputs))
    (hlater : (inputs.flatMap RecvInput.chunk).length =
      (stream frames).length - (buffered + input.chunk.length))
    (hspoils : Spoils (anTcpRecv sock input) frames (buffered + input.chunk.length)) :
    ¬ Delivered frames (input :: inputs) (recvRun sock (input :: inputs)) := by
  rw [delivered_cons_iff]
  rintro ⟨houtcome, rest, htasks, hlength, hall, _⟩
  rcases hspoils with hfail | htask | ⟨hneg, hmore⟩
  · exact hfail houtcome
  · exact htask ⟨rest, htasks.symm⟩
  · cases inputs with
    | nil =>
      simp only [flatMap_nil, length_nil] at hlater
      omega
    | cons next inputs =>
      obtain ⟨hchunk, hlen, hrealloc, _⟩ := hreceived next (by simp)
      have hfault := anTcpRecv_negative hneg hchunk hlen hrealloc
      have hzero := hall (anTcpRecv (anTcpRecv sock input).sock next) (by
        rw [recvRun]
        exact mem_cons_self)
      rw [hfault] at hzero
      exact absurd hzero (by decide)

theorem delivered_iff_reassembles (hframes : ∀ text ∈ frames, FrameText text)
    (hholding : Holding sock buffered frames) (hreceived : Received inputs)
    (hchunks : inputs.flatMap RecvInput.chunk = (stream frames).drop buffered) :
    Delivered frames inputs (recvRun sock inputs) ↔
      Reassembles buffered frames inputs := by
  induction inputs generalizing sock frames buffered with
  | nil =>
    have hwithin := hholding.within
    simp only [Delivered, recvRun, Reassembles, length_nil, not_mem_nil,
      false_implies, implies_true, flatMap_nil, true_and]
    constructor
    · intro htasks
      have hnil : frames = [] := map_eq_nil_iff.mp htasks.symm
      grind [stream]
    · rintro ⟨_, rfl⟩
      rfl
  | cons input inputs ih =>
    obtain ⟨hchunk, hlen, hrealloc, hmalloc⟩ := hreceived input mem_cons_self
    have hrest : Received inputs :=
      fun other hother => hreceived other (mem_cons_of_mem input hother)
    rw [flatMap_cons] at hchunks
    have hwithin := hholding.within
    have hcount := congrArg List.length hchunks
    rw [length_append, length_drop] at hcount
    rw [Reassembles]
    by_cases hmax : ((buffered + input.chunk.length : Nat) : Int) ≤ s32Max
    · have hfollows := anTcpRecv_follows hframes hholding hchunk hrealloc hmalloc
        ⟨_, hchunks⟩ hmax
      simp only [hmax, true_and]
      cases hstep : receiveFrames (buffered + input.chunk.length)
          (input.junk (buffered + input.chunk.length)) frames with
      | none =>
        rw [hstep] at hfollows
        exact iff_of_false
          (not_delivered_of_spoils hreceived (by omega) hfollows) id
      | some next =>
        obtain ⟨left, rest⟩ := next
        rw [hstep] at hfollows
        obtain ⟨houtcome, hleft, handed, rfl, htasks, htotal⟩ := hfollows
        rw [delivered_append_iff houtcome htasks]
        grind [drop_stream_append]
    · have hfault : (anTcpRecv sock input).outcome = .fault := by
        apply anTcpRecv_overflow hchunk
        rw [hholding.rcvLen]
        omega
      refine iff_of_false ?_ fun hboth => hmax hboth.1
      rw [delivered_cons_iff, hfault]
      rintro ⟨houtcome, _⟩
      exact absurd houtcome (by decide)

end Runs

theorem JsonObject.frameText (object : JsonObject) : FrameText object.text :=
  ⟨object.opens, object.noNewline, object.noNul⟩

/-- The frames of a stream are delivered, however it is cut into chunks, if and
only if every call moves the frames on. -/
theorem recvRun_delivered_iff (objects : List JsonObject) (inputs : List RecvInput)
    (hreceived : Received inputs)
    (hchunks : inputs.flatMap RecvInput.chunk =
      stream (objects.map JsonObject.text)) :
    Delivered (objects.map JsonObject.text) inputs (recvRun .fresh inputs) ↔
      Reassembles 0 (objects.map JsonObject.text) inputs := by
  have hframes : ∀ text ∈ objects.map JsonObject.text, FrameText text := by
    grind [JsonObject.frameText]
  have hfresh : Holding .fresh 0 (objects.map JsonObject.text) :=
    ⟨rfl, Nat.zero_le _, by rw [take_zero]; exact reads_nil⟩
  grind [delivered_iff_reassembles]

namespace ReassemblyWitness

def object : JsonObject := ⟨ascii "\x7b\x7d", by decide, by decide, by decide, by decide⟩

def input (text : String) : RecvInput :=
  ⟨ascii text, fun _ => 0, true, fun _ => true⟩

theorem received_inputs {texts : List String}
    (htexts : ∀ text ∈ texts, 0 < (ascii text).length ∧
      (ascii text).length ≤ anTcpBufLen) : Received (texts.map input) := by
  intro other hother
  obtain ⟨text, htext, rfl⟩ := mem_map.mp hother
  exact ⟨(htexts text htext).1, (htexts text htext).2, rfl, fun _ => rfl⟩

/-- Two frames in three chunks, the first one cut in its middle. -/
theorem recvRun_delivered_iff_cut :
    Delivered [ascii "\x7b\x7d", ascii "\x7b\x7d"] (["\n\x7b", "\x7d", "\n\x7b\x7d"].map input)
      (recvRun .fresh (["\n\x7b", "\x7d", "\n\x7b\x7d"].map input)) :=
  (recvRun_delivered_iff [object, object] (["\n\x7b", "\x7d", "\n\x7b\x7d"].map input)
    (received_inputs (by decide)) (by decide)).mpr
    ⟨by decide, by decide, by decide, rfl, rfl⟩

/-- Two frames in one chunk: the second one is not handed over. -/
theorem recvRun_two_frames :
    Received (["\n\x7b\x7d\n\x7b\x7d"].map input) ∧
      (["\n\x7b\x7d\n\x7b\x7d"].map input).flatMap RecvInput.chunk =
        stream ([object, object].map JsonObject.text) ∧
      (recvRun .fresh (["\n\x7b\x7d\n\x7b\x7d"].map input)).flatMap CallResult.tasks =
        [frameTask (ascii "\x7b\x7d")] ∧
      ¬ Delivered ([object, object].map JsonObject.text) (["\n\x7b\x7d\n\x7b\x7d"].map input)
        (recvRun .fresh (["\n\x7b\x7d\n\x7b\x7d"].map input)) := by
  have hrun : (recvRun .fresh (["\n\x7b\x7d\n\x7b\x7d"].map input)).flatMap CallResult.tasks =
      [frameTask (ascii "\x7b\x7d")] := by
    decide
  refine ⟨received_inputs (by decide), by decide, hrun, ?_⟩
  rintro ⟨_, _, htasks⟩
  rw [hrun] at htasks
  exact absurd htasks (by decide)

end ReassemblyWitness

end WaterWall
