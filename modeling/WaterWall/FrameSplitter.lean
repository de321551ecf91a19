/-
`an_tcp_recv` and `an_split_rcv_buf_to_json` of main.c: received bytes are
appended to `rcv_buf`, and frames, each a newline and a JSON text, are cut off
its front and handed to the allocator.  The model keeps the buffer as memory
whose bytes behind `rcv_len` are arbitrary, and records every access.
-/
import WaterWall.ByteText

namespace WaterWall

open ByteText List

/-- The memory that `rcv_buf` points to, by index. -/
abbrev Mem := Nat → Byte

/-- The receiving half of an_socket_t; `none` is the null pointer. -/
structure RcvSocket where
  rcvBuf : Option Mem
  rcvLen : Int
  rcvBuflen : Int

def RcvSocket.fresh : RcvSocket := ⟨none, 0, 0⟩

/-- AN_TCP_BUF_LEN. -/
def anTcpBufLen : Nat := 1024

/-- Largest `_s32`. -/
def s32Max : Int := 2 ^ 31 - 1

/-- One call of `al_allocate_task`. -/
structure Task where
  text : Bytes
  len : Nat
  deriving DecidableEq, Repr

/-- A byte looked at, or a `memmove` inside `rcv_buf`, with `rcv_len` (and
`rcv_buflen`) at that moment. -/
inductive Access where
  | inspect (index : Nat) (rcvLen : Int)
  | move (dst src : Nat) (len rcvLen rcvBuflen : Int)
  deriving DecidableEq, Repr

/-- A call returns, has undefined behaviour, or does not return. -/
inductive Outcome where
  | returned (ret : Int)
  | fault
  | diverged
  deriving DecidableEq, Repr

structure CallResult where
  outcome : Outcome
  sock : RcvSocket
  tasks : List Task
  accesses : List Access

def braceDelta (c : Byte) : Int :=
  if c = 123 then 1 else if c = 125 then -1 else 0

/-- The loop that skips to the first newline or NUL: `cut_len`. -/
def cutLoop (mem : Mem) (rcvLen : Int) : Nat → Nat → Nat × List Access
  | 0, cut => (cut, [])
  | fuel + 1, cut =>
    let access := Access.inspect cut rcvLen
    if mem cut ≠ 0 ∧ (cut : Int) < rcvLen ∧ mem cut ≠ 10 then
      let rest := cutLoop mem rcvLen fuel (cut + 1)
      (rest.1, access :: rest.2)
    else (cut, [access])

/-- The bytes that `%s` reads from `start` on.  The list ends with the first
byte that is no longer received data, if the string has not ended before. -/
def strReads (mem : Mem) (rcvLen : Int) : Nat → Nat → List Access
  | 0, _ => []
  | fuel + 1, start =>
    Access.inspect start rcvLen ::
      if mem start = 0 ∨ rcvLen ≤ start then []
      else strReads mem rcvLen fuel (start + 1)

/-- The text `snprintf` copies: at most `len` bytes, up to a NUL. -/
def strText (mem : Mem) (start len : Nat) : Bytes :=
  cstr ((List.range len).map fun i => mem (start + i))

def memmove (mem : Mem) (src : Nat) (len : Int) : Mem :=
  fun i => if (i : Int) < len then mem (src + i) else mem i

structure ScanState where
  jsonLen : Nat
  startP : Nat
  endP : Nat
  startFlag : Int
  packetFlag : Nat
  deriving DecidableEq, Repr

/-- How the scan is left: to what follows the loop, or by `goto OUT`. -/
inductive ScanExit where
  | leave | out
  deriving DecidableEq, Repr

structure ScanResult where
  exit : ScanExit
  state : ScanState
  accesses : List Access
  deriving DecidableEq, Repr

def ScanResult.after (access : Access) (rest : ScanResult) : ScanResult :=
  { rest with accesses := access :: rest.accesses }

/-- The loop over `json_len < rcv_len`. -/
def scanLoop (mem : Mem) (rcvLen : Int) : Nat → ScanState → ScanResult
  | 0, st => ⟨.leave, st, []⟩
  | fuel + 1, st =>
    if (st.jsonLen : Int) < rcvLen then
      let access := Access.inspect st.endP rcvLen
      if mem st.endP = 10 then
        let st := { st with
          packetFlag := st.packetFlag + 1
          endP := st.endP + 1
          startP := st.endP + 1 }
        if st.packetFlag > 1 then ⟨.out, st, [access]⟩
        else (scanLoop mem rcvLen fuel st).after access
      else
        let st := { st with
          startFlag := st.startFlag + braceDelta (mem st.endP)
          jsonLen := st.jsonLen + 1
          endP := st.endP + 1 }
        if st.startFlag = 0 ∧ st.packetFlag = 1 then ⟨.leave, st, [access]⟩
        else (scanLoop mem rcvLen fuel st).after access
    else ⟨.leave, st, []⟩

/-- Every round of the scan moves `end_p` on by one, and at most two newlines
are not counted by `json_len`. -/
def scanFuel (rcvLen : Int) : Nat := rcvLen.toNat + 2

/-- The code from the label REDO on, with `json_len` and `start_flag` as they
are carried over; `malloc` says which allocations succeed. -/
def redoLoop (malloc : Nat → Bool) : Nat → Mem → RcvSocket → Nat → Int → CallResult
  | 0, mem, sock, _, _ => ⟨.diverged, { sock with rcvBuf := some mem }, [], []⟩
  | fuel + 1, mem, sock, jsonLen, startFlag =>
    let scan := scanLoop mem sock.rcvLen (scanFuel sock.rcvLen)
      ⟨jsonLen, 0, 0, startFlag, 0⟩
    let jsonLen := scan.state.jsonLen
    let startFlag := scan.state.startFlag
    let kept : RcvSocket := { sock with rcvBuf := some mem }
    match scan.exit with
    | .out => ⟨.returned (-1), kept, [], scan.accesses⟩
    | .leave =>
      if jsonLen > 0 ∧ startFlag = 0 then
        if s32Max < jsonLen + 1 then ⟨.fault, kept, [], scan.accesses⟩
        else if malloc (jsonLen + 1) then
          let reads := strReads mem sock.rcvLen
            (sock.rcvLen.toNat + 1) scan.state.startP
          let len := sock.rcvLen - jsonLen + 1
          let move := Access.move 0 (jsonLen + 1) len sock.rcvLen sock.rcvBuflen
          let accesses := scan.accesses ++ reads ++ [move]
          if len < 0 then ⟨.fault, kept, [], accesses⟩
          else
            let task : Task := ⟨strText mem scan.state.startP jsonLen, jsonLen⟩
            let mem := memmove mem (jsonLen + 1) len
            let sock : RcvSocket :=
              { sock with rcvBuf := some mem, rcvLen := sock.rcvLen - (jsonLen + 1) }
            if 0 < sock.rcvLen then
              let rest := redoLoop malloc fuel mem sock jsonLen startFlag
              { rest with
                tasks := task :: rest.tasks
                accesses := accesses ++ rest.accesses }
            else ⟨.returned 0, sock, [task], accesses⟩
        else ⟨.returned (-1), kept, [], scan.accesses⟩
      else if 0 < sock.rcvLen ∧ startFlag = 0 then
        let rest := redoLoop malloc fuel mem kept jsonLen startFlag
        { rest with accesses := scan.accesses ++ rest.accesses }
      else ⟨.returned 0, kept, [], scan.accesses⟩

def anSplitRcvBufToJson (malloc : Nat → Bool) (sock : RcvSocket) : CallResult :=
  match sock.rcvBuf with
  | none => ⟨.returned (-1), sock, [], []⟩
  | some mem =>
    let cut := cutLoop mem sock.rcvLen (sock.rcvLen.toNat + 1) 0
    let moveLen := sock.rcvLen - cut.1
    let moved := if cut.1 > 0 then memmove mem cut.1 moveLen else mem
    let moves := if cut.1 > 0 then
      [Access.move 0 cut.1 moveLen sock.rcvLen sock.rcvBuflen] else []
    let sock : RcvSocket :=
      { sock with rcvBuf := some moved, rcvLen := sock.rcvLen - cut.1 }
    let info := strReads moved sock.rcvLen (sock.rcvLen.toNat + 1) 0
    let rest := redoLoop malloc (sock.rcvLen.toNat + 1) moved sock 0 0
    { rest with accesses := cut.2 ++ moves ++ info ++ rest.accesses }

/-- What the environment of one `an_tcp_recv` supplies: the received bytes, the
bytes of the buffer behind them, and which allocations succeed. -/
structure RecvInput where
  chunk : Bytes
  junk : Mem
  reallocOk : Bool
  malloc : Nat → Bool

/-- The buffer after `memcpy`: the bytes kept, the chunk, then arbitrary
memory. -/
def appendChunk (kept : Mem) (rcvLen : Nat) (chunk : Bytes) (junk : Mem) : Mem :=
  fun i =>
    if i < rcvLen then kept i
    else (chunk[i - rcvLen]?).getD (junk i)

def anTcpRecv (sock : RcvSocket) (input : RecvInput) : CallResult :=
  if input.chunk = [] then ⟨.returned (-1), sock, [], []⟩
  else
    let total := (input.chunk.length : Int) + sock.rcvLen
    if s32Max < total then ⟨.fault, sock, [], []⟩
    else if sock.rcvBuflen < total ∧ input.reallocOk = false then
      ⟨.returned (-1), { sock with rcvBuf := none }, [], []⟩
    else
      let buflen := max sock.rcvBuflen total
      if sock.rcvLen < 0 then ⟨.fault, { sock with rcvBuflen := buflen }, [], []⟩
      else
        let kept := sock.rcvBuf.getD fun _ => 0
        let mem := appendChunk kept sock.rcvLen.toNat input.chunk input.junk
        anSplitRcvBufToJson input.malloc ⟨some mem, total, buflen⟩

/-- One `an_tcp_recv` after the other; a call that does not return 0 is the
last one, as `an_tcp_events_do` then destroys the connection. -/
def recvRun : RcvSocket → List RecvInput → List CallResult
  | _, [] => []
  | sock, input :: inputs =>
    let call := anTcpRecv sock input
    call :: if call.outcome = .returned 0 then recvRun call.sock inputs else []

/-- The chunks of the calls: nonempty, at most AN_TCP_BUF_LEN bytes, and no
allocation fails. -/
def Received (inputs : List RecvInput) : Prop :=
  ∀ input ∈ inputs, 0 < input.chunk.length ∧ input.chunk.length ≤ anTcpBufLen ∧
    input.reallocOk = true ∧ ∀ size, input.malloc size = true

/-- The memory holds the text from `start` on. -/
def Reads (mem : Mem) (start : Nat) (text : Bytes) : Prop :=
  ∀ i b, text[i]? = some b → mem (start + i) = b

/-- Number of opening minus closing braces. -/
def depth (text : Bytes) : Int :=
  (text.map braceDelta).sum

/-- Length of the shortest nonempty beginning of the text at whose end the
brace count, started at `count`, is zero. -/
def firstReturn (count : Int) : Bytes → Option Nat
  | [] => none
  | b :: rest =>
    if count + braceDelta b = 0 then some 1
    else (firstReturn (count + braceDelta b) rest).map (· + 1)

/-- Accesses to consecutive bytes. -/
def inspects (rcvLen : Int) : Nat → Nat → List Access
  | _, 0 => []
  | start, count + 1 => .inspect start rcvLen :: inspects rcvLen (start + 1) count

/-- The scan state behind a text without newlines. -/
def ScanState.advance (st : ScanState) (text : Bytes) : ScanState :=
  { st with
    startFlag := st.startFlag + depth text
    jsonLen := st.jsonLen + text.length
    endP := st.endP + text.length }

/-- The scan state behind a newline. -/
def ScanState.newline (st : ScanState) : ScanState :=
  { st with
    packetFlag := st.packetFlag + 1
    endP := st.endP + 1
    startP := st.endP + 1 }

section Reading

variable {mem : Mem} {start : Nat}

theorem reads_nil : Reads mem start [] := by
  intro i b hb
  simp at hb

theorem reads_cons {b : Byte} {text : Bytes} :
    Reads mem start (b :: text) ↔ mem start = b ∧ Reads mem (start + 1) text := by
  constructor
  · intro hreads
    refine ⟨hreads 0 b rfl, fun i c hc => ?_⟩
    have hbyte := hreads (i + 1) c (by simpa using hc)
    rwa [show start + (i + 1) = start + 1 + i by omega] at hbyte
  · rintro ⟨hhead, htail⟩ i c hc
    cases i with
    | zero =>
      rw [List.getElem?_cons_zero, Option.some.injEq] at hc
      rw [Nat.add_zero, hhead, hc]
    | succ i =>
      rw [List.getElem?_cons_succ] at hc
      rw [show start + (i + 1) = start + 1 + i by omega]
      exact htail i c hc

theorem Reads.append_left {left right : Bytes}
    (hreads : Reads mem start (left ++ right)) : Reads mem start left := by
  intro i b hb
  have hi : i < left.length := (List.getElem?_eq_some_iff.mp hb).1
  exact hreads i b (by rw [List.getElem?_append_left hi, hb])

theorem Reads.append_right {left right : Bytes}
    (hreads : Reads mem start (left ++ right)) :
    Reads mem (start + left.length) right := by
  intro i b hb
  have hbyte := hreads (left.length + i) b (by
    rw [List.getElem?_append_right (by omega), Nat.add_sub_cancel_left, hb])
  rwa [← Nat.add_assoc] at hbyte

theorem Reads.take {text : Bytes} (hreads : Reads mem start text) (n : Nat) :
    Reads mem start (text.take n) := by
  rw [← take_append_drop n text] at hreads
  exact hreads.append_left

theorem Reads.concat {text : Bytes} (hreads : Reads mem start text) :
    Reads mem start (text ++ [mem (start + text.length)]) := by
  intro i b hb
  by_cases hi : i < text.length
  · rw [List.getElem?_append_left hi] at hb
    exact hreads i b hb
  grind

theorem Reads.memmove {text : Bytes} (hreads : Reads mem start text) {len : Int}
    (hlen : (text.length : Int) ≤ len) : Reads (memmove mem start len) 0 text := by
  intro i b hb
  have hi : i < text.length := (List.getElem?_eq_some_iff.mp hb).1
  rw [WaterWall.memmove, if_pos (by omega), Nat.zero_add]
  exact hreads i b hb

theorem Reads.appendChunk {text : Bytes} (hreads : Reads mem 0 text)
    (chunk : Bytes) (junk : Mem) :
    Reads (appendChunk mem text.length chunk junk) 0 (text ++ chunk) := by
  intro i b hb
  rw [WaterWall.appendChunk, Nat.zero_add]
  by_cases hi : i < text.length
  · rw [List.getElem?_append_left hi] at hb
    rw [if_pos hi]
    simpa using hreads i b hb
  grind

theorem strText_of_reads {text : Bytes} (hreads : Reads mem start text)
    (hnul : (0 : Byte) ∉ text) : strText mem start text.length = text := by
  have hmap : (List.range text.length).map (fun i => mem (start + i)) = text := by
    apply ext_getElem?
    intro i
    rw [List.getElem?_map]
    by_cases hi : i < text.length
    · rw [List.getElem?_range hi, Option.map_some,
        hreads i _ (List.getElem?_eq_getElem hi), List.getElem?_eq_getElem hi]
    grind
  rw [strText, hmap, cstr_eq_self hnul]

end Reading

section Braces

@[simp]
theorem depth_nil : depth [] = 0 := rfl

@[simp]
theorem depth_cons (b : Byte) (text : Bytes) :
    depth (b :: text) = braceDelta b + depth text := by
  simp [depth]

theorem firstReturn_bounds {count : Int} {text : Bytes} {z : Nat}
    (hreturn : firstReturn count text = some z) : 0 < z ∧ z ≤ text.length := by
  induction text generalizing count z with
  | nil => simp [firstReturn] at hreturn
  | cons b text ih =>
    rw [firstReturn] at hreturn
    grind [Option.map_eq_some_iff]

theorem firstReturn_depth {count : Int} {text : Bytes} {z : Nat}
    (hreturn : firstReturn count text = some z) :
    count + depth (text.take z) = 0 := by
  induction text generalizing count z with
  | nil => simp [firstReturn] at hreturn
  | cons b text ih =>
    rw [firstReturn] at hreturn
    split at hreturn
    · rename_i hzero
      rw [← Option.some.inj hreturn]
      simpa using hzero
    grind [Option.map_eq_some_iff, depth_cons]

end Braces

section Scanning

variable {mem : Mem} {rcvLen : Int} {st : ScanState}

theorem scanLoop_bound (hbound : rcvLen ≤ st.jsonLen) (fuel : Nat) :
    scanLoop mem rcvLen fuel st = ⟨.leave, st, []⟩ := by
  cases fuel with
  | zero => rfl
  | succ fuel => rw [scanLoop, if_neg (by omega)]

theorem scanLoop_newline (hbyte : mem st.endP = 10) (hin : (st.jsonLen : Int) < rcvLen)
    (fuel : Nat) :
    scanLoop mem rcvLen (fuel + 1) st =
      if st.packetFlag = 0 then
        (scanLoop mem rcvLen fuel st.newline).after (.inspect st.endP rcvLen)
      else ⟨.out, st.newline, [.inspect st.endP rcvLen]⟩ := by
  rw [scanLoop, if_pos hin, if_pos hbyte]
  by_cases hflag : st.packetFlag = 0
  · rw [if_pos hflag, if_neg (by simp [hflag])]
    rfl
  · rw [if_neg hflag, if_pos (by simpa using Nat.pos_of_ne_zero hflag)]
    rfl

theorem scanLoop_byte {b : Byte} (hbyte : mem st.endP = b) (hb : b ≠ 10)
    (hin : (st.jsonLen : Int) < rcvLen) (fuel : Nat) :
    scanLoop mem rcvLen (fuel + 1) st =
      if st.startFlag + braceDelta b = 0 ∧ st.packetFlag = 1 then
        ⟨.leave, st.advance [b], [.inspect st.endP rcvLen]⟩
      else
        (scanLoop mem rcvLen fuel (st.advance [b])).after
          (.inspect st.endP rcvLen) := by
  have hadvance : st.advance [b] = { st with
      startFlag := st.startFlag + braceDelta b
      jsonLen := st.jsonLen + 1
      endP := st.endP + 1 } := by
    simp [ScanState.advance]
  rw [scanLoop, if_pos hin, if_neg (by rw [hbyte]; exact hb), hadvance, hbyte]

theorem ScanState.advance_cons (st : ScanState) (b : Byte) (text : Bytes) :
    (st.advance [b]).advance text = st.advance (b :: text) := by
  simp only [advance, depth_cons, depth_nil, length_cons, length_nil,
    mk.injEq, and_true, true_and]
  omega

def ScanResult.afterAll (accesses : List Access) (rest : ScanResult) : ScanResult :=
  { rest with accesses := accesses ++ rest.accesses }

theorem scanLoop_advance {text : Bytes} (hreads : Reads mem st.endP text)
    (hline : (10 : Byte) ∉ text) (hin : (st.jsonLen : Int) + text.length ≤ rcvLen)
    (hstop : st.packetFlag = 1 → firstReturn st.startFlag text = none)
    (fuel : Nat) :
    scanLoop mem rcvLen (text.length + fuel) st =
      (scanLoop mem rcvLen fuel (st.advance text)).afterAll
        (inspects rcvLen st.endP text.length) := by
  induction text generalizing st with
  | nil => simp [ScanState.advance, ScanResult.afterAll, inspects]
  | cons b text ih =>
    obtain ⟨hbyte, htail⟩ := reads_cons.mp hreads
    simp only [mem_cons, not_or] at hline
    rw [length_cons] at hin
    have hgo : ¬ (st.startFlag + braceDelta b = 0 ∧ st.packetFlag = 1) := by
      rintro ⟨hzero, hone⟩
      have hnone := hstop hone
      rw [firstReturn, if_pos hzero] at hnone
      exact absurd hnone (by simp)
    have hrest : (st.advance [b]).packetFlag = 1 →
        firstReturn (st.advance [b]).startFlag text = none := by
      intro hone
      have hnone := hstop hone
      rw [firstReturn] at hnone
      split at hnone
      · exact absurd hnone (by simp)
      · simpa [ScanState.advance] using hnone
    have hcons := @ih (st.advance [b]) (by simpa [ScanState.advance] using htail)
      hline.2 (by simp only [ScanState.advance, length_singleton]; omega) hrest
    rw [length_cons, show text.length + 1 + fuel = text.length + fuel + 1 by omega,
      scanLoop_byte hbyte (Ne.symm hline.1) (by omega), if_neg hgo, hcons,
      ScanState.advance_cons]
    rfl

theorem scanLoop_return {text : Bytes} (hreads : Reads mem st.endP text)
    (hline : (10 : Byte) ∉ text) (hflag : st.packetFlag = 1) {z : Nat}
    (hreturn : firstReturn st.startFlag text = some z)
    (hin : (st.jsonLen : Int) + z ≤ rcvLen) (fuel : Nat) :
    scanLoop mem rcvLen (z + fuel) st =
      ⟨.leave, st.advance (text.take z), inspects rcvLen st.endP z⟩ := by
  induction text generalizing st z with
  | nil => simp [firstReturn] at hreturn
  | cons b text ih =>
    obtain ⟨hbyte, htail⟩ := reads_cons.mp hreads
    simp only [mem_cons, not_or] at hline
    rw [firstReturn] at hreturn
    split at hreturn
    · rename_i hzero
      obtain rfl : 1 = z := Option.some.inj hreturn
      rw [Nat.add_comm, scanLoop_byte hbyte (Ne.symm hline.1) (by omega),
        if_pos ⟨hzero, hflag⟩]
      rfl
    · rename_i hne
      obtain ⟨w, hw, rfl⟩ := Option.map_eq_some_iff.mp hreturn
      have hcons := @ih (st.advance [b])
        (by simpa [ScanState.advance] using htail) hline.2 hflag w
        (by simpa [ScanState.advance] using hw)
        (by simp only [ScanState.advance, length_singleton]; omega)
      rw [show w + 1 + fuel = w + fuel + 1 by omega,
        scanLoop_byte hbyte (Ne.symm hline.1) (by omega),
        if_neg fun hboth => hne hboth.1, hcons, ScanState.advance_cons,
        take_succ_cons]
      rfl

end Scanning

section Receiving

variable {sock : RcvSocket} {buffered : Nat} {input : RecvInput}

/-- The socket with a chunk read in behind what is buffered. -/
def RcvSocket.extend (sock : RcvSocket) (buffered : Nat) (input : RecvInput) : RcvSocket where
  rcvBuf := some
    (appendChunk (sock.rcvBuf.getD fun _ => 0) buffered input.chunk input.junk)
  rcvLen := (buffered + input.chunk.length : Nat)
  rcvBuflen := max sock.rcvBuflen (buffered + input.chunk.length : Nat)

theorem anTcpRecv_eq_split (hrcv : sock.rcvLen = buffered)
    (hchunk : 0 < input.chunk.length) (hrealloc : input.reallocOk = true)
    (hmax : ((buffered + input.chunk.length : Nat) : Int) ≤ s32Max) :
    anTcpRecv sock input = anSplitRcvBufToJson input.malloc (sock.extend buffered input) := by
  have hsum : (input.chunk.length : Int) + buffered =
      (buffered + input.chunk.length : Nat) := by
    omega
  rw [anTcpRecv, if_neg (ne_nil_of_length_pos hchunk)]
  simp only [hrcv, hsum, hrealloc]
  rw [if_neg (by omega), if_neg (by simp), if_neg (by omega), Int.toNat_natCast]
  rfl

theorem anTcpRecv_overflow (hchunk : 0 < input.chunk.length)
    (hmax : s32Max < (input.chunk.length : Int) + sock.rcvLen) :
    (anTcpRecv sock input).outcome = .fault := by
  rw [anTcpRecv, if_neg (ne_nil_of_length_pos hchunk)]
  simp only [hmax, ↓reduceIte]

end Receiving

end WaterWall
