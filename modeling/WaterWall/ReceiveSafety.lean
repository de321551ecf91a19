/-
Which bytes may a peer send without making `an_tcp_recv` leave its buffer?
Every frame that is handed over moves two bytes too many, a frame that is not
complete is scanned one byte too far, and the debug print reads on to a NUL.
-/
import WaterWall.FrameSplitter

namespace WaterWall

open ByteText List

/-- The byte looked at is received data; a move has a length that is not
negative, copies received data only, and stays inside the buffer. -/
def AccessSafe : Access → Prop
  | .inspect index rcvLen => (index : Int) < rcvLen
  | .move dst src len rcvLen rcvBuflen =>
    0 ≤ len ∧ (src : Int) + len ≤ rcvLen ∧ (src : Int) + len ≤ rcvBuflen ∧
      (dst : Int) + len ≤ rcvBuflen

/-- The call returns, with `0 <= rcv_len <= rcv_buflen`, and all its accesses
are safe. -/
def CallSafe (call : CallResult) : Prop :=
  (∃ ret, call.outcome = .returned ret) ∧ 0 ≤ call.sock.rcvLen ∧
    call.sock.rcvLen ≤ call.sock.rcvBuflen ∧
    ∀ access ∈ call.accesses, AccessSafe access

/-- What the first loop of the splitter leaves of the buffered bytes. -/
def keptBytes (data : Bytes) : Bytes :=
  data.dropWhile fun b => b ≠ 0 ∧ b ≠ 10

def beforeNewline (text : Bytes) : Bytes :=
  text.takeWhile fun b => b ≠ 10

def afterNewline (text : Bytes) : Bytes :=
  (text.dropWhile fun b => b ≠ 10).drop 1

/-- The scan meets a second newline before the brace count, taken over from in
front of the first newline, returns to zero behind it. -/
def SecondNewlineFirst (kept : Bytes) : Prop :=
  10 ∈ kept ∧ 10 ∈ afterNewline kept ∧
    firstReturn (depth (beforeNewline kept)) (beforeNewline (afterNewline kept)) = none

/-- The received bytes that keep a connection safe: what is kept holds a NUL,
and either the scan gives up at a second newline, which ends the connection, or
there is no newline and the braces do not balance, and the call just waits. -/
def SafeBytes : Bytes → List RecvInput → Prop
  | _, [] => True
  | live, input :: inputs =>
    let kept := keptBytes (live ++ input.chunk)
    ((live ++ input.chunk).length : Int) ≤ s32Max ∧ 0 ∈ kept ∧
      (SecondNewlineFirst kept ∨
        (10 ∉ kept ∧ depth kept ≠ 0 ∧ SafeBytes kept inputs))

section Lines

theorem split_newline {text : Bytes} (hline : (10 : Byte) ∈ text) :
    text = beforeNewline text ++ 10 :: afterNewline text := by
  have hsplit := takeWhile_append_dropWhile (p := fun b : Byte => b ≠ 10) (l := text)
  cases hdrop : text.dropWhile fun b => b ≠ 10 with
  | nil =>
    rw [dropWhile_eq_nil_iff] at hdrop
    exact absurd (hdrop 10 hline) (by simp)
  | cons b rest =>
    have hb : b = 10 := by
      have hne : (text.dropWhile fun b => b ≠ 10) ≠ [] := by
        rw [hdrop]
        exact cons_ne_nil b rest
      have hhead := head_dropWhile_not (fun b : Byte => b ≠ 10) hne
      grind
    rw [beforeNewline, afterNewline, hdrop, hb]
    rw [hdrop, hb] at hsplit
    simpa using hsplit.symm

theorem newline_not_mem_before (text : Bytes) : (10 : Byte) ∉ beforeNewline text := by
  intro hmem
  have hne := mem_takeWhile_imp hmem
  simp at hne

theorem beforeNewline_eq_self {text : Bytes} (hline : (10 : Byte) ∉ text) :
    beforeNewline text = text := by
  rw [beforeNewline, takeWhile_eq_self_iff]
  intro b hb
  simp only [decide_eq_true_eq]
  rintro rfl
  exact hline hb

end Lines

section Accesses

theorem inspects_safe {rcvLen : Int} {start count : Nat}
    (hbound : (start : Int) + count ≤ rcvLen) :
    ∀ access ∈ inspects rcvLen start count, AccessSafe access := by
  induction count generalizing start with
  | zero => simp [inspects]
  | succ count ih =>
    grind [inspects.eq_2, AccessSafe]

/-- The first loop runs over bytes that are neither NUL nor newline, and looks
at the one it stops at. -/
theorem cutLoop_skip {mem : Mem} {rcvLen : Int} {skipped : Bytes} {start : Nat}
    (hreads : Reads mem start skipped)
    (hskip : ∀ b ∈ skipped, b ≠ 0 ∧ b ≠ 10)
    (hin : (start : Int) + skipped.length ≤ rcvLen)
    (hstop : mem (start + skipped.length) = 0 ∨ mem (start + skipped.length) = 10 ∨
      rcvLen = start + skipped.length) (fuel : Nat) :
    cutLoop mem rcvLen (skipped.length + (fuel + 1)) start =
      (start + skipped.length, inspects rcvLen start (skipped.length + 1)) := by
  induction skipped generalizing start with
  | nil =>
    rw [length_nil, Nat.zero_add, cutLoop, if_neg ?_]
    · rfl
    grind
  | cons b skipped ih =>
    obtain ⟨hbyte, htail⟩ := reads_cons.mp hreads
    obtain ⟨hnul, hline⟩ := hskip b mem_cons_self
    rw [length_cons] at hin hstop ⊢
    have hrest := @ih (start + 1) htail
      (fun c hc => hskip c (mem_cons_of_mem b hc)) (by omega) (by
        rw [show start + 1 + skipped.length = start + (skipped.length + 1) by omega]
        grind)
    rw [show skipped.length + 1 + (fuel + 1) = skipped.length + (fuel + 1) + 1 by omega,
      cutLoop, if_pos ⟨by rw [hbyte]; exact hnul, by omega, by rw [hbyte]; exact hline⟩,
      hrest]
    simp only [Prod.mk.injEq]
    exact ⟨by omega, rfl⟩

theorem strReads_safe {mem : Mem} {rcvLen : Int} {stop : Nat} (hnul : mem stop = 0)
    (hin : (stop : Int) < rcvLen) (fuel : Nat) {start : Nat} (hstart : start ≤ stop) :
    ∀ access ∈ strReads mem rcvLen fuel start, AccessSafe access := by
  induction fuel generalizing start with
  | zero => simp [strReads]
  | succ fuel ih =>
    intro access haccess
    rw [strReads, mem_cons] at haccess
    rcases haccess with rfl | hrest
    · simp only [AccessSafe]
      omega
    grind

theorem strReads_overrun {mem : Mem} {rcvLen : Nat} {start count : Nat}
    (hnul : ∀ i, start ≤ i → i < rcvLen → mem i ≠ 0) (hcount : start + count = rcvLen)
    {fuel : Nat} (hfuel : count < fuel) :
    .inspect rcvLen rcvLen ∈ strReads mem rcvLen fuel start := by
  induction count generalizing start fuel with
  | zero =>
    obtain ⟨fuel, rfl⟩ : ∃ n, fuel = n + 1 := ⟨fuel - 1, by omega⟩
    rw [strReads, show start = rcvLen by omega]
    exact mem_cons_self
  | succ count ih =>
    obtain ⟨fuel, rfl⟩ : ∃ n, fuel = n + 1 := ⟨fuel - 1, by omega⟩
    rw [strReads, if_neg ?_]
    · exact mem_cons_of_mem _
        (ih (fun i hi => hnul i (by omega)) (by omega) (by omega))
    grind

theorem strReads_safe_iff {mem : Mem} {kept : Bytes} (hreads : Reads mem 0 kept) :
    (∀ access ∈ strReads mem kept.length (kept.length + 1) 0, AccessSafe access) ↔
      0 ∈ kept := by
  constructor
  · intro hsafe
    by_contra hnul
    have hover : Access.inspect kept.length kept.length ∈
        strReads mem kept.length (kept.length + 1) 0 := by
      refine strReads_overrun ?_ (Nat.zero_add _) (Nat.lt_succ_self _)
      intro i _ hi hzero
      have hbyte := hreads i _ (List.getElem?_eq_getElem hi)
      rw [Nat.zero_add, hzero] at hbyte
      exact hnul (hbyte ▸ getElem_mem hi)
    have hbad := hsafe _ hover
    simp only [AccessSafe] at hbad
    omega
  · intro hnul
    obtain ⟨i, hi, hbyte⟩ := getElem_of_mem hnul
    have hzero := hreads i _ (List.getElem?_eq_getElem hi)
    rw [Nat.zero_add, hbyte] at hzero
    exact strReads_safe hzero (by omega) _ (Nat.zero_le _)

end Accesses

section Pass

variable {malloc : Nat → Bool} {mem : Mem} {sock : RcvSocket} {kept : Bytes} {fuel : Nat}

theorem inspects_append (rcvLen : Int) (start left right : Nat) :
    inspects rcvLen start (left + right) =
      inspects rcvLen start left ++ inspects rcvLen (start + left) right := by
  induction left generalizing start with
  | zero => simp [inspects]
  | succ left ih =>
    rw [show left + 1 + right = left + right + 1 by omega, inspects, inspects, ih,
      show start + 1 + left = start + (left + 1) by omega, cons_append]

theorem scanLoop_first_newline {before behind : Bytes}
    (hreads : Reads mem 0 (before ++ 10 :: behind)) (hline : (10 : Byte) ∉ before) :
    scanLoop mem (before ++ 10 :: behind).length
        (scanFuel (before ++ 10 :: behind).length) ⟨0, 0, 0, 0, 0⟩ =
      (scanLoop mem (before ++ 10 :: behind).length (behind.length + 2)
        ⟨before.length, before.length + 1, before.length + 1, depth before, 1⟩).afterAll
        (inspects (before ++ 10 :: behind).length 0 (before.length + 1)) := by
  have hlength : (before ++ 10 :: behind).length = before.length + behind.length + 1 := by
    rw [length_append, length_cons]
    omega
  have hbyte : mem before.length = 10 := by
    have hrest := hreads.append_right
    rw [Nat.zero_add] at hrest
    exact (reads_cons.mp hrest).1
  have hfuel : scanFuel (before ++ 10 :: behind).length =
      before.length + (behind.length + 2 + 1) := by
    rw [scanFuel]
    omega
  have hadvance := @scanLoop_advance mem (before ++ 10 :: behind).length
    ⟨0, 0, 0, 0, 0⟩ before hreads.append_left hline (by simp only; omega)
    (fun hflag => absurd hflag (by decide)) (behind.length + 2 + 1)
  have hnewline := @scanLoop_newline mem (before ++ 10 :: behind).length
    ⟨before.length, 0, before.length, depth before, 0⟩ hbyte (by simp only; omega)
    (behind.length + 2)
  simp only [ScanState.advance, Nat.zero_add, Int.zero_add] at hadvance
  rw [hfuel, hadvance, hnewline, if_pos rfl, inspects_append]
  simp [ScanState.newline, ScanResult.after, ScanResult.afterAll, inspects]

theorem scan_accesses_subset (malloc : Nat → Bool) (mem : Mem) (sock : RcvSocket)
    (fuel : Nat) :
    (scanLoop mem sock.rcvLen (scanFuel sock.rcvLen) ⟨0, 0, 0, 0, 0⟩).accesses ⊆
      (redoLoop malloc (fuel + 1) mem sock 0 0).accesses := by
  intro access haccess
  rw [redoLoop]
  dsimp only
  repeat' split
  all_goals simp [haccess]

/-- A pass that ends with a brace count of zero is not safe: its `memmove`
copies two bytes that were not received. -/
theorem not_callSafe_of_emit (hmalloc : ∀ size, malloc size = true)
    {state : ScanState}
    (hexit : (scanLoop mem sock.rcvLen (scanFuel sock.rcvLen)
      ⟨0, 0, 0, 0, 0⟩).exit = .leave)
    (hstate : (scanLoop mem sock.rcvLen (scanFuel sock.rcvLen)
      ⟨0, 0, 0, 0, 0⟩).state = state)
    (hflag : state.startFlag = 0) (hpos : 0 < state.jsonLen) :
    ¬ CallSafe (redoLoop malloc (fuel + 1) mem sock 0 0) := by
  rintro ⟨⟨ret, hret⟩, _, _, hall⟩
  have hmove : ¬ AccessSafe (.move 0 (state.jsonLen + 1)
      (sock.rcvLen - state.jsonLen + 1) sock.rcvLen sock.rcvBuflen) := by
    rintro ⟨_, hcopied, _⟩
    push_cast at hcopied
    omega
  apply hmove
  apply hall
  rw [redoLoop] at hret ⊢
  simp only [hexit, hstate, hflag, hpos, hmalloc, and_self, ↓reduceIte] at hret ⊢
  by_cases hbig : s32Max < state.jsonLen + 1
  · rw [if_pos hbig] at hret
    exact absurd hret (by simp)
  · rw [if_neg hbig]
    repeat' split
    all_goals simp

theorem scanLoop_behind_newline {before behind : Bytes}
    (hreads : Reads mem 0 (before ++ 10 :: behind)) :
    Reads mem (before.length + 1) behind := by
  have hrest := hreads.append_right
  rw [Nat.zero_add] at hrest
  exact (reads_cons.mp hrest).2

theorem redoLoop_secondNewline (hreads : Reads mem 0 kept)
    (hrcv : sock.rcvLen = kept.length) (hbuflen : sock.rcvLen ≤ sock.rcvBuflen)
    (hsecond : SecondNewlineFirst kept) :
    (redoLoop malloc (fuel + 1) mem sock 0 0).outcome = .returned (-1) ∧
      CallSafe (redoLoop malloc (fuel + 1) mem sock 0 0) := by
  obtain ⟨hfirst, hagain, hreturn⟩ := hsecond
  have hkept := split_newline hfirst
  have hbehind := split_newline hagain
  generalize hbefore : beforeNewline kept = before at hkept hreturn
  generalize hmid : beforeNewline (afterNewline kept) = mid at hbehind hreturn
  generalize hrest : afterNewline (afterNewline kept) = rest at hbehind
  have hbeforeLine : (10 : Byte) ∉ before := hbefore ▸ newline_not_mem_before kept
  have hmidLine : (10 : Byte) ∉ mid := hmid ▸ newline_not_mem_before (afterNewline kept)
  rw [hbehind] at hkept
  clear hbefore hmid hrest hbehind hfirst hagain
  subst hkept
  have hscan := scanLoop_first_newline hreads hbeforeLine
  have htail := scanLoop_behind_newline hreads
  have hlength : (before ++ 10 :: (mid ++ 10 :: rest)).length =
      before.length + mid.length + rest.length + 2 := by
    simp only [length_append, length_cons]
    omega
  have hbyte : mem (before.length + 1 + mid.length) = 10 :=
    (reads_cons.mp htail.append_right).1
  have hadvance := @scanLoop_advance mem (before ++ 10 :: (mid ++ 10 :: rest)).length
    ⟨before.length, before.length + 1, before.length + 1, depth before, 1⟩ mid
    htail.append_left hmidLine (by simp only; omega) (fun _ => hreturn)
    (rest.length + 2 + 1)
  have hnewline := @scanLoop_newline mem (before ++ 10 :: (mid ++ 10 :: rest)).length
    ⟨before.length + mid.length, before.length + 1, before.length + 1 + mid.length,
      depth before + depth mid, 1⟩ hbyte (by simp only; omega) (rest.length + 2)
  rw [show (mid ++ 10 :: rest).length + 2 = mid.length + (rest.length + 2 + 1) by
    rw [length_append, length_cons]; omega] at hscan
  simp only [ScanState.advance] at hadvance
  rw [hadvance, hnewline, if_neg (show ¬ (1 = 0) by decide), ← hrcv] at hscan
  have hcall : redoLoop malloc (fuel + 1) mem sock 0 0 =
      ⟨.returned (-1), { sock with rcvBuf := some mem }, [],
        inspects sock.rcvLen 0 (before.length + 1) ++
          (inspects sock.rcvLen (before.length + 1) mid.length ++
            [.inspect (before.length + 1 + mid.length) sock.rcvLen])⟩ := by
    rw [redoLoop]
    simp only [hscan, ScanResult.afterAll]
  rw [hcall]
  refine ⟨rfl, ⟨-1, rfl⟩, by simp only; omega, hbuflen, ?_⟩
  intro access haccess
  simp only [mem_append, mem_singleton] at haccess
  rcases haccess with hleft | hmid | rfl
  · exact inspects_safe (by omega) access hleft
  · exact inspects_safe (by omega) access hmid
  · simp only [AccessSafe]
    omega

theorem scanLoop_no_newline (hreads : Reads mem 0 kept) (hline : (10 : Byte) ∉ kept) :
    scanLoop mem kept.length (scanFuel kept.length) ⟨0, 0, 0, 0, 0⟩ =
      ⟨.leave, ⟨kept.length, 0, kept.length, depth kept, 0⟩,
        inspects kept.length 0 kept.length⟩ := by
  have hadvance := @scanLoop_advance mem kept.length ⟨0, 0, 0, 0, 0⟩ kept hreads hline
    (by simp only; omega) (fun hflag => absurd hflag (by decide)) 2
  rw [show kept.length + 2 = scanFuel kept.length by rw [scanFuel]; omega] at hadvance
  rw [hadvance, scanLoop_bound (by simp only [ScanState.advance]; omega)]
  simp [ScanState.advance, ScanResult.afterAll]

theorem redoLoop_unbalanced (hreads : Reads mem 0 kept)
    (hrcv : sock.rcvLen = kept.length) (hbuflen : sock.rcvLen ≤ sock.rcvBuflen)
    (hline : (10 : Byte) ∉ kept) (hdepth : depth kept ≠ 0) :
    (redoLoop malloc (fuel + 1) mem sock 0 0).outcome = .returned 0 ∧
      (redoLoop malloc (fuel + 1) mem sock 0 0).sock =
        { sock with rcvBuf := some mem } ∧
      CallSafe (redoLoop malloc (fuel + 1) mem sock 0 0) := by
  have hscan := scanLoop_no_newline hreads hline
  rw [← hrcv] at hscan
  have hcall : redoLoop malloc (fuel + 1) mem sock 0 0 =
      ⟨.returned 0, { sock with rcvBuf := some mem }, [],
        inspects sock.rcvLen 0 kept.length⟩ := by
    rw [redoLoop]
    simp only [hscan, hdepth, and_false, ↓reduceIte]
  rw [hcall]
  exact ⟨rfl, rfl, ⟨0, rfl⟩, by simp only; omega, hbuflen,
    inspects_safe (by omega)⟩

theorem scanLoop_kept (hreads : Reads mem 0 kept) (hline : (10 : Byte) ∈ kept) :
    scanLoop mem kept.length (scanFuel kept.length) ⟨0, 0, 0, 0, 0⟩ =
      (scanLoop mem kept.length ((afterNewline kept).length + 2)
        ⟨(beforeNewline kept).length, (beforeNewline kept).length + 1,
          (beforeNewline kept).length + 1, depth (beforeNewline kept), 1⟩).afterAll
        (inspects kept.length 0 ((beforeNewline kept).length + 1)) := by
  have hkept := split_newline hline
  have hscan := scanLoop_first_newline (hkept ▸ hreads) (newline_not_mem_before kept)
  rwa [← hkept] at hscan

theorem length_split_newline (hline : (10 : Byte) ∈ kept) :
    kept.length = (beforeNewline kept).length + ((afterNewline kept).length + 1) := by
  have hlength := congrArg List.length (split_newline hline)
  rwa [length_append, length_cons] at hlength

theorem reads_between (hreads : Reads mem 0 kept) (hline : (10 : Byte) ∈ kept) :
    Reads mem ((beforeNewline kept).length + 1) (beforeNewline (afterNewline kept)) := by
  have htail := scanLoop_behind_newline (split_newline hline ▸ hreads)
  by_cases hagain : (10 : Byte) ∈ afterNewline kept
  · rw [split_newline hagain] at htail
    exact htail.append_left
  · rwa [beforeNewline_eq_self hagain]

theorem not_callSafe_of_return (hmalloc : ∀ size, malloc size = true)
    (hreads : Reads mem 0 kept) (hrcv : sock.rcvLen = kept.length)
    (hline : (10 : Byte) ∈ kept) {z : Nat}
    (hreturn : firstReturn (depth (beforeNewline kept))
      (beforeNewline (afterNewline kept)) = some z) :
    ¬ CallSafe (redoLoop malloc (fuel + 1) mem sock 0 0) := by
  have hscan := scanLoop_kept hreads hline
  have hlength := length_split_newline hline
  have hmidLength : (beforeNewline (afterNewline kept)).length ≤ (afterNewline kept).length :=
    ( takeWhile_prefix _).length_le
  obtain ⟨hpos, hz⟩ := firstReturn_bounds hreturn
  have hstop := @scanLoop_return mem kept.length
    ⟨(beforeNewline kept).length, (beforeNewline kept).length + 1,
      (beforeNewline kept).length + 1, depth (beforeNewline kept), 1⟩
    _ (reads_between hreads hline) (newline_not_mem_before _) rfl z hreturn
    (by simp only; omega) ((afterNewline kept).length - z + 2)
  rw [show z + ((afterNewline kept).length - z + 2) =
    (afterNewline kept).length + 2 by omega] at hstop
  rw [hstop, ← hrcv] at hscan
  have hexit := congrArg ScanResult.exit hscan
  have hstate := congrArg ScanResult.state hscan
  simp_all [not_callSafe_of_emit, firstReturn_depth, ScanResult.afterAll, ScanState.advance]

theorem inspect_mem_scanLoop {rcvLen : Int} {state : ScanState}
    (hin : (state.jsonLen : Int) < rcvLen) :
    .inspect state.endP rcvLen ∈ (scanLoop mem rcvLen (fuel + 1) state).accesses := by
  rw [scanLoop, if_pos hin]
  dsimp only
  split
  · split <;> exact mem_cons_self
  · split <;> exact mem_cons_self

theorem not_callSafe_of_one_newline (hreads : Reads mem 0 kept)
    (hrcv : sock.rcvLen = kept.length) (hline : (10 : Byte) ∈ kept)
    (honce : (10 : Byte) ∉ afterNewline kept)
    (hreturn : firstReturn (depth (beforeNewline kept))
      (beforeNewline (afterNewline kept)) = none) :
    ¬ CallSafe (redoLoop malloc (fuel + 1) mem sock 0 0) := by
  intro hsafe
  have hscan := scanLoop_kept hreads hline
  have hlength := length_split_newline hline
  have hmid := reads_between hreads hline
  rw [beforeNewline_eq_self honce] at hmid hreturn
  have hadvance := @scanLoop_advance mem kept.length
    ⟨(beforeNewline kept).length, (beforeNewline kept).length + 1,
      (beforeNewline kept).length + 1, depth (beforeNewline kept), 1⟩
    _ hmid honce (by simp only; omega) (fun _ => hreturn) 2
  have hend : (beforeNewline kept).length + 1 + (afterNewline kept).length =
      kept.length := by omega
  rw [hadvance] at hscan
  have hover : Access.inspect kept.length kept.length ∈
      (scanLoop mem kept.length (scanFuel kept.length) ⟨0, 0, 0, 0, 0⟩).accesses := by
    rw [hscan]
    grind [ScanResult.afterAll, ScanState.advance, inspect_mem_scanLoop]
  have hbad := hsafe.2.2.2 _
    (scan_accesses_subset malloc mem sock fuel (by rw [hrcv]; exact hover))
  simp only [AccessSafe] at hbad
  omega

theorem secondNewline_or_unbalanced (hmalloc : ∀ size, malloc size = true)
    (hreads : Reads mem 0 kept) (hne : kept ≠ []) (hrcv : sock.rcvLen = kept.length)
    (hsafe : CallSafe (redoLoop malloc (fuel + 1) mem sock 0 0)) :
    SecondNewlineFirst kept ∨ ((10 : Byte) ∉ kept ∧ depth kept ≠ 0) := by
  by_cases hline : (10 : Byte) ∈ kept
  · left
    cases hreturn : firstReturn (depth (beforeNewline kept))
        (beforeNewline (afterNewline kept)) with
    | some z => exact absurd hsafe (not_callSafe_of_return hmalloc hreads hrcv hline hreturn)
    | none =>
      refine ⟨hline, ?_, hreturn⟩
      by_contra honce
      exact not_callSafe_of_one_newline hreads hrcv hline honce hreturn hsafe
  · right
    refine ⟨hline, fun hdepth => ?_⟩
    have hscan := scanLoop_no_newline hreads hline
    rw [← hrcv] at hscan
    simp_all [not_callSafe_of_emit, length_pos_iff]

end Pass

section Calls

variable {malloc : Nat → Bool} {mem : Mem} {sock : RcvSocket} {data : Bytes}

theorem skipped_append_kept (data : Bytes) :
    (data.takeWhile fun b => b ≠ 0 ∧ b ≠ 10) ++ keptBytes data = data :=
  takeWhile_append_dropWhile

theorem mem_skipped {b : Byte}
    (hb : b ∈ data.takeWhile fun b => b ≠ 0 ∧ b ≠ 10) : b ≠ 0 ∧ b ≠ 10 := by
  simpa using mem_takeWhile_imp hb

theorem keptBytes_head {b : Byte} {rest : Bytes} (hkept : keptBytes data = b :: rest) :
    b = 0 ∨ b = 10 := by
  rw [keptBytes] at hkept
  have hne : (data.dropWhile fun b => b ≠ 0 ∧ b ≠ 10) ≠ [] := by
    rw [hkept]
    exact cons_ne_nil b rest
  have hhead := head_dropWhile_not (fun b : Byte => b ≠ 0 ∧ b ≠ 10) hne
  simp only [hkept, head_cons, decide_eq_false_iff_not] at hhead
  tauto

theorem cutLoop_data (hreads : Reads mem 0 data) :
    cutLoop mem data.length (data.length + 1) 0 =
      ((data.takeWhile fun b => b ≠ 0 ∧ b ≠ 10).length,
        inspects data.length 0
          ((data.takeWhile fun b => b ≠ 0 ∧ b ≠ 10).length + 1)) := by
  have hsplit := skipped_append_kept data
  generalize hskipped : (data.takeWhile fun b => b ≠ 0 ∧ b ≠ 10) = skipped at hsplit
  have hskip : ∀ b ∈ skipped, b ≠ 0 ∧ b ≠ 10 := by
    intro b hb
    rw [← hskipped] at hb
    exact mem_skipped hb
  have hlength := congrArg List.length hsplit
  rw [length_append] at hlength
  have hfront : Reads mem 0 skipped := by
    rw [← hsplit] at hreads
    exact hreads.append_left
  have hstop : mem (0 + skipped.length) = 0 ∨ mem (0 + skipped.length) = 10 ∨
      (data.length : Int) = (0 : Nat) + skipped.length := by
    cases hkept : keptBytes data with
    | nil =>
      right
      right
      rw [hkept, length_nil] at hlength
      omega
    | cons b rest =>
      rw [← hsplit, hkept] at hreads
      have hbyte := (reads_cons.mp hreads.append_right).1
      rw [hbyte]
      grind [keptBytes_head]
  have hcut := cutLoop_skip hfront hskip (by omega) hstop (keptBytes data).length
  rwa [show skipped.length + ((keptBytes data).length + 1) = data.length + 1 by omega,
    Nat.zero_add] at hcut

theorem reads_moved (hreads : Reads mem 0 data) :
    Reads (if (data.takeWhile fun b => b ≠ 0 ∧ b ≠ 10).length > 0 then
        memmove mem (data.takeWhile fun b => b ≠ 0 ∧ b ≠ 10).length
          ((data.length : Int) - (data.takeWhile fun b => b ≠ 0 ∧ b ≠ 10).length)
      else mem) 0 (keptBytes data) := by
  have hsplit := skipped_append_kept data
  generalize (data.takeWhile fun b => b ≠ 0 ∧ b ≠ 10) = skipped at hsplit
  have hlength := congrArg List.length hsplit
  rw [length_append] at hlength
  rw [← hsplit] at hreads
  have hright := hreads.append_right
  rw [Nat.zero_add] at hright
  split
  · exact hright.memmove (by omega)
  · rwa [show skipped.length = 0 by omega] at hright

/-- A call of the splitter is safe if what is kept holds a NUL and the pass over
it is safe; otherwise it is not. -/
theorem anSplitRcvBufToJson_safe (hbuf : sock.rcvBuf = some mem)
    (hreads : Reads mem 0 data) (hrcv : sock.rcvLen = data.length)
    (hbuflen : sock.rcvLen ≤ sock.rcvBuflen) :
    ∃ (moved : Mem) (cut : RcvSocket),
      cut.rcvBuf = some moved ∧ Reads moved 0 (keptBytes data) ∧
      cut.rcvLen = (keptBytes data).length ∧ cut.rcvLen ≤ cut.rcvBuflen ∧
      let call := anSplitRcvBufToJson malloc sock
      let pass := redoLoop malloc ((keptBytes data).length + 1) moved cut 0 0
      call.outcome = pass.outcome ∧ call.sock = pass.sock ∧
        (CallSafe call ↔ 0 ∈ keptBytes data ∧ CallSafe pass) := by
  have hcut := cutLoop_data hreads
  have hmoved := reads_moved hreads
  have hsplit := congrArg List.length (skipped_append_kept data)
  rw [length_append] at hsplit
  generalize (data.takeWhile fun b => b ≠ 0 ∧ b ≠ 10) = skipped at hcut hmoved hsplit
  have hleft : (data.length : Int) - skipped.length = (keptBytes data).length := by omega
  generalize hmem : (if skipped.length > 0 then
    memmove mem skipped.length ((data.length : Int) - skipped.length) else mem) =
    moved at hmoved
  rw [hleft] at hmem
  refine ⟨moved, ⟨some moved, (keptBytes data).length, sock.rcvBuflen⟩, rfl, hmoved,
    rfl, by simp only; omega, ?_⟩
  have hcall : anSplitRcvBufToJson malloc sock =
      { redoLoop malloc ((keptBytes data).length + 1) moved
          ⟨some moved, (keptBytes data).length, sock.rcvBuflen⟩ 0 0 with
        accesses := inspects data.length 0 (skipped.length + 1) ++
          (if skipped.length > 0 then
            [Access.move 0 skipped.length (keptBytes data).length data.length
              sock.rcvBuflen] else []) ++
          strReads moved (keptBytes data).length ((keptBytes data).length + 1) 0 ++
          (redoLoop malloc ((keptBytes data).length + 1) moved
            ⟨some moved, (keptBytes data).length, sock.rcvBuflen⟩ 0 0).accesses } := by
    simp only [anSplitRcvBufToJson, hbuf, hrcv, Int.toNat_natCast, hcut, hmem, hleft]
  intro call pass
  refine ⟨by rw [show call = _ from hcall], by rw [show call = _ from hcall], ?_⟩
  constructor
  · rintro ⟨hret, hlow, hhigh, hall⟩
    rw [show call = _ from hcall] at hret hlow hhigh hall
    simp only [mem_append] at hall
    refine ⟨?_, hret, hlow, hhigh, fun access haccess => hall access (Or.inr haccess)⟩
    grind [strReads_safe_iff]
  · rintro ⟨hnul, hret, hlow, hhigh, hall⟩
    rw [show call = _ from hcall]
    refine ⟨hret, hlow, hhigh, fun access haccess => ?_⟩
    have hpos : 0 < (keptBytes data).length := length_pos_of_mem hnul
    simp only [mem_append] at haccess
    rcases haccess with ((hskip | hmove) | hinfo) | hpass
    · exact inspects_safe (by omega) access hskip
    · grind [AccessSafe]
    · exact (strReads_safe_iff hmoved).mpr hnul access hinfo
    · exact hall access hpass

/-- The socket holds the given bytes. -/
structure Buffered (sock : RcvSocket) (live : Bytes) : Prop where
  rcvLen : sock.rcvLen = live.length
  reads : Reads (sock.rcvBuf.getD fun _ => 0) 0 live

theorem anTcpRecv_safe {live : Bytes} {input : RecvInput} (hlive : Buffered sock live)
    (hchunk : 0 < input.chunk.length) (hrealloc : input.reallocOk = true)
    (hmalloc : ∀ size, input.malloc size = true) :
    let kept := keptBytes (live ++ input.chunk)
    let call := anTcpRecv sock input
    (CallSafe call ↔ ((live ++ input.chunk).length : Int) ≤ s32Max ∧ 0 ∈ kept ∧
        (SecondNewlineFirst kept ∨ (10 ∉ kept ∧ depth kept ≠ 0))) ∧
      (CallSafe call → SecondNewlineFirst kept → call.outcome = .returned (-1)) ∧
      (CallSafe call → 10 ∉ kept → depth kept ≠ 0 →
        call.outcome = .returned 0 ∧ Buffered call.sock kept) := by
  intro kept call
  obtain ⟨hrcv, hreads⟩ := hlive
  have hlength : (live ++ input.chunk).length = live.length + input.chunk.length :=
    length_append
  by_cases hmax : ((live ++ input.chunk).length : Int) ≤ s32Max
  · have hcall : call = anSplitRcvBufToJson input.malloc (sock.extend live.length input) :=
      anTcpRecv_eq_split hrcv hchunk hrealloc (by omega)
    obtain ⟨moved, cut, hbuf, hmoved, hcut, hbuflen, houtcome, hsock, hsafe⟩ :=
      @anSplitRcvBufToJson_safe input.malloc _ (sock.extend live.length input) _ rfl
        (hreads.appendChunk input.chunk input.junk)
        (by simp only [RcvSocket.extend, hlength]) (by simp only [RcvSocket.extend]; omega)
    rw [← hcall] at houtcome hsock hsafe
    refine ⟨?_, ?_, ?_⟩
    · rw [hsafe]
      grind [secondNewline_or_unbalanced, redoLoop_secondNewline, redoLoop_unbalanced]
    · grind [redoLoop_secondNewline]
    · intro _ hline hdepth
      obtain ⟨hzero, hkept, _⟩ :=
        @redoLoop_unbalanced input.malloc _ _ _ (keptBytes (live ++ input.chunk)).length
          hmoved hcut hbuflen hline hdepth
      refine ⟨houtcome.trans hzero, ?_⟩
      rw [hsock, hkept]
      exact ⟨hcut, hmoved⟩
  · have hcall : call.outcome = .fault := anTcpRecv_overflow hchunk (by omega)
    have hunsafe : ¬ CallSafe call := by
      rintro ⟨⟨ret, hret⟩, _⟩
      rw [hcall] at hret
      exact absurd hret (by simp)
    grind

theorem recvRun_safe_from {live : Bytes} (hlive : Buffered sock live)
    {inputs : List RecvInput} (hreceived : Received inputs) :
    (∀ call ∈ recvRun sock inputs, CallSafe call) ↔ SafeBytes live inputs := by
  induction inputs generalizing sock live with
  | nil => simp [recvRun, SafeBytes]
  | cons input inputs ih =>
    obtain ⟨hchunk, _, hrealloc, hmalloc⟩ := hreceived input mem_cons_self
    have hrest : Received inputs :=
      fun other hother => hreceived other (mem_cons_of_mem input hother)
    obtain ⟨hsafe, hout, hwait⟩ := anTcpRecv_safe hlive hchunk hrealloc hmalloc
    rw [recvRun, SafeBytes, forall_mem_cons]
    grind

end Calls

/-- A run on a fresh connection is safe if and only if the peer sends the bytes
that `SafeBytes` describes. -/
theorem recvRun_safe_iff (inputs : List RecvInput) (hreceived : Received inputs) :
    (∀ call ∈ recvRun .fresh inputs, CallSafe call) ↔ SafeBytes [] inputs :=
  recvRun_safe_from ⟨rfl, reads_nil⟩ hreceived

namespace SafetyWitness

def input (text : Bytes) : RecvInput :=
  ⟨text, fun _ => 0, true, fun _ => true⟩

theorem received_input {text : Bytes}
    (htext : 0 < text.length ∧ text.length ≤ anTcpBufLen) : Received [input text] := by
  intro other hother
  rw [mem_singleton] at hother
  subst hother
  exact ⟨htext.1, htext.2, rfl, fun _ => rfl⟩

/-- An unfinished frame, a NUL and a second newline: the scan gives up. -/
theorem recvRun_safe_iff_nul :
    Received [input (ascii "\n\x7b" ++ 0 :: ascii "\n")] ∧
      ∀ call ∈ recvRun .fresh [input (ascii "\n\x7b" ++ 0 :: ascii "\n")],
        CallSafe call :=
  ⟨received_input (by decide),
    (recvRun_safe_iff [input (ascii "\n\x7b" ++ 0 :: ascii "\n")]
      (received_input (by decide))).mpr
      ⟨by decide, by decide, Or.inl ⟨by decide, by decide, by decide⟩⟩⟩

/-- One complete frame: the move behind it copies two bytes that were never
received. -/
theorem recvRun_unsafe_frame :
    Received [input (ascii "\n\x7b\x7d")] ∧
      ¬ ∀ call ∈ recvRun .fresh [input (ascii "\n\x7b\x7d")], CallSafe call := by
  refine ⟨received_input (by decide), fun hall => ?_⟩
  have hcall := hall (anTcpRecv .fresh (input (ascii "\n\x7b\x7d"))) mem_cons_self
  have hmove := hcall.2.2.2 (.move 0 3 2 3 3) (by decide)
  simp only [AccessSafe] at hmove
  omega

end SafetyWitness

end WaterWall
