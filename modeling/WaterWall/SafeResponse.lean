/-
an_get_json_data_safe of public.c: the response is escaped into a block that grows by
1024 bytes.  A write outside of the block, and a signed sum that overflows, have no result.
-/
import WaterWall.EscapedText

namespace WaterWall

namespace SafeResponse

open ByteText HeapBlock Escape

/-- The fields of an_socket_t that the function uses: the block, which is null after a
reallocation that failed, and the length. -/
structure Sock where
  sendBuf : Option Bytes
  sendLen : Nat
  deriving DecidableEq

/-- What `wys_realloc` answers: nothing, or memory that is filled like this behind the part
that it keeps. -/
abbrev Answer : Type :=
  Option (Nat → Byte)

/-- A write at `send_buf + pos`, which is in no block when `send_buf` is null. -/
def store (sock : Sock) (pos : Nat) (data : Bytes) : Option Sock := do
  let block ← sock.sendBuf
  let block ← writeAt block pos data
  return { sock with sendBuf := some block }

/-- The `switch`.  `b` is `send_buf + send_len` all along. -/
def putChar (sock : Sock) (sendLen : Nat) (c : Byte) : Option (Sock × Nat) :=
  match common c with
  | some text => (store sock sendLen (text ++ [0])).map fun sock => (sock, sendLen + text.length)
  | none =>
    if isCntrl c then some (sock, sendLen)
    else (store sock sendLen [c]).map fun sock => (sock, sendLen + 1)

def realloc (answer : Answer) (sock : Sock) (sendLen : Nat) : Sock where
  sendBuf := answer.map fun junk =>
    let block := sock.sendBuf.getD []
    block ++ (List.range (sendLen + 1024 - block.length)).map junk
  sendLen := sendLen

/-- The loop, which has called `wys_realloc` a number of times. -/
def safeLoop (answers : Nat → Answer) :
    Bytes → Nat → Sock → Nat → Option (Int × Sock × Nat)
  | [], calls, sock, sendLen => do
      let sock ← store sock sendLen [0]
      return (0, { sock with sendLen := sendLen }, calls)
  | c :: rest, calls, sock, sendLen => do
      let (sock, sendLen) ← putChar sock sendLen c
      guard (sock.sendLen + 1024 < 2 ^ 31)
      if sock.sendLen + 1024 - 1 ≤ sendLen then
        guard (sendLen + 1024 < 2 ^ 31)
        let next := realloc (answers calls) sock sendLen
        -- `send_buf + send_len` is null only if both are
        if next.sendBuf = none ∧ sendLen = 0 then return (-1, next, calls + 1)
        safeLoop answers rest (calls + 1) next sendLen
      else safeLoop answers rest calls sock sendLen

def anGetJsonDataSafe (answers : Nat → Answer) (orgSendBuf : CString) (sock : Sock) :
    Option (Int × Sock × Nat) :=
  safeLoop answers orgSendBuf.text 0 sock 0

/-- The size of the block after a character. -/
def nextSize (size len : Nat) : Nat :=
  if size ≤ len + 1 then len + 1024 else size

/-- The characters, with the room that is left when each is met. -/
def meets : Nat → Nat → Bytes → List (Byte × Nat)
  | _, _, [] => []
  | size, len, c :: rest =>
    (c, size - len) ::
      meets (nextSize size (len + (piece common c).length)) (len + (piece common c).length) rest

/-- The lengths at which the block has to grow. -/
def growths : Nat → Nat → Bytes → List Nat
  | _, _, [] => []
  | size, len, c :: rest =>
    (if size ≤ len + (piece common c).length + 1 then [len + (piece common c).length] else []) ++
      growths (nextSize size (len + (piece common c).length)) (len + (piece common c).length) rest

/-- A failed reallocation is reported; without one the block holds the text. -/
def Sound (answers : Nat → Answer) (text : Bytes) (first : Nat)
    (result : Option (Int × Sock × Nat)) : Prop :=
  ∃ code sock calls, result = some (code, sock, calls) ∧
    ((∃ k, first ≤ k ∧ k < calls ∧ answers k = none) → code = -1) ∧
    ((∀ k, first ≤ k → k < calls → answers k ≠ none) → code = 0 ∧ sock.sendLen = text.length ∧
      ∃ block, sock.sendBuf = some block ∧ cstr block = text)

/-- No escape is met with two bytes of room, and the block grows whenever it has to, to a size
that an `int` can say. -/
structure Grows (answers : Nat → Answer) (first size len : Nat) (text : Bytes) : Prop where
  roomy : ∀ met ∈ meets size len text, (piece common met.1).length = 2 → met.2 ≠ 2
  granted : ∀ k < (growths size len text).length, answers (first + k) ≠ none
  sized : ∀ at' ∈ growths size len text, at' + 1024 < 2 ^ 31

section Loop

variable {answers : Nat → Answer} {sock : Sock} {calls size len : Nat}
  {block shown rest : Bytes} {c : Byte}

theorem grows_nil : Grows answers calls size len [] :=
  ⟨by simp [meets], by simp [growths], by simp [growths]⟩

theorem grows_cons_keep (hkeep : ¬ size ≤ len + (piece common c).length + 1) :
    Grows answers calls size len (c :: rest) ↔
      ((piece common c).length = 2 → size - len ≠ 2) ∧
        Grows answers calls size (len + (piece common c).length) rest := by
  have hsize : nextSize size (len + (piece common c).length) = size := if_neg hkeep
  have hmeets : meets size len (c :: rest) =
      (c, size - len) :: meets size (len + (piece common c).length) rest := by
    rw [meets, hsize]
  have hgrowths : growths size len (c :: rest) =
      growths size (len + (piece common c).length) rest := by
    rw [growths, hsize, if_neg hkeep, List.nil_append]
  constructor
  · rintro ⟨hroomy, hgranted, hsized⟩
    rw [hmeets, List.forall_mem_cons] at hroomy
    rw [hgrowths] at hgranted hsized
    exact ⟨hroomy.1, hroomy.2, hgranted, hsized⟩
  · rintro ⟨hfirst, hroomy, hgranted, hsized⟩
    refine ⟨?_, ?_, ?_⟩
    · rw [hmeets, List.forall_mem_cons]
      exact ⟨hfirst, hroomy⟩
    · rwa [hgrowths]
    · rwa [hgrowths]

theorem grows_cons_grow (hgrow : size ≤ len + (piece common c).length + 1) :
    Grows answers calls size len (c :: rest) ↔
      ((piece common c).length = 2 → size - len ≠ 2) ∧ answers calls ≠ none ∧
        len + (piece common c).length + 1024 < 2 ^ 31 ∧
        Grows answers (calls + 1) (len + (piece common c).length + 1024)
          (len + (piece common c).length) rest := by
  have hsize : nextSize size (len + (piece common c).length) =
      len + (piece common c).length + 1024 := if_pos hgrow
  have hmeets : meets size len (c :: rest) = (c, size - len) ::
      meets (len + (piece common c).length + 1024) (len + (piece common c).length) rest := by
    rw [meets, hsize]
  have hgrowths : growths size len (c :: rest) = (len + (piece common c).length) ::
      growths (len + (piece common c).length + 1024) (len + (piece common c).length) rest := by
    rw [growths, hsize, if_pos hgrow, List.singleton_append]
  constructor
  · rintro ⟨hroomy, hgranted, hsized⟩
    rw [hmeets, List.forall_mem_cons] at hroomy
    rw [hgrowths, List.forall_mem_cons] at hsized
    rw [hgrowths, List.length_cons] at hgranted
    refine ⟨hroomy.1, hgranted 0 (Nat.succ_pos _), hsized.1, hroomy.2, fun k hk => ?_, hsized.2⟩
    have hnext := hgranted (k + 1) (Nat.succ_lt_succ hk)
    rwa [Nat.add_comm k 1, ← Nat.add_assoc] at hnext
  · rintro ⟨hfirst, hanswer, hfits, hroomy, hgranted, hsized⟩
    refine ⟨?_, ?_, ?_⟩
    · rw [hmeets, List.forall_mem_cons]
      exact ⟨hfirst, hroomy⟩
    · rw [hgrowths, List.length_cons]
      intro k hk
      cases k with
      | zero => exact hanswer
      | succ k =>
        have hnext := hgranted k (Nat.lt_of_succ_lt_succ hk)
        rwa [Nat.add_assoc, Nat.add_comm 1 k] at hnext
    · rw [hgrowths, List.forall_mem_cons]
      exact ⟨hfits, hsized⟩

theorem store_eq (hblock : sock.sendBuf = some block) (hfills : Fills block size shown)
    {data : Bytes} (hfits : shown.length + data.length ≤ size) :
    ∃ next, store sock shown.length data = some { sock with sendBuf := some next } ∧
      Fills next size (shown ++ data) := by
  obtain ⟨next, hwrite, hnext⟩ := hfills.writeAt hfits
  grind [store.eq_1]

theorem store_outside (hblock : sock.sendBuf = some block) (hlength : block.length = size)
    {pos : Nat} {data : Bytes} (houtside : size < pos + data.length) :
    store sock pos data = none := by
  simp_all [writeAt.eq_1, store.eq_1]

theorem piece_common_length (c : Byte) : (piece common c).length ≤ 2 :=
  piece_length_le (by omega) (fun _ _ htext => (common_length htext).le) c

theorem putChar_fits (hblock : sock.sendBuf = some block) (hfills : Fills block size shown)
    (hroom : shown.length + 2 ≤ size) (hescape : (piece common c).length = 2 → size - shown.length ≠ 2) :
    ∃ next, putChar sock shown.length c =
        some ({ sock with sendBuf := some next }, shown.length + (piece common c).length) ∧
      Fills next size (shown ++ piece common c) := by
  cases htext : common c with
  | some text =>
    have hlength := common_length htext
    simp only [putChar, piece, htext] at hescape ⊢
    obtain ⟨next, hstore, hnext⟩ := @store_eq sock size block shown hblock hfills (text ++ [0])
      (by rw [List.length_append, List.length_singleton]; omega)
    rw [hstore]
    grind [Fills.forget]
  | none =>
    by_cases hcntrl : isCntrl c = true
    · simp only [putChar, piece, htext, hcntrl, if_true, List.length_nil, Nat.add_zero,
        List.append_nil]
      refine ⟨block, ?_, hfills⟩
      rw [← hblock]
    · simp only [putChar, piece, htext, hcntrl, Bool.false_eq_true, if_false] at hescape ⊢
      obtain ⟨next, hstore, hnext⟩ := @store_eq sock size block shown hblock hfills [c]
        (by rw [List.length_singleton]; omega)
      rw [hstore]
      exact ⟨next, rfl, hnext⟩

theorem putChar_outside (hblock : sock.sendBuf = some block) (hlength : block.length = size)
    (hescape : (piece common c).length = 2) (hroom : len + 2 = size) :
    putChar sock len c = none := by
  cases htext : common c with
  | some text =>
    have htwo := common_length htext
    simp only [putChar, htext]
    rw [store_outside hblock hlength (by rw [List.length_append, List.length_singleton]; omega)]
    rfl
  | none =>
    simp only [piece, htext] at hescape
    split at hescape <;> simp at hescape

theorem guard_bind {α : Type} {p : Prop} [Decidable p] (hp : p) (f : Unit → Option α) :
    (guard p >>= f) = f () := by
  rw [guard, if_pos hp]
  rfl

theorem guard_bind_none {α : Type} {p : Prop} [Decidable p] (hp : ¬ p) (f : Unit → Option α) :
    (guard p >>= f) = none := by
  rw [guard, if_neg hp]
  rfl

variable {next : Sock} {nextLen : Nat}

theorem safeLoop_keep (hput : putChar sock len c = some (next, nextLen))
    (hint : next.sendLen + 1024 < 2 ^ 31) (hkeep : ¬ next.sendLen + 1024 - 1 ≤ nextLen) :
    safeLoop answers (c :: rest) calls sock len = safeLoop answers rest calls next nextLen := by
  rw [safeLoop, hput, Option.bind_eq_bind, Option.bind_some]
  dsimp only
  rw [guard_bind hint, if_neg hkeep]

theorem safeLoop_grow (hput : putChar sock len c = some (next, nextLen))
    (hint : next.sendLen + 1024 < 2 ^ 31) (hgrow : next.sendLen + 1024 - 1 ≤ nextLen)
    (hfits : nextLen + 1024 < 2 ^ 31) (hlen : nextLen ≠ 0) :
    safeLoop answers (c :: rest) calls sock len =
      safeLoop answers rest (calls + 1) (realloc (answers calls) next nextLen) nextLen := by
  rw [safeLoop, hput, Option.bind_eq_bind, Option.bind_some]
  simp_all

theorem safeLoop_overflow (hput : putChar sock len c = some (next, nextLen))
    (hint : next.sendLen + 1024 < 2 ^ 31) (hgrow : next.sendLen + 1024 - 1 ≤ nextLen)
    (hfits : ¬ nextLen + 1024 < 2 ^ 31) : safeLoop answers (c :: rest) calls sock len = none := by
  rw [safeLoop, hput, Option.bind_eq_bind, Option.bind_some]
  dsimp only
  rw [guard_bind hint, if_pos hgrow, guard_bind_none hfits]

theorem safeLoop_none (hput : putChar sock len c = none) :
    safeLoop answers (c :: rest) calls sock len = none := by
  rw [safeLoop, hput]
  rfl

theorem putChar_null (hnull : sock.sendBuf = none) :
    putChar sock len c = none ∨ putChar sock len c = some (sock, len) := by
  grind [store.eq_1, putChar.eq_1]

theorem safeLoop_null (hnull : sock.sendBuf = none) (hlen : sock.sendLen = len)
    (hint : len + 1024 < 2 ^ 31) : safeLoop answers rest calls sock len = none := by
  induction rest with
  | nil =>
    rw [safeLoop, store, hnull]
    rfl
  | cons c rest ih =>
    grind [putChar_null, safeLoop_none, safeLoop_keep]

theorem sound_succ_iff {text : Bytes} {result : Option (Int × Sock × Nat)}
    (hanswer : answers calls ≠ none) :
    Sound answers text (calls + 1) result ↔ Sound answers text calls result := by
  refine exists_congr fun code => exists_congr fun last => exists_congr fun count =>
    and_congr_right fun _ => ?_
  grind

theorem realloc_fills (hblock : next.sendBuf = some block) (hfills : Fills block size shown)
    (hsize : size ≤ nextLen + 1024) (junk : Nat → Byte) :
    ∃ after, (realloc (some junk) next nextLen).sendBuf = some after ∧
      Fills after (nextLen + 1024) shown := by
  have hlength := hfills.length_eq
  have hshown := hfills.length_le
  refine ⟨_, rfl, ?_, ?_⟩
  · rw [hblock, Option.getD_some, List.length_append, List.length_map, List.length_range]
    omega
  grind [Fills.starts]

theorem safeLoop_sound_iff (hblock : sock.sendBuf = some block)
    (hfills : Fills block (sock.sendLen + 1024) shown)
    (hroom : shown.length + 2 ≤ sock.sendLen + 1024) (hint : sock.sendLen + 1024 < 2 ^ 31)
    (hnul : (0 : Byte) ∉ shown ++ escaped common rest) :
    Sound answers (shown ++ escaped common rest) calls
        (safeLoop answers rest calls sock shown.length) ↔
      Grows answers calls (sock.sendLen + 1024) shown.length rest := by
  induction rest generalizing sock block shown calls with
  | nil =>
    refine iff_of_true ?_ grows_nil
    obtain ⟨last, hstore, hlast⟩ := @store_eq sock _ block shown hblock hfills [0]
      (by rw [List.length_singleton]; omega)
    rw [escaped_nil, List.append_nil] at hnul ⊢
    rw [safeLoop, hstore]
    refine ⟨0, ⟨some last, shown.length⟩, calls, rfl, ?_, ?_⟩
    · rintro ⟨k, hlow, hhigh, -⟩
      omega
    · intro _
      exact ⟨rfl, rfl, last, rfl, PrintBuffer.cstr_of_fills hlast hnul⟩
  | cons c rest ih =>
    rw [escaped_cons, ← List.append_assoc] at hnul ⊢
    have hpiece := piece_common_length c
    by_cases hescape : (piece common c).length = 2 → sock.sendLen + 1024 - shown.length ≠ 2
    · obtain ⟨next, hput, hnext⟩ := putChar_fits hblock hfills hroom hescape
      have hlength : (shown ++ piece common c).length = shown.length + (piece common c).length :=
        List.length_append
      by_cases hgrow : sock.sendLen + 1024 ≤ shown.length + (piece common c).length + 1
      · have hgrow' : sock.sendLen + 1024 - 1 ≤ shown.length + (piece common c).length := by
          omega
        rw [grows_cons_grow hgrow]
        by_cases hfits : shown.length + (piece common c).length + 1024 < 2 ^ 31
        · rw [safeLoop_grow hput hint hgrow' hfits (by omega)]
          cases hanswer : answers calls with
          | none =>
            have hnull : safeLoop answers rest (calls + 1)
                (realloc none { sock with sendBuf := some next }
                  (shown.length + (piece common c).length))
                (shown.length + (piece common c).length) = none :=
              safeLoop_null rfl rfl hfits
            rw [hnull]
            refine iff_of_false ?_ fun hgrows => hgrows.2.1 rfl
            rintro ⟨code, last, count, hnone, -⟩
            cases hnone
          | some junk =>
            let moved := realloc (some junk) { sock with sendBuf := some next }
              (shown.length + (piece common c).length)
            have hroom' : (shown ++ piece common c).length + 2 ≤ moved.sendLen + 1024 := by
              rw [hlength]
              change _ ≤ shown.length + (piece common c).length + 1024
              omega
            obtain ⟨after, hafter, hfills'⟩ : ∃ after, moved.sendBuf = some after ∧
                Fills after (moved.sendLen + 1024) (shown ++ piece common c) :=
              realloc_fills rfl hnext (by omega) junk
            have hrun := @ih moved (calls + 1) after (shown ++ piece common c) hafter hfills'
              hroom' hfits hnul
            rw [hlength] at hrun
            have hsome : answers calls ≠ none := by
              rw [hanswer]
              simp
            rw [← sound_succ_iff hsome, hrun]
            exact ⟨fun hgrows => ⟨hescape, by simp, hfits, hgrows⟩, fun hgrows => hgrows.2.2.2⟩
        · rw [safeLoop_overflow hput hint hgrow' hfits]
          refine iff_of_false ?_ fun hgrows => hfits hgrows.2.2.1
          rintro ⟨code, last, count, hnone, -⟩
          cases hnone
      · have hkeep : ¬ sock.sendLen + 1024 - 1 ≤ shown.length + (piece common c).length := by
          omega
        have hroom' : (shown ++ piece common c).length + 2 ≤ sock.sendLen + 1024 := by
          rw [hlength]
          omega
        have hrun := @ih { sock with sendBuf := some next } calls next
          (shown ++ piece common c) rfl hnext hroom' hint hnul
        rw [grows_cons_keep hgrow, safeLoop_keep hput hint hkeep, ← hlength, hrun]
        exact (and_iff_right hescape).symm
    · rw [Classical.not_imp, not_not] at hescape
      obtain ⟨htwo, hleft⟩ := hescape
      have hput : putChar sock shown.length c = none :=
        putChar_outside hblock hfills.length_eq htwo (by omega)
      rw [safeLoop_none hput]
      refine iff_of_false ?_ fun hgrows => ?_
      · rintro ⟨code, last, count, hnone, -⟩
        cases hnone
      · refine hgrows.roomy (c, sock.sendLen + 1024 - shown.length) ?_ htwo hleft
        rw [meets]
        exact List.mem_cons_self

theorem safeLoop_plain {count : Nat} (hblock : sock.sendBuf = some block)
    (hfills : Fills block (sock.sendLen + 1024) shown) (hint : sock.sendLen + 1024 < 2 ^ 31)
    (hroom : shown.length + count + 2 ≤ sock.sendLen + 1024) :
    ∃ after, Fills after (sock.sendLen + 1024) (shown ++ List.replicate count 97) ∧
      safeLoop answers (List.replicate count 97 ++ rest) calls sock shown.length =
        safeLoop answers rest calls { sock with sendBuf := some after }
          (shown ++ List.replicate count 97).length := by
  induction count generalizing sock block shown with
  | zero =>
    refine ⟨block, by simpa using hfills, ?_⟩
    rw [← hblock]
    simp
  | succ count ih =>
    have hpiece : piece common 97 = [97] := by
      decide
    obtain ⟨next, hput, hnext⟩ := @putChar_fits sock _ block shown 97 hblock hfills (by omega)
      (by rw [hpiece]; simp)
    rw [hpiece] at hput hnext
    have hkeep : ¬ sock.sendLen + 1024 - 1 ≤ shown.length + [(97 : Byte)].length := by
      rw [List.length_singleton]
      omega
    have hroom' : (shown ++ [(97 : Byte)]).length + count + 2 ≤ sock.sendLen + 1024 := by
      rw [List.length_append, List.length_singleton]
      omega
    obtain ⟨after, hafter, hrun⟩ :=
      @ih { sock with sendBuf := some next } next (shown ++ [97]) rfl hnext hint hroom'
    have hsplit : shown ++ List.replicate (count + 1) 97 =
        shown ++ [97] ++ List.replicate count 97 := by
      rw [List.replicate_succ, List.append_assoc, List.singleton_append]
    refine ⟨after, hsplit ▸ hafter, ?_⟩
    rw [hsplit, ← hrun, List.replicate_succ, List.cons_append, safeLoop_keep hput hint hkeep,
      List.length_append]

end Loop

/-- The function keeps to its block, reports a failed reallocation and escapes the text just if
no escape is met with two bytes of room and every reallocation is granted. -/
theorem anGetJsonDataSafe_sound_iff (answers : Nat → Answer) (orgSendBuf : CString)
    (block : Bytes) (sendLen : Nat) (hblock : block.length = sendLen + 1024)
    (hint : sendLen + 1024 < 2 ^ 31) :
    Sound answers (escaped common orgSendBuf.text) 0
        (anGetJsonDataSafe answers orgSendBuf ⟨some block, sendLen⟩) ↔
      Grows answers 0 (sendLen + 1024) 0 orgSendBuf.text := by
  have hnul : (0 : Byte) ∉ [] ++ escaped common orgSendBuf.text :=
    nul_notMem_escaped (fun _ _ htext => (common_spec htext).2) orgSendBuf.noNul
  exact @safeLoop_sound_iff answers ⟨some block, sendLen⟩ 0 block [] orgSendBuf.text rfl
    ⟨hblock, rfl⟩ (by simp) hint hnul

namespace SafeWitness

def blank : Sock := ⟨some (List.replicate 1024 0), 0⟩

theorem blank_length : (List.replicate 1024 (0 : Byte)).length = 0 + 1024 := by
  rw [List.length_replicate]

theorem tab_noNul : (0 : Byte) ∉ ascii "a\tb" := by
  decide

def tab : CString := ⟨ascii "a\tb", tab_noNul⟩

theorem sound_tab : Grows (fun _ => none) 0 1024 0 tab.text ∧
    Sound (fun _ => none) (escaped common tab.text) 0
      (anGetJsonDataSafe (fun _ => none) tab blank) := by
  have hgrows : Grows (fun _ => none) 0 1024 0 tab.text := by
    have hgrowths : growths 1024 0 tab.text = [] := by
      decide
    refine ⟨by decide, ?_, ?_⟩
    · rw [hgrowths]
      simp
    · rw [hgrowths]
      simp
  exact ⟨hgrows, (anGetJsonDataSafe_sound_iff (fun _ => none) tab (List.replicate 1024 0) 0
    blank_length (by omega)).mpr hgrows⟩

theorem long_noNul (count : Nat) (c : Byte) (hc : c ≠ 0) :
    (0 : Byte) ∉ List.replicate count (97 : Byte) ++ [c] := by
  simp [hc.symm]

/-- 1022 letters and one more character. -/
def long (c : Byte) (hc : c ≠ 0) : CString :=
  ⟨List.replicate 1022 97 ++ [c], long_noNul 1022 c hc⟩

theorem long_run (answers : Nat → Answer) (c : Byte) (hc : c ≠ 0) :
    ∃ after, Fills after 1024 (List.replicate 1022 97) ∧
      anGetJsonDataSafe answers (long c hc) blank =
        safeLoop answers [c] 0 ⟨some after, 0⟩ (List.replicate 1022 (97 : Byte)).length := by
  obtain ⟨after, hafter, hrun⟩ := @safeLoop_plain answers blank 0 (List.replicate 1024 0) [] [c]
    1022 rfl ⟨blank_length, rfl⟩ (by change 0 + 1024 < 2 ^ 31; omega)
    (by change 0 + 1022 + 2 ≤ 0 + 1024; omega)
  exact ⟨after, hafter, hrun⟩

theorem not_sound_none {answers : Nat → Answer} {text : Bytes} : ¬ Sound answers text 0 none := by
  rintro ⟨code, last, calls, hnone, -⟩
  cases hnone

theorem newline_ne : (10 : Byte) ≠ 0 := by
  decide

theorem letter_ne : (97 : Byte) ≠ 0 := by
  decide

/-- The terminator of an escape is written behind the block; and when the memory is refused,
the text goes on at the address 1023. -/
theorem not_sound_long :
    (∀ answers, anGetJsonDataSafe answers (long 10 newline_ne) blank = none ∧
      ¬ Sound answers (escaped common (long 10 newline_ne).text) 0
        (anGetJsonDataSafe answers (long 10 newline_ne) blank)) ∧
    anGetJsonDataSafe (fun _ => none) (long 97 letter_ne) blank = none ∧
      ¬ Sound (fun _ => none) (escaped common (long 97 letter_ne).text) 0
        (anGetJsonDataSafe (fun _ => none) (long 97 letter_ne) blank) := by
  have hnewline (answers : Nat → Answer) :
      anGetJsonDataSafe answers (long 10 newline_ne) blank = none := by
    obtain ⟨after, hafter, hrun⟩ := long_run answers 10 newline_ne
    rw [hrun]
    exact safeLoop_none (putChar_outside rfl hafter.length_eq (by decide)
      (by rw [List.length_replicate]))
  have hletter : anGetJsonDataSafe (fun _ => none) (long 97 letter_ne) blank = none := by
    obtain ⟨after, hafter, hrun⟩ := long_run (fun _ => none) 97 letter_ne
    have hpiece : (piece common 97).length = 1 := by
      decide
    obtain ⟨next, hput, -⟩ := @putChar_fits ⟨some after, 0⟩ 1024 after _ 97 rfl hafter
      (by rw [List.length_replicate]) (by rw [hpiece]; omega)
    rw [List.length_replicate, hpiece] at hput
    rw [hrun, List.length_replicate, safeLoop_grow hput (by change 0 + 1024 < 2 ^ 31; omega)
      (by change 0 + 1024 - 1 ≤ 1022 + 1; omega) (by omega) (by omega)]
    exact safeLoop_null rfl rfl (by omega)
  refine ⟨fun answers => ⟨hnewline answers, ?_⟩, hletter, ?_⟩
  · rw [hnewline]
    exact not_sound_none
  · rw [hletter]
    exact not_sound_none

end SafeWitness

end SafeResponse

end WaterWall
