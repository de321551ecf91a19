/-
jiffies_get of timer.c: a count of seconds that advances by at most two at a time, whatever
the wall clock does, with the milliseconds of the wall clock behind it.  `unsigned long` has
any number of bits from 32 on.
-/
import Mathlib

namespace WaterWall

open List

namespace SoftClock

/-- What gettimeofday stores. -/
structure Reading where
  sec : Nat
  usec : Nat
  deriving DecidableEq

/-- `ll_start_second` and `ll_jiffies_second`. -/
structure Clock (bits : Nat) where
  start : BitVec bits
  seconds : BitVec bits

def hz : Nat := 1000

def jiffiesInit (bits : Nat) (tv : Reading) : Clock bits where
  start := BitVec.ofNat bits tv.sec
  seconds := 0

def jiffiesGet {bits : Nat} (clock : Clock bits) (tv : Reading) : Clock bits × BitVec bits :=
  let sec := BitVec.ofNat bits tv.sec
  let cc := sec - clock.start
  let clock : Clock bits :=
    if cc - clock.seconds > BitVec.ofNat bits 2 then
      let seconds := clock.seconds + BitVec.ofNat bits 2
      ⟨sec - seconds, seconds⟩
    else ⟨clock.start, cc⟩
  (clock,
    if tv.usec ≠ 0 then
      BitVec.ofNat bits (tv.usec / 1000) + clock.seconds * BitVec.ofNat bits hz
    else clock.seconds * BitVec.ofNat bits hz)

/-- The results of successive calls. -/
def results {bits : Nat} : Clock bits → List Reading → List (BitVec bits)
  | _, [] => []
  | clock, tv :: rest => (jiffiesGet clock tv).2 :: results (jiffiesGet clock tv).1 rest

/-- Each result is at least its predecessor and less than three seconds more. -/
def Steady {bits : Nat} (values : List (BitVec bits)) : Prop :=
  values.IsChain fun value next =>
    value.toNat ≤ next.toNat ∧ next.toNat < value.toNat + 3 * hz

/-- How far the count of seconds goes on from one second of the wall clock to another. -/
def advance (sec next : Nat) : Nat :=
  if sec ≤ next ∧ next ≤ sec + 2 then next - sec else 2

/-- The milliseconds that have been counted, without a bound. -/
def elapsed (sec count : Nat) : List Reading → List Nat
  | [] => []
  | tv :: rest =>
    ((count + advance sec tv.sec) * hz + tv.usec / 1000) ::
      elapsed tv.sec (count + advance sec tv.sec) rest

/-- Within a second the milliseconds of the wall clock do not go back. -/
def Ordered (readings : List Reading) : Prop :=
  readings.IsChain fun tv next => tv.sec = next.sec → tv.usec / 1000 ≤ next.usec / 1000

/-- The clock has been read at this second, with this many seconds counted. -/
structure Synced {bits : Nat} (clock : Clock bits) (sec count : Nat) : Prop where
  wall : clock.start + clock.seconds = BitVec.ofNat bits sec
  counted : clock.seconds = BitVec.ofNat bits count

section Steps

variable {bits : Nat} {clock : Clock bits} {sec count : Nat} {tv : Reading}

theorem advance_le (sec next : Nat) : advance sec next ≤ 2 := by
  rw [advance]
  split <;> omega

theorem advance_eq_zero_iff {next : Nat} : advance sec next = 0 ↔ sec = next := by
  rw [advance]
  split <;> omega

theorem synced_init (bits : Nat) (tv : Reading) : Synced (jiffiesInit bits tv) tv.sec 0 :=
  ⟨add_zero _, rfl⟩

theorem difference_gt_iff (hbits : 32 ≤ bits) {next : Nat} (hsec : sec < 2 ^ (bits - 1))
    (hnext : next < 2 ^ (bits - 1)) :
    BitVec.ofNat bits next - BitVec.ofNat bits sec > BitVec.ofNat bits 2 ↔
      ¬ (sec ≤ next ∧ next ≤ sec + 2) := by
  have hpow : 2 ^ bits = 2 * 2 ^ (bits - 1) := by
    rw [← Nat.pow_succ']
    congr 1
    omega
  have hlarge : 2 ^ 31 ≤ 2 ^ (bits - 1) := Nat.pow_le_pow_right (by omega) (by omega)
  rw [gt_iff_lt, BitVec.lt_def, BitVec.toNat_sub, BitVec.toNat_ofNat, BitVec.toNat_ofNat,
    BitVec.toNat_ofNat, Nat.mod_eq_of_lt (by omega : sec < 2 ^ bits),
    Nat.mod_eq_of_lt (by omega : next < 2 ^ bits), Nat.mod_eq_of_lt (by omega : 2 < 2 ^ bits)]
  by_cases hle : sec ≤ next
  · have hmod : (2 ^ bits - sec + next) % 2 ^ bits = next - sec := by
      rw [show 2 ^ bits - sec + next = (next - sec) + 2 ^ bits by omega, Nat.add_mod_right,
        Nat.mod_eq_of_lt (by omega)]
    rw [hmod]
    omega
  · rw [Nat.mod_eq_of_lt (by omega)]
    omega

theorem jiffiesGet_synced (hbits : 32 ≤ bits) (hsynced : Synced clock sec count)
    (hsec : sec < 2 ^ (bits - 1)) (hnext : tv.sec < 2 ^ (bits - 1)) :
    Synced (jiffiesGet clock tv).1 tv.sec (count + advance sec tv.sec) := by
  have hdiff : BitVec.ofNat bits tv.sec - clock.start - clock.seconds =
      BitVec.ofNat bits tv.sec - BitVec.ofNat bits sec := by
    rw [sub_sub, hsynced.wall]
  have hgt := difference_gt_iff hbits hsec hnext
  rw [← hdiff] at hgt
  rw [jiffiesGet]
  by_cases hnear : sec ≤ tv.sec ∧ tv.sec ≤ sec + 2
  · rw [if_neg (hgt.not.mpr (not_not_intro hnear)), advance, if_pos hnear]
    refine ⟨add_sub_cancel _ _, ?_⟩
    change BitVec.ofNat bits tv.sec - clock.start = _
    calc BitVec.ofNat bits tv.sec - clock.start
      _ = BitVec.ofNat bits sec + BitVec.ofNat bits (tv.sec - sec) - clock.start := by
          rw [← BitVec.ofNat_add, Nat.add_sub_cancel' hnear.1]
      _ = clock.seconds + BitVec.ofNat bits (tv.sec - sec) := by
          rw [← hsynced.wall]
          abel
      _ = BitVec.ofNat bits (count + (tv.sec - sec)) := by
          rw [hsynced.counted, ← BitVec.ofNat_add]
  · rw [if_pos (hgt.mpr hnear), advance, if_neg hnear]
    refine ⟨sub_add_cancel _ _, ?_⟩
    change clock.seconds + BitVec.ofNat bits 2 = _
    rw [hsynced.counted, ← BitVec.ofNat_add]

theorem jiffiesGet_result (hsynced : Synced (jiffiesGet clock tv).1 tv.sec count) :
    (jiffiesGet clock tv).2 = BitVec.ofNat bits (count * hz + tv.usec / 1000) := by
  have hvalue : (jiffiesGet clock tv).2 =
      BitVec.ofNat bits (tv.usec / 1000) + (jiffiesGet clock tv).1.seconds * BitVec.ofNat bits hz := by
    rw [jiffiesGet]
    by_cases hzero : tv.usec = 0
    · rw [if_neg (not_not_intro hzero), hzero]
      exact (zero_add _).symm
    · rw [if_pos hzero]
  rw [hvalue, hsynced.counted, ← BitVec.ofNat_mul, ← BitVec.ofNat_add, Nat.add_comm]

theorem results_eq {readings : List Reading} (hbits : 32 ≤ bits)
    (hsynced : Synced clock sec count) (hsec : sec < 2 ^ (bits - 1))
    (hreadings : ∀ tv ∈ readings, tv.sec < 2 ^ (bits - 1)) :
    results clock readings = (elapsed sec count readings).map (BitVec.ofNat bits) := by
  induction readings generalizing clock sec count with
  | nil => rfl
  | cons tv rest ih =>
    obtain ⟨hfirst, hrest⟩ := forall_mem_cons.mp hreadings
    have hnext := jiffiesGet_synced hbits hsynced hsec hfirst
    rw [results, elapsed, map_cons, jiffiesGet_result hnext, ih hnext hfirst hrest]

theorem step_good_iff {next : Reading} (hbits : 32 ≤ bits) (htv : tv.usec < 10 ^ 6)
    (hnext : next.usec < 10 ^ 6) (hfits : count * hz + tv.usec / 1000 < 2 ^ bits) :
    (BitVec.ofNat bits (count * hz + tv.usec / 1000)).toNat ≤
          (BitVec.ofNat bits ((count + advance tv.sec next.sec) * hz + next.usec / 1000)).toNat ∧
        (BitVec.ofNat bits ((count + advance tv.sec next.sec) * hz + next.usec / 1000)).toNat <
          (BitVec.ofNat bits (count * hz + tv.usec / 1000)).toNat + 3 * hz ↔
      (tv.sec = next.sec → tv.usec / 1000 ≤ next.usec / 1000) ∧
        (count + advance tv.sec next.sec) * hz + next.usec / 1000 < 2 ^ bits := by
  have hlarge : 2 ^ 32 ≤ 2 ^ bits := Nat.pow_le_pow_right (by omega) hbits
  have hadvance := advance_le tv.sec next.sec
  have hzero := @advance_eq_zero_iff tv.sec next.sec
  rw [BitVec.toNat_ofNat, BitVec.toNat_ofNat, Nat.mod_eq_of_lt hfits]
  rw [hz] at hfits ⊢
  by_cases hless : (count + advance tv.sec next.sec) * 1000 + next.usec / 1000 < 2 ^ bits
  · rw [Nat.mod_eq_of_lt hless]
    omega
  · have hwrap : ((count + advance tv.sec next.sec) * 1000 + next.usec / 1000) % 2 ^ bits =
        (count + advance tv.sec next.sec) * 1000 + next.usec / 1000 - 2 ^ bits := by
      rw [Nat.mod_eq_sub_mod (by omega), Nat.mod_eq_of_lt (by omega)]
    rw [hwrap]
    omega

theorem steady_cons_iff {rest : List Reading} (hbits : 32 ≤ bits)
    (husec : ∀ next ∈ tv :: rest, next.usec < 10 ^ 6)
    (hfits : count * hz + tv.usec / 1000 < 2 ^ bits) :
    Steady (((count * hz + tv.usec / 1000) :: elapsed tv.sec count rest).map
        (BitVec.ofNat bits)) ↔
      Ordered (tv :: rest) ∧ ∀ total ∈ elapsed tv.sec count rest, total < 2 ^ bits := by
  induction rest generalizing tv count with
  | nil => simp [Steady, Ordered, elapsed]
  | cons next rest ih =>
    obtain ⟨htv, hrest⟩ := forall_mem_cons.mp husec
    have hstep := @step_good_iff bits count tv next hbits htv (hrest next mem_cons_self) hfits
    rw [elapsed, map_cons, map_cons, Steady, isChain_cons_cons, hstep, Ordered,
      isChain_cons_cons, forall_mem_cons]
    constructor
    · rintro ⟨⟨horder, hless⟩, hchain⟩
      obtain ⟨hordered, hall⟩ := (ih hrest hless).mp hchain
      exact ⟨⟨horder, hordered⟩, hless, hall⟩
    · rintro ⟨⟨horder, hordered⟩, hless, hall⟩
      exact ⟨⟨horder, hless⟩, (ih hrest hless).mpr ⟨hordered, hall⟩⟩

end Steps

/-- The results never go back and never jump just if the wall clock does not go back within a
second and the milliseconds that have been counted fit into an `unsigned long`. -/
theorem jiffiesGet_steady_iff (bits : Nat) (hbits : 32 ≤ bits) (first : Reading)
    (readings : List Reading) (hfirst : first.sec < 2 ^ (bits - 1))
    (hsec : ∀ tv ∈ readings, tv.sec < 2 ^ (bits - 1)) (husec : ∀ tv ∈ readings, tv.usec < 10 ^ 6) :
    Steady (results (jiffiesInit bits first) readings) ↔
      Ordered readings ∧ ∀ total ∈ elapsed first.sec 0 readings, total < 2 ^ bits := by
  rw [results_eq hbits (synced_init bits first) hfirst hsec]
  cases readings with
  | nil => simp [Steady, Ordered, elapsed]
  | cons tv rest =>
    have hlarge : 2 ^ 32 ≤ 2 ^ bits := Nat.pow_le_pow_right (by omega) hbits
    have hadvance := advance_le first.sec tv.sec
    have htv := husec tv mem_cons_self
    have hfits : (0 + advance first.sec tv.sec) * hz + tv.usec / 1000 < 2 ^ bits := by
      rw [hz]
      omega
    rw [elapsed, steady_cons_iff hbits husec hfits, forall_mem_cons]
    exact and_congr_right' (and_iff_right hfits).symm

namespace ClockWitness

/-- The wall clock goes an hour back in between. -/
def stepped : List Reading :=
  [⟨7200, 0⟩, ⟨7200, 999999⟩, ⟨3600, 500000⟩, ⟨3601, 0⟩]

theorem steady_stepped :
    Steady (results (jiffiesInit 32 ⟨7200, 0⟩) stepped) := by
  refine (jiffiesGet_steady_iff 32 (by decide) ⟨7200, 0⟩ stepped (by decide) (by decide)
    (by decide)).mpr ⟨?_, by decide⟩
  simp [Ordered, stepped]

/-- The wall clock is set back within a second. -/
def back : List Reading :=
  [⟨7200, 900000⟩, ⟨7200, 100000⟩]

theorem not_steady_back :
    results (jiffiesInit 32 ⟨7200, 0⟩) back = [900, 100] ∧
      ¬ Steady (results (jiffiesInit 32 ⟨7200, 0⟩) back) := by
  have hresults : results (jiffiesInit 32 ⟨7200, 0⟩) back = [900, 100] := by
    decide
  grind [Steady.eq_1]

end ClockWitness

end SoftClock

end WaterWall
