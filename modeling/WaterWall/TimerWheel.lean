/-
The timer wheel of timer.c: five arrays of lists, filled by `internal_add_timer`
and emptied by `cascade` and `__run_timers`, on a 64-bit `unsigned long`.  A run
is any sequence of calls by the program, the readings of `jiffies` in the loop of
`__run_timers`, and the calls made by the callbacks.
-/
import WaterWall.AlarmClock

namespace WaterWall

open AlarmClock

inductive Level where
  | tv1 | tv2 | tv3 | tv4 | tv5
  deriving DecidableEq, Repr

namespace Level

/-- TVR_BITS + n * TVN_BITS. -/
def shift : Level → UInt64
  | .tv1 => 0
  | .tv2 => 8
  | .tv3 => 14
  | .tv4 => 20
  | .tv5 => 26

/-- TVR_MASK and TVN_MASK. -/
def mask : Level → UInt64
  | .tv1 => 255
  | _ => 63

/-- The index into the array for a time; INDEX(N) for `timer_jiffies`. -/
def index (level : Level) (time : UInt64) : Nat :=
  ((time >>> level.shift) &&& level.mask).toNat

/-- The ticks between one slot and the next. -/
def width : Level → Nat
  | .tv1 => 1
  | .tv2 => 256
  | .tv3 => 16384
  | .tv4 => 1048576
  | .tv5 => 67108864

/-- TVR_SIZE and TVN_SIZE. -/
def size : Level → Nat
  | .tv1 => 256
  | _ => 64

end Level

/-- The lists that a timer can be linked into. -/
inductive Place where
  | slot (level : Level) (index : Nat)
  | workList
  deriving DecidableEq, Repr

/-- The address of a `struct timer_list`. -/
abbrev TimerId : Type := Nat

/-- `boot_tvec_bases`, the timers and `jhl_timer_num`.  `entry` is the list into
which a timer is linked, `none` when `entry.next` is NULL. -/
structure Base where
  timerJiffies : UInt64
  lists : Place → List TimerId
  entry : TimerId → Option Place
  expires : TimerId → UInt64
  jhlTimerNum : Int

namespace Base

def listAddTail (base : Base) (timer : TimerId) (place : Place) : Base :=
  { base with
    lists := Function.update base.lists place (base.lists place ++ [timer])
    entry := Function.update base.entry timer (some place) }

/-- `__list_del`, and NULL into `entry.next`. -/
def listDel (base : Base) (timer : TimerId) : Base :=
  match base.entry timer with
  | none => base
  | some place =>
    { base with
      lists := Function.update base.lists place ((base.lists place).erase timer)
      entry := Function.update base.entry timer none }

/-- `list_replace_init(old, new)`: the timers of `old` are now in `new`. -/
def listReplaceInit (base : Base) (old new : Place) : Base :=
  { base with
    lists := Function.update (Function.update base.lists new (base.lists old)) old []
    entry := fun timer =>
      if base.entry timer = some old then some new else base.entry timer }

/-- What `list_replace_init` leaves behind when the new list is a local one. -/
def listInit (base : Base) (old : Place) : Base :=
  { base with lists := Function.update base.lists old [] }

def timerPending (base : Base) (timer : TimerId) : Bool :=
  (base.entry timer).isSome

def detachTimer (base : Base) (timer : TimerId) : Base :=
  { base.listDel timer with jhlTimerNum := base.jhlTimerNum - 1 }

def delTimer (base : Base) (timer : TimerId) : Bool × Base :=
  if base.timerPending timer then (true, base.detachTimer timer) else (false, base)

/-- Which list a timer goes into. -/
def vec (timerJiffies expires : UInt64) : Place :=
  let idx := expires - timerJiffies
  if idx < 256 then .slot .tv1 (Level.tv1.index expires)
  else if idx < 16384 then .slot .tv2 (Level.tv2.index expires)
  else if idx < 1048576 then .slot .tv3 (Level.tv3.index expires)
  else if idx < 67108864 then .slot .tv4 (Level.tv4.index expires)
  else if idx.toInt64 < 0 then .slot .tv1 (Level.tv1.index timerJiffies)
  else
    let expires := if 0xffffffff < idx then 0xffffffff + timerJiffies else expires
    .slot .tv5 (Level.tv5.index expires)

def internalAddTimer (base : Base) (timer : TimerId) : Base :=
  { base.listAddTail timer (vec base.timerJiffies (base.expires timer)) with
    jhlTimerNum := base.jhlTimerNum + 1 }

/-- The list is taken out as a whole and its timers are added one by one, without
being detached. -/
def cascade (base : Base) (level : Level) (index : Nat) : Base :=
  (base.lists (.slot level index)).foldl internalAddTimer (base.listInit (.slot level index))

/-- The cascades of one tick: a level is reached when the indices of all levels
before it are zero. -/
def cascadeFrom (base : Base) : List Level → Base
  | [] => base
  | level :: levels =>
    let index := level.index base.timerJiffies
    let base := base.cascade level index
    if index = 0 then base.cascadeFrom levels else base

/-- `++base->timer_jiffies`. -/
def advance (base : Base) : Base :=
  { base with timerJiffies := base.timerJiffies + 1 }

/-- The body of the loop of `__run_timers`, up to the callbacks. -/
def beginTick (base : Base) : Base :=
  let index := Level.tv1.index base.timerJiffies
  let base := if index = 0 then base.cascadeFrom [.tv2, .tv3, .tv4, .tv5] else base
  base.advance.listReplaceInit (.slot .tv1 index) .workList

def setExpires (base : Base) (timer : TimerId) (expires : UInt64) : Base :=
  { base with expires := Function.update base.expires timer expires }

/-- `__mod_timer`. -/
def modTimerAlways (base : Base) (timer : TimerId) (expires : UInt64) : Base :=
  let base := if base.timerPending timer then base.detachTimer timer else base
  (base.setExpires timer expires).internalAddTimer timer

def addTimer (base : Base) (timer : TimerId) : Base :=
  base.modTimerAlways timer (base.expires timer)

def modTimer (base : Base) (timer : TimerId) (expires : UInt64) : Base :=
  if base.expires timer = expires ∧ base.timerPending timer then base
  else base.modTimerAlways timer expires

end Base

/-- `time_after_eq`. -/
def timeAfterEq (a b : UInt64) : Bool :=
  0 ≤ a.toInt64 - b.toInt64

/-- Where control is: outside `run_timers`, in its loop, or in a callback. -/
inductive Phase where
  | outside | inLoop | inCallback
  deriving DecidableEq, Repr

/-- The wheel in a running program.  `clock` is the last reading of `jiffies` and
`tick` is `timer_jiffies`, both counted on without wrapping; `fired` lists the
callbacks made and the ticks in which they were. -/
structure System where
  base : Base
  phase : Phase
  clock : Nat
  tick : Nat
  fired : List (TimerId × Nat)

/-- `init_timers_cpu`, before any timer is armed. -/
def initTimersCpu (expires : TimerId → UInt64) (jiffies : Nat) : System where
  base :=
    { timerJiffies := UInt64.ofNat jiffies, lists := fun _ => [], entry := fun _ => none
      expires := expires, jhlTimerNum := 0 }
  phase := .outside
  clock := jiffies
  tick := jiffies
  fired := []

/-- `add` stores the expiry and calls `add_timer`; `enter` is the call of
`run_timers`, `read` a test of its loop and `fire` the call of the next callback,
which lasts until the next `fire` or `read`. -/
inductive Event where
  | add (timer : TimerId) (expires : UInt64)
  | mod (timer : TimerId) (expires : UInt64)
  | del (timer : TimerId)
  | enter
  | read (jiffies : Nat)
  | fire
  deriving DecidableEq, Repr

/-- A call of the program, which is not possible inside the loop itself. -/
def System.call (system : System) (base : Base) : Option System :=
  if system.phase = .inLoop then none else some { system with base := base }

def step (system : System) : Event → Option System
  | .add timer expires =>
    system.call ((system.base.setExpires timer expires).addTimer timer)
  | .mod timer expires => system.call (system.base.modTimer timer expires)
  | .del timer => system.call (system.base.delTimer timer).2
  | .enter =>
    if system.phase = .outside then some { system with phase := .inLoop } else none
  | .read jiffies =>
    if system.phase ≠ .outside ∧ system.base.lists .workList = [] ∧
        system.clock ≤ jiffies then
      if timeAfterEq (UInt64.ofNat jiffies) system.base.timerJiffies then
        some { system with
          base := system.base.beginTick, phase := .inLoop, clock := jiffies
          tick := system.tick + 1 }
      else some { system with phase := .outside, clock := jiffies }
    else none
  | .fire =>
    match system.base.lists .workList with
    | [] => none
    | timer :: _ =>
      if system.phase = .outside then none
      else
        some { system with
          base := system.base.detachTimer timer, phase := .inCallback
          fired := system.fired ++ [(timer, system.tick - 1)] }

def run : System → List Event → Option System
  | system, [] => some system
  | system, event :: events =>
    match step system event with
    | none => none
    | some next => run next events

/-- The tick for which a timer is armed: the later of its expiry, taken at its
signed distance from `timer_jiffies`, and `timer_jiffies` itself. -/
def deadlineAt (tick : Nat) (expires : UInt64) : Nat :=
  (max ((tick : Int) + (expires - UInt64.ofNat tick).toInt64.toInt) tick).toNat

/-- What an event does to the alarms that the timers stand for.  Modifying a
pending timer to its unchanged expiry is no operation. -/
def actionsOf (system : System) : Event → List (Action TimerId)
  | .add timer expires => [.arm timer (deadlineAt system.tick expires)]
  | .mod timer expires =>
    if system.base.expires timer = expires ∧ system.base.timerPending timer then []
    else [.arm timer (deadlineAt system.tick expires)]
  | .del timer => if system.base.timerPending timer then [.cancel timer] else []
  | .enter => []
  | .read jiffies =>
    if timeAfterEq (UInt64.ofNat jiffies) system.base.timerJiffies then [.advance]
    else []
  | .fire =>
    match system.base.lists .workList with
    | [] => []
    | timer :: _ => [.fire timer]

def traceOf : System → List Event → List (Action TimerId)
  | _, [] => []
  | system, event :: events =>
    match step system event with
    | none => []
    | some next => actionsOf system event ++ traceOf next events

/-- No reading of `jiffies` is 2^63 or more ahead of `timer_jiffies`. -/
def Steady : System → List Event → Prop
  | _, [] => True
  | system, event :: events =>
    (match event with
      | .read jiffies => jiffies < system.tick + 2 ^ 63
      | _ => True) ∧
      match step system event with
      | none => True
      | some next => Steady next events

/-- The ticks in which a timer has been fired. -/
def ticksOf (timer : TimerId) (fired : List (TimerId × Nat)) : List Nat :=
  (fired.filter fun entry => entry.1 = timer).map Prod.snd

/-- The event arms the timer, that is, it does not find it pending with the same
expiry. -/
def Arms (system : System) (timer : TimerId) (expires : UInt64) : Event → Prop
  | .add timer' expires' => timer' = timer ∧ expires' = expires
  | .mod timer' expires' =>
    timer' = timer ∧ expires' = expires ∧
      ¬ (system.base.expires timer = expires ∧ system.base.timerPending timer = true)
  | _ => False

/-- From `next` to `last` the timer has gone off in its tick or not at all; where
no callback is outstanding, it has if the tick has been processed. -/
def FiredOnce (timer : TimerId) (deadline : Nat) (next last : System) : Prop :=
  (ticksOf timer last.fired = ticksOf timer next.fired ∨
      ticksOf timer last.fired = ticksOf timer next.fired ++ [deadline]) ∧
    (last.base.lists .workList = [] →
      ticksOf timer last.fired =
        ticksOf timer next.fired ++ if deadline < last.tick then [deadline] else [])

/-- What holds of an event of a run and of what follows it: a timer that it arms
goes off once and in time unless it is armed again or deleted, one that it
deletes does not go off unless it is armed, and when `run_timers` returns all
ticks up to `jiffies` have been processed. -/
def Exact (start : System) (events : List Event) : Prop :=
  ∀ pre event post before next last, events = pre ++ event :: post →
    run start pre = some before → step before event = some next →
    run next post = some last →
      next.base.timerJiffies = UInt64.ofNat next.tick ∧
      (∀ timer expires, Arms before timer expires event →
        (∀ action ∈ traceOf next post, ¬ action.Touches timer) →
        FiredOnce timer (deadlineAt before.tick expires) next last) ∧
      (∀ timer, event = .del timer →
        (∀ action ∈ traceOf next post, ¬ action.Arms timer) →
        ticksOf timer last.fired = ticksOf timer next.fired) ∧
      ∀ jiffies, event = .read jiffies → next.phase = .outside →
        jiffies < next.tick ∧ next.base.lists .workList = []

section Placement

theorem toInt64_toInt (time : UInt64) :
    time.toInt64.toInt =
      if 2 * time.toNat < 2 ^ 64 then (time.toNat : Int) else time.toNat - 2 ^ 64 :=
  BitVec.toInt_eq_toNat_cond time.toBitVec

theorem toInt64_neg_iff (time : UInt64) : time.toInt64 < 0 ↔ 2 ^ 63 ≤ time.toNat := by
  have hlt : time.toNat < 2 ^ 64 := time.toNat_lt
  rw [Int64.lt_iff_toInt_lt, toInt64_toInt, Int64.toInt_zero]
  split <;> omega

theorem timeAfterEq_iff {a b : UInt64} : timeAfterEq a b ↔ (a - b).toNat < 2 ^ 63 := by
  have hsub : a.toInt64 - b.toInt64 = (a - b).toInt64 := rfl
  rw [timeAfterEq, hsub, decide_eq_true_iff, ← not_iff_not, Int64.not_le,
    toInt64_neg_iff, Nat.not_lt]

theorem sub_ofNat_toNat {tick : Nat} {expires : UInt64} {deadline : Nat}
    (hexpires : expires = UInt64.ofNat deadline) (htick : tick ≤ deadline)
    (hnear : deadline < tick + 2 ^ 63) :
    (expires - UInt64.ofNat tick).toNat = deadline - tick := by
  rw [hexpires, UInt64.toNat_sub, UInt64.toNat_ofNat', UInt64.toNat_ofNat']
  omega

theorem Level.index_eq (level : Level) (time : UInt64) :
    level.index time = time.toNat / level.width % level.size := by
  have hmask8 : ∀ n : Nat, n &&& 255 = n % 256 := fun n => Nat.and_two_pow_sub_one_eq_mod n 8
  have hmask6 : ∀ n : Nat, n &&& 63 = n % 64 := fun n => Nat.and_two_pow_sub_one_eq_mod n 6
  cases level <;>
    simp [Level.index, Level.shift, Level.mask, Level.width, Level.size, hmask8, hmask6,
      Nat.shiftRight_eq_div_pow]

theorem Level.index_ofNat (level : Level) (time : Nat) :
    level.index (UInt64.ofNat time) = time / level.width % level.size := by
  rw [Level.index_eq, UInt64.toNat_ofNat']
  cases level <;> simp only [Level.width, Level.size] <;> omega

/-- In which slots a timer armed for `deadline` may be when `timer_jiffies` is
`tick`.  In `tv1` a slot is one tick.  In the other levels a slot begins at a
multiple of the width that does not come after the deadline and, being cascaded
at that tick, lies less than one turn ahead; `bound` is the first tick that is
still to be cascaded. -/
def Fits (tick bound : Nat) (expires : UInt64) (deadline : Nat) : Level → Nat → Prop
  | .tv1, index => tick ≤ deadline ∧ deadline < tick + 256 ∧ index = deadline % 256
  | level, index =>
    expires = UInt64.ofNat deadline ∧ deadline < tick + 2 ^ 63 ∧
      ∃ block, index = block % 64 ∧ bound ≤ block * level.width ∧
        block * level.width < tick + 64 * level.width ∧ block * level.width ≤ deadline

/-- A timer that `internal_add_timer` puts where its deadline belongs. -/
def Placeable (tick : Nat) (expires : UInt64) (deadline : Nat) : Prop :=
  (expires = UInt64.ofNat deadline ∧ tick ≤ deadline ∧ deadline < tick + 2 ^ 63) ∨
    (deadline = tick ∧ 2 ^ 63 ≤ (expires - UInt64.ofNat tick).toNat)

theorem deadlineAt_of_near {tick : Nat} {expires : UInt64}
    (hnear : (expires - UInt64.ofNat tick).toNat < 2 ^ 63) :
    deadlineAt tick expires = tick + (expires - UInt64.ofNat tick).toNat := by
  rw [deadlineAt, toInt64_toInt, if_pos (by omega)]
  omega

theorem deadlineAt_of_past {tick : Nat} {expires : UInt64}
    (hpast : 2 ^ 63 ≤ (expires - UInt64.ofNat tick).toNat) :
    deadlineAt tick expires = tick := by
  have hlt : (expires - UInt64.ofNat tick).toNat < 2 ^ 64 := UInt64.toNat_lt _
  rw [deadlineAt, toInt64_toInt, if_neg (by omega)]
  omega

theorem le_deadlineAt (tick : Nat) (expires : UInt64) : tick ≤ deadlineAt tick expires := by
  rw [deadlineAt]
  omega

theorem placeable_deadlineAt (tick : Nat) (expires : UInt64) :
    Placeable tick expires (deadlineAt tick expires) := by
  by_cases hnear : (expires - UInt64.ofNat tick).toNat < 2 ^ 63
  · left
    rw [deadlineAt_of_near hnear]
    simp_all
  · right
    exact ⟨deadlineAt_of_past (Nat.not_lt.mp hnear), Nat.not_lt.mp hnear⟩

theorem fits_of_span {tick deadline time : Nat} {expires : UInt64} {level : Level}
    (hlevel : level ≠ .tv1) (hexpires : expires = UInt64.ofNat deadline)
    (hnear : deadline < tick + 2 ^ 63) (hlow : tick + level.width ≤ time)
    (hhigh : time < tick + 64 * level.width) (htime : time ≤ deadline) :
    Fits tick (tick + 1) expires deadline level (time / level.width % level.size) := by
  cases level with
  | tv1 => exact absurd rfl hlevel
  | _ =>
    refine ⟨hexpires, hnear, time / _, rfl, ?_⟩
    simp only [Level.width] at hlow hhigh ⊢
    omega

theorem vec_fits {tick : Nat} {expires : UInt64} {deadline : Nat}
    (hplace : Placeable tick expires deadline) :
    ∃ level index, Base.vec (UInt64.ofNat tick) expires = .slot level index ∧
      Fits tick (tick + 1) expires deadline level index := by
  rcases hplace with ⟨hexpires, hle, hnear⟩ | ⟨rfl, hpast⟩
  · have hidx := sub_ofNat_toNat hexpires hle hnear
    have hindex : ∀ level : Level,
        level.index expires = deadline / level.width % level.size := by
      intro level
      rw [hexpires, Level.index_ofNat]
    have hspan : ∀ level : Level, level ≠ .tv1 → tick + level.width ≤ deadline →
        deadline < tick + 64 * level.width →
        Fits tick (tick + 1) expires deadline level (deadline / level.width % level.size) :=
      fun level hlevel hlow hhigh =>
        fits_of_span hlevel hexpires hnear hlow hhigh (Nat.le_refl _)
    simp only [Base.vec, UInt64.lt_iff_toNat_lt, toInt64_neg_iff, hidx, hindex,
      UInt64.reduceToNat]
    split_ifs with h1 h2 h3 h4 h5 h6
    · exact ⟨.tv1, _, rfl, hle, by omega, by simp [Level.width, Level.size]⟩
    · exact ⟨.tv2, _, rfl, hspan .tv2 (by decide) (by rw [Level.width]; omega)
        (by rw [Level.width]; omega)⟩
    · exact ⟨.tv3, _, rfl, hspan .tv3 (by decide) (by rw [Level.width]; omega)
        (by rw [Level.width]; omega)⟩
    · exact ⟨.tv4, _, rfl, hspan .tv4 (by decide) (by rw [Level.width]; omega)
        (by rw [Level.width]; omega)⟩
    · omega
    · have hclamp : 0xffffffff + UInt64.ofNat tick = UInt64.ofNat (tick + 0xffffffff) := by
        rw [Nat.add_comm tick, UInt64.ofNat_add]
        rfl
      rw [hclamp, Level.index_ofNat]
      grind [fits_of_span, Level.width.eq_5]
    grind [Level.width.eq_5]
  · have hvec : Base.vec (UInt64.ofNat deadline) expires =
        .slot .tv1 (Level.tv1.index (UInt64.ofNat deadline)) := by
      simp only [Base.vec, UInt64.lt_iff_toNat_lt, toInt64_neg_iff, UInt64.reduceToNat]
      rw [if_neg (by omega), if_neg (by omega), if_neg (by omega), if_neg (by omega),
        if_pos hpast]
    refine ⟨.tv1, _, hvec, Nat.le_refl _, by omega, ?_⟩
    rw [Level.index_ofNat]
    simp [Level.width, Level.size]

end Placement

namespace Fits

variable {tick bound : Nat} {expires : UInt64} {deadline : Nat} {level : Level}
  {index : Nat}

theorem le_deadline (hfits : Fits tick bound expires deadline level index)
    (hbound : tick ≤ bound) : tick ≤ deadline := by
  cases level with
  | tv1 => exact hfits.1
  | _ =>
    obtain ⟨_, _, block, _, hlow, _, hblock⟩ := hfits
    omega

theorem placeable (hfits : Fits tick bound expires deadline level index)
    (hlevel : level ≠ .tv1) (hbound : tick ≤ bound) : Placeable tick expires deadline := by
  have hle := hfits.le_deadline hbound
  cases level with
  | tv1 => exact absurd rfl hlevel
  | _ => exact Or.inl ⟨hfits.1, hle, hfits.2.1⟩

theorem raise (hfits : Fits tick bound expires deadline level index)
    (hbound : tick ≤ bound)
    (hslot : tick % level.width = 0 → index ≠ tick / level.width % level.size) :
    Fits tick (tick + 1) expires deadline level index := by
  cases level with
  | tv1 => exact hfits
  | _ =>
    obtain ⟨hexpires, hnear, block, hindex, hlow, hhigh, hblock⟩ := hfits
    refine ⟨hexpires, hnear, block, hindex, ?_, hhigh, hblock⟩
    simp only [Level.width, Level.size] at hslot hlow ⊢
    omega

theorem weaken (hfits : Fits tick (tick + 1) expires deadline level index)
    (hbound : bound ≤ tick + 1) : Fits tick bound expires deadline level index := by
  cases level with
  | tv1 => exact hfits
  | _ =>
    obtain ⟨hexpires, hnear, block, hindex, hlow, hhigh, hblock⟩ := hfits
    exact ⟨hexpires, hnear, block, hindex, Nat.le_trans hbound hlow, hhigh, hblock⟩

theorem eq_tick (hfits : Fits tick bound expires deadline .tv1 (tick % 256)) :
    deadline = tick := by
  obtain ⟨hle, hlt, hindex⟩ := hfits
  omega

theorem advance (hfits : Fits tick (tick + 1) expires deadline level index)
    (hslot : level = .tv1 → index ≠ tick % 256) :
    Fits (tick + 1) (tick + 1) expires deadline level index := by
  cases level with
  | tv1 =>
    obtain ⟨hle, hlt, hindex⟩ := hfits
    have hother := hslot rfl
    exact ⟨by omega, by omega, hindex⟩
  | _ =>
    obtain ⟨hexpires, hnear, block, hindex, hlow, hhigh, hblock⟩ := hfits
    exact ⟨hexpires, by omega, block, hindex, hlow, by omega, hblock⟩

end Fits

end WaterWall
