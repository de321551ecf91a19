/-
Every run of the timer wheel is a run of the ideal alarm clock: each timer is
armed for the later of its expiry and `timer_jiffies`, goes off in that tick and
in no other, and no tick is left behind.
-/
import WaterWall.TimerWheel

namespace WaterWall

open AlarmClock List Function

/-- The wheel holds the armed timers where their deadlines belong.  The timers of
`loose` have been taken out of their list and not yet been added again; the slots
of a level that begin before `bound level` are empty. -/
structure Tracks (base : Base) (tick : Nat) (bound : Level → Nat) (loose : List TimerId)
    (armed : TimerId → Option Nat) : Prop where
  jiffies : base.timerJiffies = UInt64.ofNat tick
  nodup : ∀ place, (base.lists place).Nodup
  member : ∀ place timer,
    timer ∈ base.lists place ↔ base.entry timer = some place ∧ timer ∉ loose
  pending : ∀ timer, timer ∉ loose → ((base.entry timer).isSome ↔ (armed timer).isSome)
  slot : ∀ level index, ∀ timer ∈ base.lists (.slot level index),
    ∃ deadline, armed timer = some deadline ∧
      Fits tick (bound level) (base.expires timer) deadline level index
  work : ∀ timer ∈ base.lists .workList,
    ∃ deadline, armed timer = some deadline ∧ deadline + 1 = tick
  placeable : ∀ timer ∈ loose,
    ∃ deadline, armed timer = some deadline ∧ Placeable tick (base.expires timer) deadline

section Lists

variable {base : Base} {timer other : TimerId} {place : Place}

theorem mem_listAddTail (base : Base) (timer other : TimerId) (place target : Place) :
    other ∈ (base.listAddTail timer target).lists place ↔
      other ∈ base.lists place ∨ (place = target ∧ other = timer) := by
  by_cases hplace : place = target
  · subst hplace
    simp [Base.listAddTail]
  · simp [Base.listAddTail, hplace]

theorem entry_listAddTail (base : Base) (timer other : TimerId) (target : Place) :
    (base.listAddTail timer target).entry other =
      if other = timer then some target else base.entry other := by
  simp [Base.listAddTail, update_apply]

theorem lists_listDel {target : Place} (hentry : base.entry timer = some target) :
    (base.listDel timer).lists place =
      if place = target then (base.lists target).erase timer else base.lists place := by
  simp [Base.listDel, hentry, update_apply]

theorem entry_listDel (base : Base) (timer other : TimerId) :
    (base.listDel timer).entry other = if other = timer then none else base.entry other := by
  cases hentry : base.entry timer with
  | none =>
    grind [Base.listDel]
  | some target => simp [Base.listDel, hentry, update_apply]

theorem lists_detachTimer {target : Place} (hentry : base.entry timer = some target) :
    (base.detachTimer timer).lists place =
      if place = target then (base.lists target).erase timer else base.lists place :=
  lists_listDel hentry

theorem entry_detachTimer (base : Base) (timer other : TimerId) :
    (base.detachTimer timer).entry other =
      if other = timer then none else base.entry other :=
  entry_listDel base timer other

theorem expires_detachTimer (base : Base) (timer : TimerId) :
    (base.detachTimer timer).expires = base.expires := by
  cases hentry : base.entry timer <;> simp [Base.detachTimer, Base.listDel, hentry]

theorem timerJiffies_detachTimer (base : Base) (timer : TimerId) :
    (base.detachTimer timer).timerJiffies = base.timerJiffies := by
  cases hentry : base.entry timer <;> simp [Base.detachTimer, Base.listDel, hentry]

theorem lists_listInit (base : Base) (old place : Place) :
    (base.listInit old).lists place = if place = old then [] else base.lists place := by
  simp [Base.listInit, update_apply]

theorem expires_setExpires (base : Base) (timer other : TimerId) (expires : UInt64) :
    (base.setExpires timer expires).expires other =
      if other = timer then expires else base.expires other := by
  simp [Base.setExpires, update_apply]

end Lists

namespace Tracks

variable {base : Base} {tick : Nat} {bound : Level → Nat} {loose : List TimerId}
  {armed : TimerId → Option Nat} {timer : TimerId}

theorem mem_lists_iff (htracks : Tracks base tick bound [] armed) (place : Place)
    (timer : TimerId) : timer ∈ base.lists place ↔ base.entry timer = some place := by
  simp [htracks.member place timer]

theorem index_eq (htracks : Tracks base tick bound loose armed) (level : Level) :
    level.index base.timerJiffies = tick / level.width % level.size := by
  rw [htracks.jiffies, Level.index_ofNat]

theorem internalAddTimer (htracks : Tracks base tick bound (timer :: loose) armed)
    (hnew : timer ∉ loose) (hbound : ∀ level, bound level ≤ tick + 1) :
    Tracks (base.internalAddTimer timer) tick bound loose armed := by
  obtain ⟨deadline, harmed, hplace⟩ := htracks.placeable timer mem_cons_self
  obtain ⟨level, index, hvec, hfits⟩ := vec_fits hplace
  rw [← htracks.jiffies] at hvec
  have hout : ∀ place, timer ∉ base.lists place := by
    intro place hmem
    exact ((htracks.member place timer).mp hmem).2 mem_cons_self
  have hmem : ∀ place other, other ∈ (base.internalAddTimer timer).lists place ↔
      other ∈ base.lists place ∨ (place = .slot level index ∧ other = timer) := by
    simp_all [Base.internalAddTimer.eq_1, mem_listAddTail]
  have hentry : ∀ other, (base.internalAddTimer timer).entry other =
      if other = timer then some (.slot level index) else base.entry other := by
    simp_all [Base.internalAddTimer.eq_1, entry_listAddTail]
  refine ⟨htracks.jiffies, ?_, ?_, ?_, ?_, ?_, ?_⟩
  · intro place
    have hold := htracks.nodup place
    by_cases hslot : place = .slot level index
    · subst hslot
      simp only [Base.internalAddTimer, hvec, Base.listAddTail, update_self]
      rw [← concat_eq_append]
      exact hold.concat (hout _)
    simp_all [Base.internalAddTimer, Base.listAddTail]
  · intro place other
    rw [hmem, hentry]
    by_cases hother : other = timer
    · subst hother
      simp [hout place, hnew, eq_comm]
    · simp [hother, htracks.member place other]
  · intro other hother
    rw [hentry]
    by_cases hsame : other = timer
    · subst hsame
      simp [harmed]
    · rw [if_neg hsame]
      exact htracks.pending other (by simp [hsame, hother])
  · intro level' index' other hother
    rw [hmem] at hother
    rcases hother with hold | ⟨hslot, rfl⟩
    · exact htracks.slot level' index' other hold
    · rw [Place.slot.injEq] at hslot
      obtain ⟨rfl, rfl⟩ := hslot
      exact ⟨deadline, harmed, hfits.weaken (hbound _)⟩
  · intro other hother
    rw [hmem] at hother
    rcases hother with hold | ⟨hslot, _⟩
    · exact htracks.work other hold
    · cases hslot
  · intro other hother
    exact htracks.placeable other (mem_cons_of_mem timer hother)

theorem mem_detachTimer (htracks : Tracks base tick bound loose armed) {target : Place}
    (htarget : base.entry timer = some target) (place : Place) (other : TimerId) :
    other ∈ (base.detachTimer timer).lists place ↔
      other ∈ base.lists place ∧ other ≠ timer := by
  rw [lists_detachTimer htarget]
  by_cases hplace : place = target
  · rw [if_pos hplace, hplace, (htracks.nodup target).mem_erase_iff, and_comm]
  · rw [if_neg hplace]
    constructor
    · intro hother
      refine ⟨hother, ?_⟩
      rintro rfl
      have hentry := ((htracks.member place other).mp hother).1
      rw [htarget, Option.some.injEq] at hentry
      exact hplace hentry.symm
    · exact And.left

theorem detachTimer (htracks : Tracks base tick bound loose armed)
    (hpending : base.timerPending timer = true) (hloose : timer ∉ loose) :
    Tracks (base.detachTimer timer) tick bound loose (Function.update armed timer none) := by
  obtain ⟨target, htarget⟩ := Option.isSome_iff_exists.mp hpending
  have hmem := htracks.mem_detachTimer htarget
  have hexpires := expires_detachTimer base timer
  refine ⟨?_, ?_, ?_, ?_, ?_, ?_, ?_⟩
  · rw [timerJiffies_detachTimer, htracks.jiffies]
  · intro place
    rw [lists_detachTimer htarget]
    split
    · exact (htracks.nodup target).erase timer
    · exact htracks.nodup place
  · intro place other
    rw [hmem, entry_detachTimer, htracks.member place other]
    by_cases hother : other = timer <;> simp [hother]
  · intro other hother
    rw [entry_detachTimer, update_apply]
    by_cases hsame : other = timer
    · simp [hsame]
    · rw [if_neg hsame, if_neg hsame]
      exact htracks.pending other hother
  · intro level index other hother
    rw [hmem] at hother
    rw [hexpires, update_of_ne hother.2]
    exact htracks.slot level index other hother.1
  · intro other hother
    rw [hmem] at hother
    rw [update_of_ne hother.2]
    exact htracks.work other hother.1
  · intro other hother
    have hne : other ≠ timer := by
      rintro rfl
      exact hloose hother
    rw [hexpires, update_of_ne hne]
    exact htracks.placeable other hother

theorem setExpires (htracks : Tracks base tick bound [] armed)
    (hidle : base.entry timer = none) (expires : UInt64) :
    Tracks (base.setExpires timer expires) tick bound [timer]
      (Function.update armed timer (some (deadlineAt tick expires))) := by
  have hne : ∀ place, ∀ other ∈ base.lists place, other ≠ timer := by
    rintro place other hother rfl
    rw [htracks.member, hidle] at hother
    cases hother.1
  refine ⟨htracks.jiffies, htracks.nodup, ?_, ?_, ?_, ?_, ?_⟩
  · intro place other
    have hmember := htracks.member place other
    constructor
    · intro hother
      exact ⟨(hmember.mp hother).1, by simp [hne place other hother]⟩
    · intro hother
      exact hmember.mpr ⟨hother.1, not_mem_nil⟩
  · intro other hother
    rw [mem_singleton] at hother
    rw [update_of_ne hother]
    exact htracks.pending other not_mem_nil
  · intro level index other hother
    have hother' := hne _ other hother
    rw [update_of_ne hother', expires_setExpires, if_neg hother']
    exact htracks.slot level index other hother
  · intro other hother
    rw [update_of_ne (hne _ other hother)]
    exact htracks.work other hother
  · intro other hother
    rw [mem_singleton] at hother
    subst hother
    refine ⟨deadlineAt tick expires, update_self _ _ _, ?_⟩
    rw [expires_setExpires, if_pos rfl]
    exact placeable_deadlineAt tick expires

theorem modTimerAlways (htracks : Tracks base tick (fun _ => tick) [] armed)
    (timer : TimerId) (expires : UInt64) :
    Tracks (base.modTimerAlways timer expires) tick (fun _ => tick) []
      (Function.update armed timer (some (deadlineAt tick expires))) := by
  have hbound : ∀ level : Level, (fun _ : Level => tick) level ≤ tick + 1 :=
    fun _ => Nat.le_succ tick
  rw [Base.modTimerAlways]
  by_cases hpending : base.timerPending timer = true
  · have hdetached := htracks.detachTimer hpending not_mem_nil
    have hidle : (base.detachTimer timer).entry timer = none := by
      rw [entry_detachTimer, if_pos rfl]
    have harmed := hdetached.setExpires hidle expires
    rw [update_idem] at harmed
    rw [if_pos hpending]
    exact harmed.internalAddTimer not_mem_nil hbound
  · have hidle : base.entry timer = none := by
      rw [Base.timerPending, Option.not_isSome_iff_eq_none] at hpending
      exact hpending
    rw [if_neg hpending]
    exact (htracks.setExpires hidle expires).internalAddTimer not_mem_nil hbound

theorem foldl_internalAddTimer (htracks : Tracks base tick bound loose armed)
    (hnodup : loose.Nodup) (hbound : ∀ level, bound level ≤ tick + 1) :
    Tracks (loose.foldl Base.internalAddTimer base) tick bound [] armed := by
  induction loose generalizing base with
  | nil => exact htracks
  | cons timer loose ih =>
    rw [nodup_cons] at hnodup
    exact ih (htracks.internalAddTimer hnodup.1 hbound) hnodup.2

theorem rebound (htracks : Tracks base tick bound loose armed) {bound' : Level → Nat}
    (hfits : ∀ level index expires deadline,
      Fits tick (bound level) expires deadline level index →
        Fits tick (bound' level) expires deadline level index) :
    Tracks base tick bound' loose armed := by
  refine { htracks with slot := ?_ }
  intro level index timer htimer
  obtain ⟨deadline, harmed, hold⟩ := htracks.slot level index timer htimer
  exact ⟨deadline, harmed, hfits level index _ deadline hold⟩

theorem takeSlot (htracks : Tracks base tick bound [] armed) {level : Level}
    (hlevel : level ≠ .tv1) (hbound : tick ≤ bound level) {index : Nat}
    (hindex : index = tick / level.width % level.size) :
    Tracks (base.listInit (.slot level index)) tick
      (Function.update bound level (tick + 1)) (base.lists (.slot level index)) armed := by
  have hmember := htracks.mem_lists_iff
  have hlists : ∀ place other, other ∈ (base.listInit (.slot level index)).lists place ↔
      other ∈ base.lists place ∧ place ≠ .slot level index := by
    grind [lists_listInit]
  refine ⟨htracks.jiffies, ?_, ?_, ?_, ?_, ?_, ?_⟩
  · intro place
    rw [lists_listInit]
    split
    · exact nodup_nil
    · exact htracks.nodup place
  · intro place other
    rw [hlists, hmember, hmember]
    constructor
    · rintro ⟨hentry, hplace⟩
      refine ⟨hentry, ?_⟩
      rw [hentry, Option.some.injEq]
      exact hplace
    · rintro ⟨hentry, hslot⟩
      refine ⟨hentry, ?_⟩
      rintro rfl
      exact hslot hentry
  · exact fun other _ => htracks.pending other not_mem_nil
  · intro level' index' other hother
    rw [hlists] at hother
    obtain ⟨deadline, harmed, hfits⟩ := htracks.slot level' index' other hother.1
    refine ⟨deadline, harmed, ?_⟩
    by_cases hsame : level' = level
    · subst hsame
      rw [update_self]
      apply hfits.raise hbound
      intro _ hslot
      apply hother.2
      rw [hslot, hindex]
    · rw [update_of_ne hsame]
      exact hfits
  · intro other hother
    rw [hlists] at hother
    exact htracks.work other hother.1
  · intro other hother
    obtain ⟨deadline, harmed, hfits⟩ := htracks.slot level index other hother
    exact ⟨deadline, harmed, hfits.placeable hlevel hbound⟩

theorem raise_bound (hbound : ∀ level, tick ≤ bound level ∧ bound level ≤ tick + 1)
    (level level' : Level) : tick ≤ Function.update bound level (tick + 1) level' ∧
      Function.update bound level (tick + 1) level' ≤ tick + 1 := by
  rw [update_apply]
  split
  · exact ⟨Nat.le_succ tick, Nat.le_refl _⟩
  · exact hbound level'

theorem cascade (htracks : Tracks base tick bound [] armed) {level : Level}
    (hlevel : level ≠ .tv1) (hbound : ∀ level, tick ≤ bound level ∧ bound level ≤ tick + 1) :
    Tracks (base.cascade level (level.index base.timerJiffies)) tick
      (Function.update bound level (tick + 1)) [] armed := by
  apply (htracks.takeSlot hlevel (hbound level).1 (htracks.index_eq level)).foldl_internalAddTimer
    (htracks.nodup _)
  exact fun level' => (raise_bound hbound level level').2

end Tracks

section Ladder

/-- Each level turns once for every slot of the next. -/
def Ladder : Level → List Level → Prop
  | _, [] => True
  | below, level :: levels =>
    level ≠ .tv1 ∧ level.width = below.size * below.width ∧ Ladder level levels

theorem ladder_all : Ladder .tv1 [.tv2, .tv3, .tv4, .tv5] := by
  simp [Ladder, Level.width, Level.size]

theorem Ladder.no_turn {below : Level} {levels : List Level} {tick : Nat}
    (hladder : Ladder below levels) (hturn : tick % (below.size * below.width) ≠ 0) :
    ∀ level ∈ levels, tick % level.width ≠ 0 := by
  induction levels generalizing below with
  | nil => simp
  | cons level levels ih =>
    obtain ⟨_, hwidth, hrest⟩ := hladder
    rw [← hwidth] at hturn
    rw [forall_mem_cons]
    refine ⟨hturn, ih hrest ?_⟩
    intro hzero
    apply hturn
    exact Nat.mod_eq_zero_of_dvd
      ((Nat.dvd_mul_left _ _).trans (Nat.dvd_of_mod_eq_zero hzero))

/-- The bounds once the levels have been seen to in a tick. -/
def raised (tick : Nat) (bound : Level → Nat) (levels : List Level) : Level → Nat :=
  fun level => if level ∈ levels then tick + 1 else bound level

theorem raised_cons (tick : Nat) (bound : Level → Nat) (level : Level) (levels : List Level) :
    raised tick (Function.update bound level (tick + 1)) levels =
      raised tick bound (level :: levels) := by
  funext level'
  by_cases hsame : level' = level
  · simp [raised, hsame]
  · simp [raised, hsame]

variable {base : Base} {tick : Nat} {bound : Level → Nat} {armed : TimerId → Option Nat}

theorem Tracks.raise (htracks : Tracks base tick bound [] armed) {levels : List Level}
    (hbound : ∀ level, tick ≤ bound level)
    (hturn : ∀ level ∈ levels, tick % level.width ≠ 0) :
    Tracks base tick (raised tick bound levels) [] armed := by
  apply htracks.rebound
  intro level index expires deadline hfits
  rw [raised]
  split
  · apply hfits.raise (hbound level)
    intro hzero
    exact absurd hzero (hturn level ‹_›)
  · exact hfits

theorem Tracks.cascadeFrom (htracks : Tracks base tick bound [] armed)
    (hbound : ∀ level, tick ≤ bound level ∧ bound level ≤ tick + 1)
    {below : Level} {levels : List Level} (hladder : Ladder below levels)
    (hturn : tick % (below.size * below.width) = 0) :
    Tracks (base.cascadeFrom levels) tick (raised tick bound levels) [] armed := by
  induction levels generalizing base bound below with
  | nil => exact htracks
  | cons level levels ih =>
    obtain ⟨hlevel, hwidth, hrest⟩ := hladder
    rw [← hwidth] at hturn
    have hcascade := htracks.cascade hlevel hbound
    have hbound' := Tracks.raise_bound hbound level
    rw [Base.cascadeFrom, ← raised_cons]
    have hnext : tick % (level.size * level.width) =
        level.width * level.index base.timerJiffies := by
      rw [htracks.index_eq, Nat.mul_comm level.size, Nat.mod_mul, hturn, Nat.zero_add]
    by_cases hzero : level.index base.timerJiffies = 0
    · rw [if_pos hzero]
      apply ih hcascade hbound' hrest
      rw [hnext, hzero, Nat.mul_zero]
    · rw [if_neg hzero]
      apply hcascade.raise fun level' => (hbound' level').1
      apply hrest.no_turn
      rw [hnext]
      have hpos : level.width ≠ 0 := by cases level <;> decide
      exact Nat.mul_ne_zero hpos hzero

end Ladder

section Tick

variable {base : Base} {tick : Nat} {armed : TimerId → Option Nat}

theorem vec_ne_workList (timerJiffies expires : UInt64) :
    Base.vec timerJiffies expires ≠ .workList := by
  rw [Base.vec]
  split_ifs <;> simp

@[simp]
theorem workList_internalAddTimer (base : Base) (timer : TimerId) :
    (base.internalAddTimer timer).lists .workList = base.lists .workList :=
  update_of_ne (vec_ne_workList base.timerJiffies (base.expires timer)).symm _ _

theorem workList_foldl (timers : List TimerId) (base : Base) :
    (timers.foldl Base.internalAddTimer base).lists .workList = base.lists .workList := by
  induction timers generalizing base with
  | nil => rfl
  | cons timer timers ih => rw [foldl_cons, ih, workList_internalAddTimer]

@[simp]
theorem workList_cascade (base : Base) (level : Level) (index : Nat) :
    (base.cascade level index).lists .workList = base.lists .workList := by
  rw [Base.cascade, workList_foldl, lists_listInit, if_neg (by simp)]

theorem workList_cascadeFrom (base : Base) (levels : List Level) :
    (base.cascadeFrom levels).lists .workList = base.lists .workList := by
  induction levels generalizing base with
  | nil => rfl
  | cons level levels ih =>
    rw [Base.cascadeFrom]
    split
    · rw [ih, workList_cascade]
    · exact workList_cascade base level _

/-- The timers of the slot that has come up are moved to the work list; they are
those armed for this tick. -/
theorem Tracks.replaceInit {bound : Level → Nat}
    (htracks : Tracks base tick bound [] armed)
    (hbound : ∀ level, level ≠ .tv1 → bound level = tick + 1)
    (hwork : base.lists .workList = []) :
    Tracks (base.advance.listReplaceInit (.slot .tv1 (tick % 256)) .workList)
      (tick + 1) (fun _ => tick + 1) [] armed := by
  have hlists : ∀ place,
      (base.advance.listReplaceInit (.slot .tv1 (tick % 256)) .workList).lists place =
        if place = .slot .tv1 (tick % 256) then []
        else if place = .workList then base.lists (.slot .tv1 (tick % 256))
        else base.lists place := by
    intro place
    simp [Base.listReplaceInit, Base.advance, update_apply]
  have hentry : ∀ timer,
      (base.advance.listReplaceInit (.slot .tv1 (tick % 256)) .workList).entry timer =
        if base.entry timer = some (.slot .tv1 (tick % 256)) then some .workList
        else base.entry timer :=
    fun _ => rfl
  have hmember := htracks.mem_lists_iff
  have hempty : ∀ timer, base.entry timer ≠ some .workList := by
    intro timer hsome
    rw [← hmember, hwork] at hsome
    exact not_mem_nil hsome
  refine ⟨?_, ?_, ?_, ?_, ?_, ?_, ?_⟩
  · change base.timerJiffies + 1 = _
    rw [htracks.jiffies, UInt64.ofNat_add]
    rfl
  · intro place
    rw [hlists]
    split_ifs
    · exact nodup_nil
    · exact htracks.nodup _
    · exact htracks.nodup place
  · grind
  · intro timer _
    rw [hentry]
    have hpending := htracks.pending timer not_mem_nil
    split_ifs with hmoved
    · rw [hmoved] at hpending
      exact hpending
    · exact hpending
  · intro level index timer htimer
    rw [hlists] at htimer
    by_cases hslot : Place.slot level index = .slot .tv1 (tick % 256)
    · rw [if_pos hslot] at htimer
      cases htimer
    · rw [if_neg hslot, if_neg (by simp)] at htimer
      obtain ⟨deadline, harmed, hfits⟩ := htracks.slot level index timer htimer
      refine ⟨deadline, harmed, ?_⟩
      have hraised : Fits tick (tick + 1) (base.expires timer) deadline level index := by
        cases level with
        | tv1 => exact hfits
        | _ =>
          rw [hbound _ (by simp)] at hfits
          exact hfits
      apply hraised.advance
      rintro rfl rfl
      exact hslot rfl
  · intro timer htimer
    rw [hlists, if_neg (by simp), if_pos rfl] at htimer
    obtain ⟨deadline, harmed, hfits⟩ := htracks.slot .tv1 (tick % 256) timer htimer
    exact ⟨deadline, harmed, by rw [hfits.eq_tick]⟩
  · intro timer htimer
    cases htimer

theorem Tracks.beginTick (htracks : Tracks base tick (fun _ => tick) [] armed)
    (hwork : base.lists .workList = []) :
    Tracks base.beginTick (tick + 1) (fun _ => tick + 1) [] armed := by
  have hindex : Level.tv1.index base.timerJiffies = tick % 256 := by
    rw [htracks.index_eq]
    simp [Level.width, Level.size]
  have hraised : ∀ level, level ≠ .tv1 →
      raised tick (fun _ => tick) [.tv2, .tv3, .tv4, .tv5] level = tick + 1 := by
    intro level hlevel
    cases level <;> simp_all [raised]
  rw [Base.beginTick, hindex]
  by_cases hzero : tick % 256 = 0
  · simp only [hzero, ↓reduceIte]
    rw [← hzero]
    apply Tracks.replaceInit _ hraised
    · rw [workList_cascadeFrom]
      exact hwork
    · exact htracks.cascadeFrom (fun _ => ⟨Nat.le_refl _, Nat.le_succ tick⟩) ladder_all hzero
  · simp only [hzero, ↓reduceIte]
    apply Tracks.replaceInit _ hraised hwork
    exact htracks.raise (fun _ => Nat.le_refl _) (ladder_all.no_turn hzero)

end Tick

/-- The wheel stands for the clock. -/
structure Simulates (system : System) (clock : Clock TimerId) : Prop where
  tracks : Tracks system.base system.tick (fun _ => system.tick) [] clock.armed
  now : clock.now = system.tick
  behind : system.tick ≤ system.clock + 1
  idle : system.phase = .outside → system.base.lists .workList = []

section Simulation

variable {system next : System} {clock : Clock TimerId} {event : Event}

theorem simulates_init (expires : TimerId → UInt64) (jiffies : Nat) :
    Simulates (initTimersCpu expires jiffies) ⟨jiffies, fun _ => none⟩ := by
  refine ⟨?_, rfl, Nat.le_succ _, fun _ => rfl⟩
  constructor <;> simp [initTimersCpu]

theorem Simulates.current (hsim : Simulates system clock)
    (hwork : system.base.lists .workList = []) : clock.Current := by
  intro timer deadline harmed
  have hpending := hsim.tracks.pending timer not_mem_nil
  rw [harmed] at hpending
  obtain ⟨place, hplace⟩ := Option.isSome_iff_exists.mp (hpending.mpr rfl)
  have hmem := (hsim.tracks.mem_lists_iff place timer).mpr hplace
  cases place with
  | workList =>
    rw [hwork] at hmem
    cases hmem
  | slot level index =>
    obtain ⟨deadline', harmed', hfits⟩ := hsim.tracks.slot level index timer hmem
    rw [harmed, Option.some.injEq] at harmed'
    rw [hsim.now, harmed']
    exact hfits.le_deadline (Nat.le_refl _)

theorem timeAfterEq_jiffies_iff (hsim : Simulates system clock) {jiffies : Nat}
    (hmonotone : system.clock ≤ jiffies) (hsteady : jiffies < system.tick + 2 ^ 63) :
    timeAfterEq (UInt64.ofNat jiffies) system.base.timerJiffies ↔ system.tick ≤ jiffies := by
  have hbehind := hsim.behind
  rw [timeAfterEq_iff, hsim.tracks.jiffies, UInt64.toNat_sub, UInt64.toNat_ofNat',
    UInt64.toNat_ofNat']
  omega

theorem workList_detachTimer {base : Base} (hwork : base.lists .workList = [])
    (timer : TimerId) : (base.detachTimer timer).lists .workList = [] := by
  cases hentry : base.entry timer with
  | none => simpa [Base.detachTimer, Base.listDel, hentry] using hwork
  | some target =>
    rw [lists_detachTimer hentry]
    split
    · rw [← ‹Place.workList = target›, hwork]
      rfl
    · exact hwork

theorem workList_modTimerAlways {base : Base} (hwork : base.lists .workList = [])
    (timer : TimerId) (expires : UInt64) :
    (base.modTimerAlways timer expires).lists .workList = [] := by
  rw [Base.modTimerAlways, workList_internalAddTimer]
  split
  · exact workList_detachTimer hwork timer
  · exact hwork

theorem addTimer_setExpires (base : Base) (timer : TimerId) (expires : UInt64) :
    (base.setExpires timer expires).addTimer timer = base.modTimerAlways timer expires := by
  rw [Base.addTimer, expires_setExpires, if_pos rfl]
  cases hentry : base.entry timer with
  | none =>
    simp [Base.modTimerAlways, Base.timerPending, Base.setExpires, hentry]
  | some target =>
    simp [Base.modTimerAlways, Base.timerPending, Base.setExpires, Base.detachTimer,
      Base.listDel, hentry]

theorem call_eq_some {base : Base} (hcall : system.call base = some next) :
    next = { system with base := base } := by
  rw [System.call] at hcall
  split at hcall
  · cases hcall
  · exact (Option.some.inj hcall).symm

theorem Simulates.arm (hsim : Simulates system clock) (timer : TimerId)
    (expires : UInt64) :
    Step clock (.arm timer (deadlineAt system.tick expires))
        (clock.set timer (some (deadlineAt system.tick expires))) ∧
      Simulates { system with base := system.base.modTimerAlways timer expires }
        (clock.set timer (some (deadlineAt system.tick expires))) := by
  constructor
  · apply Step.arm
    rw [hsim.now]
    exact le_deadlineAt system.tick expires
  · refine ⟨hsim.tracks.modTimerAlways timer expires, hsim.now, hsim.behind, ?_⟩
    intro hphase
    exact workList_modTimerAlways (hsim.idle hphase) timer expires

theorem read_enabled {jiffies : Nat} (hstep : step system (.read jiffies) = some next) :
    system.phase ≠ .outside ∧ system.base.lists .workList = [] ∧ system.clock ≤ jiffies := by
  rw [step] at hstep
  split at hstep
  · assumption
  · cases hstep

theorem Simulates.step_read (hsim : Simulates system clock)
    (hphase : system.phase ≠ .outside) (hwork : system.base.lists .workList = [])
    {jiffies : Nat} (hmonotone : system.clock ≤ jiffies)
    (hnear : jiffies < system.tick + 2 ^ 63) :
    WaterWall.step system (.read jiffies) =
      if system.tick ≤ jiffies then
        some { system with
          base := system.base.beginTick, phase := .inLoop, clock := jiffies
          tick := system.tick + 1 }
      else some { system with phase := .outside, clock := jiffies } := by
  rw [WaterWall.step, if_pos ⟨hphase, hwork, hmonotone⟩]
  simp only [timeAfterEq_jiffies_iff hsim hmonotone hnear]

theorem Simulates.read (hsim : Simulates system clock) {jiffies : Nat}
    (hnear : jiffies < system.tick + 2 ^ 63)
    (hstep : step system (.read jiffies) = some next) :
    ∃ clock', Path clock (actionsOf system (.read jiffies)) clock' ∧ Simulates next clock' := by
  obtain ⟨hphase, hwork, hmonotone⟩ := read_enabled hstep
  rw [hsim.step_read hphase hwork hmonotone hnear] at hstep
  simp only [actionsOf, timeAfterEq_jiffies_iff hsim hmonotone hnear]
  by_cases hlate : system.tick ≤ jiffies
  · rw [if_pos hlate, Option.some.injEq] at hstep
    rw [if_pos hlate, ← hstep]
    refine ⟨_, .single (.advance (hsim.current hwork)), hsim.tracks.beginTick hwork, ?_, ?_,
      by simp⟩
    · rw [hsim.now]
    · exact Nat.succ_le_succ hlate
  · rw [if_neg hlate, Option.some.injEq] at hstep
    rw [if_neg hlate, ← hstep]
    exact ⟨clock, .nil, hsim.tracks, hsim.now,
      Nat.le_trans hsim.behind (Nat.succ_le_succ hmonotone), fun _ => hwork⟩

theorem Simulates.head_due (hsim : Simulates system clock) {timer : TimerId}
    {rest : List TimerId} (hwork : system.base.lists .workList = timer :: rest) :
    system.base.entry timer = some .workList ∧
      ∃ deadline, clock.armed timer = some deadline ∧ deadline + 1 = clock.now := by
  have hhead : timer ∈ system.base.lists .workList := by
    rw [hwork]
    exact mem_cons_self
  rw [hsim.now]
  exact ⟨(hsim.tracks.mem_lists_iff .workList timer).mp hhead,
    hsim.tracks.work timer hhead⟩

theorem Simulates.step (hsim : Simulates system clock)
    (hsteady : ∀ jiffies, event = .read jiffies → jiffies < system.tick + 2 ^ 63)
    (hstep : step system event = some next) :
    ∃ clock', Path clock (actionsOf system event) clock' ∧ Simulates next clock' := by
  cases event with
  | add timer expires =>
    have hnext := call_eq_some hstep
    rw [addTimer_setExpires] at hnext
    obtain ⟨harm, hsim'⟩ := hsim.arm timer expires
    rw [hnext]
    exact ⟨_, .single harm, hsim'⟩
  | mod timer expires =>
    have hnext := call_eq_some hstep
    rw [Base.modTimer] at hnext
    rw [actionsOf]
    split at hnext
    · rw [hnext, if_pos ‹_›]
      exact ⟨clock, .nil, hsim⟩
    · obtain ⟨harm, hsim'⟩ := hsim.arm timer expires
      rw [hnext, if_neg ‹_›]
      exact ⟨_, .single harm, hsim'⟩
  | del timer =>
    have hnext := call_eq_some hstep
    rw [Base.delTimer] at hnext
    rw [actionsOf]
    by_cases hpending : system.base.timerPending timer = true
    · rw [if_pos hpending] at hnext ⊢
      rw [hnext]
      refine ⟨_, .single .cancel, ?_⟩
      refine ⟨hsim.tracks.detachTimer hpending not_mem_nil, hsim.now, hsim.behind, ?_⟩
      intro hphase
      exact workList_detachTimer (hsim.idle hphase) timer
    · rw [if_neg hpending] at hnext ⊢
      rw [hnext]
      exact ⟨clock, .nil, hsim⟩
  | enter =>
    rw [WaterWall.step] at hstep
    split at hstep
    · rw [← Option.some.inj hstep]
      exact ⟨clock, .nil, hsim.tracks, hsim.now, hsim.behind, by simp⟩
    · cases hstep
  | read jiffies => exact hsim.read (hsteady jiffies rfl) hstep
  | fire =>
    rw [WaterWall.step] at hstep
    rw [actionsOf]
    cases hwork : system.base.lists .workList with
    | nil => simp [hwork] at hstep
    | cons timer rest =>
      obtain ⟨hentry, deadline, harmed, hdue⟩ := hsim.head_due hwork
      have hpending : system.base.timerPending timer = true := by
        rw [Base.timerPending, hentry]
        rfl
      simp only [hwork] at hstep
      split at hstep
      · cases hstep
      · rw [← Option.some.inj hstep]
        refine ⟨_, .single (.fire harmed hdue), ?_⟩
        exact ⟨hsim.tracks.detachTimer hpending not_mem_nil, hsim.now, hsim.behind,
          by simp⟩

end Simulation

section Runs

variable {start system next last : System} {clock : Clock TimerId} {event : Event}
  {events : List Event}

theorem steady_cons (hsteady : Steady system (event :: events))
    (hstep : step system event = some next) :
    (∀ jiffies, event = .read jiffies → jiffies < system.tick + 2 ^ 63) ∧
      Steady next events := by
  unfold Steady at hsteady
  rw [hstep] at hsteady
  refine ⟨?_, hsteady.2⟩
  rintro jiffies rfl
  exact hsteady.1

theorem run_cons (hrun : run system (event :: events) = some last) :
    ∃ next, step system event = some next ∧ run next events = some last := by
  rw [run] at hrun
  grind

theorem run_append {first second : List Event} (hfirst : run system first = some next) :
    run system (first ++ second) = run next second := by
  induction first generalizing system with
  | nil =>
    rw [run, Option.some.injEq] at hfirst
    rw [hfirst, nil_append]
  | cons event first ih =>
    grind [run.eq_2]

theorem steady_append {first second : List Event} (hfirst : run system first = some next) :
    Steady system (first ++ second) ↔ Steady system first ∧ Steady next second := by
  induction first generalizing system with
  | nil =>
    rw [run, Option.some.injEq] at hfirst
    simp [hfirst, Steady]
  | cons event first ih =>
    obtain ⟨middle, hstep, hrest⟩ := run_cons hfirst
    simp only [cons_append, Steady, hstep, ih hrest, and_assoc]

theorem call_fired {base : Base} (hcall : system.call base = some next) :
    next.fired = system.fired := by
  rw [call_eq_some hcall]

theorem step_fired (hstep : step system event = some next) (timer : TimerId) :
    ticksOf timer next.fired =
      ticksOf timer system.fired ++ firings timer system.tick (actionsOf system event) := by
  cases event with
  | add other expires => simp [call_fired hstep, actionsOf, firings]
  | mod other expires =>
    rw [call_fired hstep, actionsOf]
    split <;> simp [firings]
  | del other =>
    rw [call_fired hstep, actionsOf]
    split <;> simp [firings]
  | enter =>
    rw [step] at hstep
    grind [actionsOf, firings]
  | read jiffies =>
    rw [step] at hstep
    rw [actionsOf]
    split at hstep
    · split at hstep
      · rw [if_pos ‹_›, ← Option.some.inj hstep]
        simp [firings]
      · rw [if_neg ‹_›, ← Option.some.inj hstep]
        simp [firings]
    · cases hstep
  | fire =>
    rw [step] at hstep
    rw [actionsOf]
    grind [ticksOf, firings]

theorem Simulates.run (hsim : Simulates system clock) (hsteady : Steady system events)
    (hrun : run system events = some last) :
    ∃ clock', Path clock (traceOf system events) clock' ∧ Simulates last clock' ∧
      ∀ timer, ticksOf timer last.fired =
        ticksOf timer system.fired ++ firings timer clock.now (traceOf system events) := by
  induction events generalizing system clock with
  | nil =>
    rw [WaterWall.run, Option.some.injEq] at hrun
    rw [← hrun]
    exact ⟨clock, .nil, hsim, fun timer => by simp [traceOf, firings]⟩
  | cons event events ih =>
    obtain ⟨next, hstep, hrest⟩ := run_cons hrun
    obtain ⟨hnear, hsteady'⟩ := steady_cons hsteady hstep
    obtain ⟨middle, hpath, hsim'⟩ := hsim.step hnear hstep
    obtain ⟨clock', hpath', hlast, hfired⟩ := ih hsim' hsteady' hrest
    have htrace : traceOf system (event :: events) =
        actionsOf system event ++ traceOf next events := by
      rw [traceOf, hstep]
    rw [htrace]
    refine ⟨clock', hpath.append hpath', hlast, ?_⟩
    grind [step_fired, firings_append, now]

end Runs

section Exactness

variable {system next last : System} {clock : Clock TimerId} {event : Event}
  {events : List Event}

theorem actionsOf_of_arms {timer : TimerId} {expires : UInt64}
    (harms : Arms system timer expires event) :
    actionsOf system event = [.arm timer (deadlineAt system.tick expires)] := by
  cases event with
  | add other expires' =>
    obtain ⟨rfl, rfl⟩ := harms
    rfl
  | mod other expires' =>
    obtain ⟨rfl, rfl, hchanged⟩ := harms
    exact if_neg hchanged
  | _ => exact harms.elim

theorem armed_of_arms {clock' : Clock TimerId} {timer : TimerId} {expires : UInt64}
    (harms : Arms system timer expires event)
    (hpath : Path clock (actionsOf system event) clock') :
    clock'.armed timer = some (deadlineAt system.tick expires) := by
  rw [actionsOf_of_arms harms] at hpath
  cases hpath with
  | cons hstep hrest =>
    cases hstep with
    | arm hfuture =>
      cases hrest
      exact Clock.set_armed_self clock timer _

theorem unarmed_of_del {clock' : Clock TimerId} {timer : TimerId}
    (hsim : Simulates system clock)
    (hpath : Path clock (actionsOf system (.del timer)) clock') :
    clock'.armed timer = none := by
  rw [actionsOf] at hpath
  split at hpath
  · cases hpath with
    | cons hstep hrest =>
      cases hstep with
      | cancel =>
        cases hrest
        exact Clock.set_armed_self clock timer none
  · cases hpath
    have hpending := hsim.tracks.pending timer not_mem_nil
    rw [← Option.not_isSome_iff_eq_none, ← hpending]
    exact ‹¬ system.base.timerPending timer = true›

theorem Simulates.firedOnce (hsim : Simulates next clock) {timer : TimerId} {deadline : Nat}
    (harmed : clock.armed timer = some deadline) (hsteady : Steady next events)
    (hrun : WaterWall.run next events = some last)
    (huntouched : ∀ action ∈ traceOf next events, ¬ action.Touches timer) :
    FiredOnce timer deadline next last := by
  obtain ⟨clock', hpath, hlast, hfired⟩ := hsim.run hsteady hrun
  constructor
  · rcases firings_of_armed hpath harmed huntouched with ⟨hnone, _⟩ | ⟨hone, _⟩
    · left
      rw [hfired, hnone, append_nil]
    · right
      rw [hfired, hone]
  · intro hwork
    rw [hfired, firings_of_current hpath harmed huntouched (hlast.current hwork), hlast.now]

theorem Simulates.returned (hsim : Simulates system clock) {jiffies : Nat}
    (hnear : jiffies < system.tick + 2 ^ 63)
    (hstep : WaterWall.step system (.read jiffies) = some next)
    (hphase : next.phase = .outside) :
    jiffies < next.tick ∧ next.base.lists .workList = [] := by
  obtain ⟨hactive, hwork, hmonotone⟩ := read_enabled hstep
  rw [hsim.step_read hactive hwork hmonotone hnear] at hstep
  by_cases hlate : system.tick ≤ jiffies
  · rw [if_pos hlate, Option.some.injEq] at hstep
    rw [← hstep] at hphase
    cases hphase
  · rw [if_neg hlate, Option.some.injEq] at hstep
    rw [← hstep]
    exact ⟨Nat.not_le.mp hlate, hwork⟩

end Exactness

/-- While no reading of `jiffies` is 2^63 or more ahead of `timer_jiffies`, the
wheel is exact. -/
theorem run_exact (expires : TimerId → UInt64) (jiffies : Nat) (events : List Event)
    (hsteady : Steady (initTimersCpu expires jiffies) events) :
    Exact (initTimersCpu expires jiffies) events := by
  rintro pre event post before next last rfl hpre hstep hpost
  rw [steady_append hpre] at hsteady
  obtain ⟨hfirst, hrest⟩ := hsteady
  obtain ⟨hnear, hlater⟩ := steady_cons hrest hstep
  obtain ⟨clock, _, hsim, _⟩ := (simulates_init expires jiffies).run hfirst hpre
  obtain ⟨clock', hpath, hsim'⟩ := hsim.step hnear hstep
  refine ⟨hsim'.tracks.jiffies, ?_, ?_, ?_⟩
  · intro timer expires' harms huntouched
    exact hsim'.firedOnce (armed_of_arms harms hpath) hlater hpost huntouched
  · rintro timer rfl hunarmed
    obtain ⟨clock'', hpath', _, hfired⟩ := hsim'.run hlater hpost
    have hsilent := firings_of_unarmed hpath' (unarmed_of_del hsim hpath) hunarmed
    rw [hfired, hsilent.1, append_nil]
  · rintro jiffies' rfl hphase
    exact hsim.returned (hnear jiffies' rfl) hstep hphase

theorem run_fires {system : System} {clock : Clock TimerId} (hsim : Simulates system clock)
    (hphase : system.phase ≠ .outside) :
    ∃ events last clock', run system events = some last ∧ Simulates last clock' ∧
      (∀ event ∈ events, event = .fire) ∧ last.phase ≠ .outside ∧
      last.base.lists .workList = [] ∧ last.tick = system.tick ∧
      last.clock = system.clock := by
  generalize hwork : system.base.lists .workList = work
  induction work generalizing system clock with
  | nil => exact ⟨[], system, clock, rfl, hsim, by simp, hphase, hwork, rfl, rfl⟩
  | cons timer rest ih =>
    have hstep : step system .fire = some { system with
        base := system.base.detachTimer timer, phase := .inCallback
        fired := system.fired ++ [(timer, system.tick - 1)] } := by
      simp only [step, hwork, hphase, ↓reduceIte]
    obtain ⟨middle, _, hsim'⟩ := hsim.step (by simp) hstep
    obtain ⟨hentry, _⟩ := hsim.head_due hwork
    have hrest : (system.base.detachTimer timer).lists .workList = rest := by
      rw [lists_detachTimer hentry, if_pos rfl, hwork, erase_cons_head]
    obtain ⟨events, last, clock', hrun, hlast, hfires, hend⟩ := ih hsim' (by simp) hrest
    refine ⟨.fire :: events, last, clock', ?_, hlast, forall_mem_cons.mpr ⟨rfl, hfires⟩, hend⟩
    rw [run, hstep]
    exact hrun

theorem run_returns {system : System} {clock : Clock TimerId} {jiffies : Nat}
    (hsim : Simulates system clock) (hphase : system.phase ≠ .outside)
    (hmonotone : system.clock ≤ jiffies)
    (hnear : jiffies < system.tick + 2 ^ 63) :
    ∃ events last, run system events = some last ∧ last.phase = .outside ∧
      jiffies < last.tick ∧ ∀ event ∈ events, event = .fire ∨ event = .read jiffies := by
  obtain ⟨fires, settled, clock', hfires, hsim', hall, hout, hempty, htick, hclock⟩ :=
    run_fires hsim hphase
  rw [← hclock] at hmonotone
  rw [← htick] at hnear
  have hread := hsim'.step_read hout hempty hmonotone hnear
  by_cases hmore : settled.tick ≤ jiffies
  · rw [if_pos hmore] at hread
    obtain ⟨clock'', _, hsim''⟩ := hsim'.step (by rintro _ ⟨⟩; exact hnear) hread
    obtain ⟨events, last, hrun, hreturned, hlate, hevents⟩ := run_returns hsim'' (by simp)
      (Nat.le_refl _) (by omega : jiffies < settled.tick + 1 + 2 ^ 63)
    refine ⟨fires ++ .read jiffies :: events, last, ?_, hreturned, hlate, ?_⟩
    · rw [run_append hfires, run, hread]
      exact hrun
    · intro event hevent
      rw [mem_append, mem_cons] at hevent
      rcases hevent with hfire | rfl | hlater
      · exact .inl (hall event hfire)
      · exact .inr rfl
      · exact hevents event hlater
  · rw [if_neg hmore] at hread
    refine ⟨fires ++ [.read jiffies], { settled with phase := .outside, clock := jiffies },
      ?_, rfl, not_le.mp hmore, ?_⟩
    · rw [run_append hfires, run, hread]
      rfl
    · intro event hevent
      rw [mem_append, mem_singleton] at hevent
      exact hevent.imp_left (hall event)
termination_by jiffies + 1 - system.tick
decreasing_by omega

/-- `run_timers` returns from wherever it is, with all ticks up to `jiffies` behind it, when
`jiffies` stands still and the callbacks add nothing. -/
theorem runTimers_returns (expires : TimerId → UInt64) (first : Nat) (events : List Event)
    (system : System) (hsteady : Steady (initTimersCpu expires first) events)
    (hrun : run (initTimersCpu expires first) events = some system)
    (hphase : system.phase ≠ .outside) (jiffies : Nat) (hmonotone : system.clock ≤ jiffies)
    (hnear : jiffies < system.tick + 2 ^ 63) :
    ∃ more last, run system more = some last ∧ last.phase = .outside ∧
      jiffies < last.tick ∧ ∀ event ∈ more, event = .fire ∨ event = .read jiffies := by
  obtain ⟨clock, _, hsim, _⟩ := (simulates_init expires first).run hsteady hrun
  exact run_returns hsim hphase hmonotone hnear

namespace WheelWitness

def start (jiffies : Nat) : System :=
  initTimersCpu (fun _ => 0) jiffies

/-- One timer, armed for the tick in which the second level is cascaded. -/
def turn : List Event :=
  [.add 1 256, .enter, .read 256, .read 256, .fire, .read 256]

theorem run_exact_turn :
    (run (start 255) turn).map (fun last => (last.phase, last.tick, last.fired)) =
        some (.outside, 257, [(1, 256)]) ∧
      Exact (start 255) turn :=
  ⟨by decide, run_exact (fun _ => 0) 255 turn (by
    refine ⟨trivial, trivial, ?_, ?_, trivial, ?_, trivial⟩ <;> decide)⟩

theorem returns_entered : ∃ system more last, run (start 255) [.add 1 256, .enter] = some system ∧
    run system more = some last ∧ last.phase = .outside ∧ 300 < last.tick := by
  obtain ⟨more, last, hrun, hphase, htick, -⟩ := runTimers_returns (fun _ => 0) 255
    [.add 1 256, .enter] _ ⟨trivial, trivial, trivial⟩ rfl (by decide) 300 (by decide)
    (by decide)
  exact ⟨_, more, last, rfl, hrun, hphase, htick⟩

/-- `jiffies` jumps ahead by 2^63 and `run_timers` returns at once, with a timer
long overdue. -/
def jump : List Event :=
  [.add 1 5, .enter, .read (2 ^ 63)]

theorem run_jump_not_exact :
    (run (start 0) jump).map (fun last => (last.phase, last.tick, last.fired)) =
        some (.outside, 0, []) ∧
      ¬ Exact (start 0) jump := by
  refine ⟨by decide, ?_⟩
  intro hexact
  obtain ⟨_, _, _, hreturn⟩ := hexact [.add 1 5, .enter] (.read (2 ^ 63)) [] _ _ _ rfl
    rfl rfl rfl
  have hprocessed := (hreturn (2 ^ 63) rfl rfl).1
  exact absurd hprocessed (by decide)

end WheelWitness

end WaterWall
