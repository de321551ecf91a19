/-
Who owns the message and the task in `al_allocate_task`.  The message comes from the splitter and
has to be freed here; the task goes to the workers or has to be freed, too.  A run that is
undefined does not return.  The loads of the caches that some commands start are left out: their
results are not looked at, and they see neither of the two blocks.
-/
import WaterWall.TaskParser

namespace WaterWall

namespace Allocator

open ByteText CJson Reading

/-- `wys_malloc` takes a second block for its own records and returns the null pointer when it
cannot have both. -/
def wysMalloc : Parser Bool := fun answers =>
  match answers with
  | false :: answers => some (some (false, answers))
  | true :: true :: answers => some (some (true, answers))
  | true :: false :: answers => some (some (false, answers))
  | [true] => some (some (true, []))
  | [] => some (some (true, []))

/-- The loop that restores the blanks, up to the NUL. -/
def restoreBlanks : Bytes → Parser Bytes
  | [] => undefined
  | c :: rest =>
    if c = 0 then pure (c :: rest)
    else do return (if c = 43 then 32 else c) :: (← restoreBlanks rest)

/-- The null pointer as a value; nothing is allocated behind it. -/
def orNull {α : Type} (program : Parser α) : Parser (Option α) := fun answers =>
  match program answers with
  | none => none
  | some none => some (some (none, answers))
  | some (some (value, answers)) => some (some (some value, answers))

/-- `an_web_cache_t_find_create_by_token`, for the sessions that are known. -/
def findCreateByToken (known : Int32 → Bool) (answers : List Bool) (token : Int32) : Bool :=
  known token ||
    match wysMalloc answers with
    | some (some (created, _)) => created
    | _ => false

/-- What happens to the blocks. -/
inductive Effect where
  | tookTask
  | addedTask (task : WkTask)
  | freedTask
  | freedData

def Effect.isTake : Effect → Bool
  | .tookTask => true
  | _ => false

def Effect.isAdd : Effect → Bool
  | .addedTask _ => true
  | _ => false

def Effect.isFreeTask : Effect → Bool
  | .freedTask => true
  | _ => false

def Effect.isFreeData : Effect → Bool
  | .freedData => true
  | _ => false

/-- `wk_add_task`, unless a `goto END` came before. -/
def addTask : Option WkTask → List Effect
  | some task => [.addedTask task]
  | none => []

/-- The object of a message. -/
def jsonRoot (jsonData : Bytes) : Parser Value := do
  cJSONParse (← restoreBlanks jsonData)

def alParseValueToWkTask (known : Int32 → Bool) (jsonData : Bytes) (index : UInt32) :
    Parser (List Effect) := do
  match ← orNull (jsonRoot jsonData) with
  | none => return []
  | some root => fun answers =>
    match parseTask root (findCreateByToken known answers) index with
    | .error _ => none
    | .ok task => some (some (addTask task, answers))

def alAllocateTask (known : Int32 → Bool) (data : Bytes) (index : UInt32) :
    Parser (List Effect) := do
  if ← wysMalloc then
    let effects ← alParseValueToWkTask known data index
    return .tookTask :: effects ++ [.freedData]
  else return []

/-- The message is freed once, and a task that was made is added once or freed once. -/
structure Owned (effects : List Effect) : Prop where
  data : effects.countP Effect.isFreeData = 1
  task : effects.countP Effect.isAdd + effects.countP Effect.isFreeTask =
    effects.countP Effect.isTake

/-- There is memory for the task, the message is JSON that there is memory for, and its session
is known or can be made. -/
def Handled (known : Int32 → Bool) (data : Bytes) (answers : List Bool) : Prop :=
  ∃ afterTask root afterRoot head, wysMalloc answers = some (some (true, afterTask)) ∧
    jsonRoot data afterTask = some (some (root, afterRoot)) ∧
    parseHead root = .ok head ∧ findCreateByToken known afterRoot head.token

section Calls

variable {known : Int32 → Bool} {data : Bytes} {index : UInt32} {answers left : List Bool}
  {effects : List Effect}

theorem orNull_eq_some_iff {α : Type} {program : Parser α} {found : Option α} :
    orNull program answers = some (some (found, left)) ↔
      (found = none ∧ program answers = some none ∧ left = answers) ∨
        ∃ value, found = some value ∧ program answers = some (some (value, left)) := by
  rw [orNull]
  grind

theorem alAllocateTask_cases
    (hreturns : alAllocateTask known data index answers = some (some (effects, left))) :
    (effects = [] ∧ ∃ rest, wysMalloc answers = some (some (false, rest))) ∨
    ∃ rest, wysMalloc answers = some (some (true, rest)) ∧
      ((effects = [.tookTask, .freedData] ∧ jsonRoot data rest = some none) ∨
        ∃ root last task, jsonRoot data rest = some (some (root, last)) ∧
          parseTask root (findCreateByToken known last) index = .ok task ∧
          effects = .tookTask :: addTask task ++ [.freedData]) := by
  obtain ⟨allocated, rest, hmalloc, hrest⟩ := bind_eq_some_iff.mp hreturns
  cases allocated with
  | false =>
    cases hrest
    exact .inl ⟨rfl, left, hmalloc⟩
  | true =>
    obtain ⟨parsed, last, hparsed, hlast⟩ := bind_eq_some_iff.mp hrest
    cases hlast
    obtain ⟨found, middle, hfound, htask⟩ := bind_eq_some_iff.mp hparsed
    refine .inr ⟨rest, hmalloc, ?_⟩
    obtain ⟨rfl, hnull, -⟩ | ⟨root, rfl, hroot⟩ := orNull_eq_some_iff.mp hfound
    · cases htask
      exact .inl ⟨rfl, hnull⟩
    grind

theorem parseTask_isSome_iff {root : Value} {cached : Int32 → Bool} {task : Option WkTask}
    (hparse : parseTask root cached index = .ok task) :
    task.isSome ↔ ∃ head, parseHead root = .ok head ∧ cached head.token := by
  rw [parseTask] at hparse
  cases hhead : parseHead root with
  | error fault =>
    rw [hhead] at hparse
    cases hparse
  | ok head =>
    rw [hhead] at hparse
    change (if cached head.token then _ else _) = _ at hparse
    by_cases hcached : cached head.token
    · rw [if_pos hcached] at hparse
      cases hdata : parseData head.cmd root with
      | error fault =>
        rw [hdata] at hparse
        cases hparse
      | ok data =>
        rw [hdata] at hparse
        cases hparse
        exact iff_of_true rfl ⟨head, rfl, hcached⟩
    · rw [if_neg hcached] at hparse
      cases hparse
      grind

theorem owned_iff_isSome (task : Option WkTask) :
    Owned (.tookTask :: addTask task ++ [.freedData]) ↔ task.isSome := by
  cases task with
  | none => exact iff_of_false (fun howned => absurd howned.task (by decide)) Bool.false_ne_true
  | some task => exact iff_of_true ⟨rfl, rfl⟩ rfl

end Calls

/-- A call that returns has settled both blocks just when the task could be made and added. -/
theorem alAllocateTask_owned_iff (known : Int32 → Bool) (data : Bytes) (index : UInt32)
    (answers left : List Bool) (effects : List Effect)
    (hreturns : alAllocateTask known data index answers = some (some (effects, left))) :
    Owned effects ↔ Handled known data answers := by
  obtain ⟨rfl, rest, hmalloc⟩ | ⟨rest, hmalloc, hrest⟩ := alAllocateTask_cases hreturns
  · refine iff_of_false (fun howned => absurd howned.data (by decide)) ?_
    rintro ⟨afterTask, _, _, _, htask, -⟩
    rw [hmalloc] at htask
    cases htask
  · obtain ⟨rfl, hnull⟩ | ⟨root, last, task, hroot, hparse, rfl⟩ := hrest
    · refine iff_of_false (fun howned => absurd howned.task (by decide)) ?_
      rintro ⟨afterTask, root, afterRoot, _, htask, hroot, -⟩
      rw [hmalloc] at htask
      cases htask
      rw [hnull] at hroot
      cases hroot
    · rw [owned_iff_isSome, parseTask_isSome_iff hparse]
      constructor
      · rintro ⟨head, hhead, hfound⟩
        exact ⟨rest, root, last, head, hmalloc, hroot, hhead, hfound⟩
      · rintro ⟨afterTask, other, afterRoot, head, htask, hother, hhead, hfound⟩
        rw [hmalloc] at htask
        grind

namespace OwnershipWitness

/-- A request for a user, with enough memory. -/
def request : Bytes :=
  ascii "\x7b\"cmd\":\"103\",\"token\":\"7\",\"uid\":\"12\"\x7d" ++ [0]

theorem returns_request : ∃ effects left,
    alAllocateTask (fun _ => true) request 0 [] = some (some (effects, left)) := by
  have hsome : (alAllocateTask (fun _ => true) request 0 []).join.isSome := by
    decide +kernel
  grind [Option.isSome_iff_exists, Option.join_eq_some_iff]

theorem handled_request : Handled (fun _ => true) request [] := by
  have hroot : ((jsonRoot request []).join.map fun found =>
      (parseHead found.1).toOption.isSome) = some true := by
    decide +kernel
  obtain ⟨⟨root, last⟩, hjoin, hhead⟩ := Option.map_eq_some_iff.mp hroot
  cases hparse : parseHead root with
  | error fault =>
    rw [hparse] at hhead
    cases hhead
  | ok head =>
    exact ⟨[], root, last, head, rfl, Option.join_eq_some_iff.mp hjoin, hparse, rfl⟩

theorem owned_request : ∃ effects left,
    alAllocateTask (fun _ => true) request 0 [] = some (some (effects, left)) ∧
      Owned effects := by
  obtain ⟨effects, left, hreturns⟩ := returns_request
  exact ⟨effects, left, hreturns, (alAllocateTask_owned_iff (fun _ => true) request 0 [] left
    effects hreturns).mpr handled_request⟩

/-- A frame that is no JSON. -/
def frame : Bytes :=
  ascii "\x7bx\x7d" ++ [0]

/-- The task for a frame is lost, and without memory for a task the message is. -/
theorem not_owned_frame_request :
    (∃ effects left, alAllocateTask (fun _ => true) frame 0 [] =
      some (some (effects, left)) ∧ ¬ Owned effects) ∧
    ∃ effects left, alAllocateTask (fun _ => true) request 0 [false] =
      some (some (effects, left)) ∧ ¬ Owned effects :=
  ⟨⟨[.tookTask, .freedData], [], rfl, fun howned => absurd howned.task (by decide)⟩,
    ⟨[], [], rfl, fun howned => absurd howned.data (by decide)⟩⟩

end OwnershipWitness

end Allocator

end WaterWall
