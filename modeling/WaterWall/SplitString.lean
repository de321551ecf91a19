/-
split_string of public.c: a string is cut in place at a separator, and an array gets the
addresses of the fields.  The bytes before `cp` and those from `cp` on are kept apart, since
the loop only moves forward.
-/
import WaterWall.ByteText

namespace WaterWall

namespace SplitString

open ByteText List

/-- The memory before and from `cp` on, the array, the number of its entries and the flag. -/
structure State where
  front : Bytes
  rest : Bytes
  array : List (Option Nat)
  i : Nat
  isGe : Bool
  deriving DecidableEq

/-- The inner loop, which stops at a separator or at the NUL. -/
def scan (ge : Byte) (front : Bytes) : Bytes → Bytes × Bytes
  | [] => (front, [])
  | c :: rest => if c ≠ 0 ∧ c ≠ ge then scan ge (front ++ [c]) rest else (front, c :: rest)

/-- `array[i++] = cp`. -/
def State.record (state : State) : State :=
  { state with array := state.array.set state.i (some state.front.length), i := state.i + 1 }

/-- The outer loop, with the entries that are left. -/
def splitLoop (ge : Byte) : Nat → State → State
  | 0, state => state
  | left + 1, state =>
    if state.rest.head? = some 0 ∨ state.rest = [] then state
    else
      let (front, rest) := scan ge state.front state.rest
      match rest with
      | sep :: behind =>
        if sep ≠ 0 then
          splitLoop ge left
            { state.record with front := front ++ [0], rest := behind, isGe := true }
        else splitLoop ge left { state.record with front := front, rest := rest, isGe := false }
      | [] => splitLoop ge left { state.record with front := front, rest := [], isGe := false }

/-- A separator at the end is followed by one more field. -/
def finish (max : Nat) (state : State) : State :=
  if state.isGe ∧ state.i < max then state.record else state

/-- The string, with the memory behind its NUL. -/
def splitString (ruleStr : CString) (behind : Bytes) (ge : Byte) (max : Nat) : State :=
  finish max (splitLoop ge max
    ⟨[], ruleStr.text ++ 0 :: behind, List.replicate max none, 0, false⟩)

namespace State

def memory (state : State) : Bytes :=
  state.front ++ state.rest

/-- The string at an address. -/
def stringAt (state : State) (address : Nat) : Bytes :=
  cstr (state.memory.drop address)

/-- The array, with the strings in place of their addresses. -/
def strings (state : State) : List (Option Bytes) :=
  state.array.map (Option.map state.stringAt)

end State

section Loop

variable {ge : Byte} {front text behind rest : Bytes} {array : List (Option Nat)} {i left : Nat}
  {isGe : Bool}

theorem scan_append (hnul : (0 : Byte) ∉ text) (hge : ge ∉ text)
    (hstop : ∀ c ∈ rest.head?, c = 0 ∨ c = ge) :
    scan ge front (text ++ rest) = (front ++ text, rest) := by
  induction text generalizing front with
  | nil =>
    rw [nil_append, append_nil]
    cases rest with
    | nil => rfl
    | cons c rest =>
      rw [scan, if_neg]
      rintro ⟨hzero, hsep⟩
      exact (hstop c rfl).elim hzero hsep
  | cons c text ih =>
    simp only [mem_cons, not_or] at hnul hge
    rw [cons_append, scan, if_pos ⟨Ne.symm hnul.1, Ne.symm hge.1⟩, ih hnul.2 hge.2,
      append_assoc, singleton_append]

/-- Fields that are found from a state on: their addresses go into the array, the memory in
front of them stays as it is, and they are the fields of the text. -/
structure Found (ge : Byte) (text : Bytes) (left : Nat) (front : Bytes)
    (array : List (Option Nat)) (i : Nat) (last : State) (addresses : List Nat) : Prop where
  array_eq : last.array = array.take i ++ addresses.map some ++ array.drop (i + addresses.length)
  count : last.i = i + addresses.length
  keeps : front <+: last.memory
  fields : addresses.map last.stringAt = (text.splitOn ge).take left
  ended : ∀ address ∈ addresses, (0 : Byte) ∈ last.memory.drop address

theorem record_array (hroom : i < array.length) (address : Nat) :
    array.set i (some address) =
      array.take i ++ [address].map some ++ array.drop (i + [address].length) := by
  rw [set_eq_take_append_cons_drop, if_pos hroom]
  simp

theorem splitLoop_end {state : State} (hend : state.rest.head? = some 0) :
    splitLoop ge left state = state := by
  cases left with
  | zero => rfl
  | succ left => rw [splitLoop, if_pos (.inl hend)]

theorem splitLoop_last (hnul : (0 : Byte) ∉ text) (hne : text ≠ []) (hge : ge ∉ text) :
    splitLoop ge (left + 1) ⟨front, text ++ 0 :: behind, array, i, isGe⟩ =
      ⟨front ++ text, 0 :: behind, array.set i (some front.length), i + 1, false⟩ := by
  have hscan : scan ge front (text ++ 0 :: behind) = (front ++ text, 0 :: behind) :=
    scan_append hnul hge (by simp)
  have hgo : ¬ ((text ++ 0 :: behind).head? = some 0 ∨ text ++ 0 :: behind = []) := by
    cases text with
    | nil => exact absurd rfl hne
    | cons c text =>
      grind
  rw [splitLoop, if_neg hgo]
  simp only [hscan, ne_eq, not_true_eq_false, if_false]
  exact splitLoop_end rfl

theorem splitLoop_cut {field : Bytes} (hnul : (0 : Byte) ∉ field ++ ge :: text) (hge : ge ∉ field) :
    splitLoop ge (left + 1) ⟨front, field ++ ge :: text ++ 0 :: behind, array, i, isGe⟩ =
      splitLoop ge left ⟨front ++ field ++ [0], text ++ 0 :: behind,
        array.set i (some front.length), i + 1, true⟩ := by
  simp only [mem_append, mem_cons, not_or] at hnul
  obtain ⟨hfield, hsep, -⟩ := hnul
  have hscan : scan ge front (field ++ ge :: text ++ 0 :: behind) =
      (front ++ field, ge :: (text ++ 0 :: behind)) := by
    rw [append_assoc]
    exact scan_append hfield hge (by simp)
  have hgo : ¬ ((field ++ ge :: text ++ 0 :: behind).head? = some 0 ∨
      field ++ ge :: text ++ 0 :: behind = []) := by
    cases field with
    | nil =>
      grind
    | cons c field =>
      grind
  rw [splitLoop, if_neg hgo]
  simp only [hscan, ne_eq, Ne.symm hsep, not_false_eq_true, if_true]
  rfl

theorem stringAt_length {state : State} {field more : Bytes} (hnul : (0 : Byte) ∉ field)
    (hmemory : state.memory = front ++ field ++ 0 :: more) : state.stringAt front.length = field := by
  rw [State.stringAt, hmemory, append_assoc, drop_left, cstr_append_nul hnul]

theorem ended_length {state : State} {field more : Bytes}
    (hmemory : state.memory = front ++ field ++ 0 :: more) :
    (0 : Byte) ∈ state.memory.drop front.length := by
  rw [hmemory, append_assoc, drop_left]
  exact mem_append_right _ mem_cons_self

/-- The loop and the last step find the fields of the text behind `cp`, of which there is one
at least when it is not empty or a separator was just passed. -/
theorem finish_splitLoop (hnul : (0 : Byte) ∉ text) (hfield : text ≠ [] ∨ isGe = true)
    (hroom : i + left ≤ array.length) :
    ∃ addresses, Found ge text left front array i
      (finish (i + left) (splitLoop ge left ⟨front, text ++ 0 :: behind, array, i, isGe⟩))
      addresses := by
  induction left generalizing text front array i isGe with
  | zero =>
    refine ⟨[], ?_⟩
    have hlast : finish (i + 0) (splitLoop ge 0 ⟨front, text ++ 0 :: behind, array, i, isGe⟩) =
        ⟨front, text ++ 0 :: behind, array, i, isGe⟩ := by
      rw [splitLoop, finish, if_neg]
      simp
    rw [hlast]
    exact ⟨by simp, by simp, prefix_append _ _, by simp, by simp⟩
  | succ left ih =>
    have hlt : i < array.length := by
      omega
    by_cases hge : ge ∈ text
    · obtain ⟨field, text', rfl, hfirst⟩ := eq_append_cons_of_mem hge
      have hfield' : (0 : Byte) ∉ field := fun hmem => hnul (mem_append_left _ hmem)
      have htext' : (0 : Byte) ∉ text' := fun hmem =>
        hnul (mem_append_right _ (mem_cons_of_mem _ hmem))
      rw [splitLoop_cut hnul hfirst]
      obtain ⟨addresses, hfound⟩ := @ih (front ++ field ++ [0]) text'
        (array.set i (some front.length)) (i + 1) true htext' (.inr rfl)
        (by rw [length_set]; omega)
      rw [Nat.add_right_comm, Nat.add_assoc] at hfound
      obtain ⟨more, hmemory⟩ := hfound.keeps
      rw [append_assoc, append_assoc, singleton_append, ← append_assoc]
        at hmemory
      refine ⟨front.length :: addresses, ?_, ?_, ?_, ?_, ?_⟩
      · have htake : (array.set i (some front.length)).take (i + 1) =
            array.take i ++ [some front.length] := by
          rw [set_eq_take_append_cons_drop, if_pos hlt, take_append]
          simp [hlt.le]
        rw [hfound.array_eq, htake, drop_set_of_lt (by omega), length_cons,
          map_cons, append_assoc (array.take i), singleton_append,
          Nat.add_assoc i 1, Nat.add_comm 1]
      · rw [hfound.count, length_cons]
        omega
      · exact ⟨field ++ 0 :: more, by rw [← hmemory, append_assoc]⟩
      · rw [map_cons, hfound.fields, stringAt_length hfield' hmemory.symm,
          splitOn_append_cons_self_of_not_mem hfirst, take_succ_cons]
      · exact forall_mem_cons.mpr ⟨ended_length hmemory.symm, hfound.ended⟩
    · by_cases hnil : text = []
      · subst hnil
        obtain rfl : isGe = true := hfield.resolve_left (fun hne => hne rfl)
        have hlast : finish (i + (left + 1))
            (splitLoop ge (left + 1) ⟨front, [] ++ 0 :: behind, array, i, true⟩) =
              ⟨front, 0 :: behind, array.set i (some front.length), i + 1, true⟩ := by
          rw [splitLoop_end rfl, finish, if_pos ⟨rfl, by change i < _; omega⟩]
          rfl
        rw [hlast]
        have hmemory : (State.mk front (0 :: behind) (array.set i (some front.length)) (i + 1)
            true).memory = front ++ [] ++ 0 :: behind := by
          rw [State.memory, append_nil]
        refine ⟨[front.length], record_array hlt _, rfl, prefix_append _ _, ?_,
          forall_mem_singleton.mpr (ended_length hmemory)⟩
        rw [map_singleton, stringAt_length not_mem_nil hmemory]
        simp
      · have hlast : finish (i + (left + 1))
            (splitLoop ge (left + 1) ⟨front, text ++ 0 :: behind, array, i, isGe⟩) =
              ⟨front ++ text, 0 :: behind, array.set i (some front.length), i + 1, false⟩ := by
          rw [splitLoop_last hnul hnil hge, finish, if_neg]
          simp
        rw [hlast]
        refine ⟨[front.length], record_array hlt _, rfl, ?_, ?_,
          forall_mem_singleton.mpr (ended_length rfl)⟩
        · exact ⟨text ++ 0 :: behind, by simp [State.memory]⟩
        · rw [map_singleton, stringAt_length hnul rfl, splitOn_eq_singleton hge]
          simp

end Loop

/-- The array gets the addresses of the first fields, each ended by a NUL, and is null behind
them; joined again, the fields are the string. -/
theorem splitString_fields (ruleStr : CString) (behind : Bytes) (ge : Byte) (max : Nat)
    (hne : ruleStr.text ≠ []) :
    (splitString ruleStr behind ge max).i = min max (ruleStr.text.splitOn ge).length ∧
      (splitString ruleStr behind ge max).strings =
        ((ruleStr.text.splitOn ge).take max).map some ++
          List.replicate (max - (ruleStr.text.splitOn ge).length) none ∧
      (∀ address, some address ∈ (splitString ruleStr behind ge max).array →
        (0 : Byte) ∈ (splitString ruleStr behind ge max).memory.drop address) ∧
      ((ruleStr.text.splitOn ge).length ≤ max →
        [ge].intercalate (splitString ruleStr behind ge max).strings.reduceOption =
          ruleStr.text) := by
  obtain ⟨addresses, hfound⟩ := @finish_splitLoop ge [] ruleStr.text behind
    (List.replicate max none) 0 max false ruleStr.noNul (.inl hne) (by simp)
  rw [Nat.zero_add] at hfound
  change Found ge ruleStr.text max [] _ 0 (splitString ruleStr behind ge max) addresses at hfound
  have hcount : addresses.length = min max (ruleStr.text.splitOn ge).length := by
    rw [← length_take, ← hfound.fields, length_map]
  have harray : (splitString ruleStr behind ge max).array = addresses.map some ++
      List.replicate (max - (ruleStr.text.splitOn ge).length) none := by
    rw [hfound.array_eq, take_zero, nil_append, drop_replicate, Nat.zero_add, hcount]
    congr 2
    omega
  have hstrings : (splitString ruleStr behind ge max).strings =
      ((ruleStr.text.splitOn ge).take max).map some ++
        List.replicate (max - (ruleStr.text.splitOn ge).length) none := by
    rw [State.strings, harray, map_append, map_map, map_replicate,
      ← hfound.fields, map_map]
    rfl
  refine ⟨?_, hstrings, ?_, ?_⟩
  · rw [hfound.count, Nat.zero_add, hcount]
  · intro address hmem
    rw [harray, mem_append] at hmem
    obtain hmem | hmem := hmem
    · obtain ⟨address', haddress, heq⟩ := mem_map.mp hmem
      cases heq
      exact hfound.ended address haddress
    · cases eq_of_mem_replicate hmem
  · intro hle
    have hjoined : (splitString ruleStr behind ge max).strings.reduceOption =
        ruleStr.text.splitOn ge := by
      rw [hstrings, take_of_length_le hle, reduceOption_append,
        reduceOption_replicate_none, append_nil, List.reduceOption, filterMap_map]
      exact filterMap_some
    rw [hjoined, intercalate_splitOn]

namespace SplitWitness

theorem rule_noNul : (0 : Byte) ∉ ascii "a::b:" := by
  decide

def rule : CString := ⟨ascii "a::b:", rule_noNul⟩

/-- Empty fields in the middle and at the end count. -/
theorem splitString_rule :
    (splitString rule [] 58 6).i = 4 ∧
      (splitString rule [] 58 6).strings =
        [some (ascii "a"), some [], some (ascii "b"), some [], none, none] := by
  have hfields := splitString_fields rule [] 58 6 (by decide)
  have hsplit : rule.text.splitOn 58 = [ascii "a", [], ascii "b", []] := by
    decide
  rw [hsplit] at hfields
  exact ⟨hfields.1, hfields.2.1⟩

end SplitWitness

end SplitString

end WaterWall
