/-
The poll table of x-poll.c.  Its first entry is the listener; a connection takes the first free
entry behind it, and `poll_curfds` is how many entries `poll` is given.
-/
import Mathlib

namespace WaterWall

namespace Http

/-- What `poll` reports of an entry; `other` is POLLHUP or POLLNVAL. -/
structure Revents where
  pollin : Bool
  pollout : Bool
  pollerr : Bool
  other : Bool
  deriving DecidableEq, Repr

def Revents.quiet : Revents := ⟨false, false, false, false⟩

structure PollFd where
  fd : Int
  pollin : Bool
  pollout : Bool
  revents : Revents
  deriving DecidableEq, Repr

/-- `poll_fds`, `poll_max_size`, which is an _s32, and `poll_curfds`. -/
structure PollTable where
  pollFds : Nat → PollFd
  pollMaxSize : Nat
  pollCurfds : Nat
  sizeFits : pollMaxSize < 2 ^ 31

namespace PollTable

def fd (table : PollTable) (index : Nat) : Int :=
  (table.pollFds index).fd

/-- `poll_init` with a size that it accepts. -/
def pollInit (svrFd : Int) (pollMax : Nat) (sizeFits : pollMax < 2 ^ 31) : PollTable where
  pollFds index :=
    { fd := if index = 0 then svrFd else -1, pollin := true, pollout := false
      revents := .quiet }
  pollMaxSize := pollMax
  pollCurfds := 1
  sizeFits := sizeFits

def setEntry (table : PollTable) (index : Nat) (entry : PollFd) : PollTable :=
  { table with pollFds := Function.update table.pollFds index entry }

def pollAddWrite (table : PollTable) (pid : Nat) : PollTable :=
  table.setEntry pid { table.pollFds pid with pollout := true }

def pollDelWrite (table : PollTable) (pid : Nat) : PollTable :=
  table.setEntry pid { table.pollFds pid with pollout := false }

/-- The search of `poll_add` with `left` entries to go. -/
def searchFrom (fds : Nat → PollFd) : Nat → Nat → Nat
  | 0, index => index
  | left + 1, index => if (fds index).fd < 0 then index else searchFrom fds left (index + 1)

/-- Where the loop of `poll_add` ends. -/
def search (table : PollTable) : Nat :=
  searchFrom table.pollFds (table.pollMaxSize - 1) 1

/-- The first free entry is taken, if there is one; `poll_curfds` is compared in any case. -/
def pollAdd (table : PollTable) (fd : Int) : Int × PollTable :=
  let index := table.search
  let taken :=
    if index < table.pollMaxSize then
      table.setEntry index
        { table.pollFds index with fd := fd, pollin := true, pollout := false }
    else table
  let ret : Int := if index < table.pollMaxSize then index else -1
  (ret, { taken with
    pollCurfds := if index = table.pollCurfds then table.pollCurfds + 1 else table.pollCurfds })

def pollDel (table : PollTable) (index : Nat) : PollTable :=
  table.setEntry index { table.pollFds index with fd := -1, pollin := true, pollout := false }

/-- An entry of a connection. -/
def Slot (table : PollTable) (index : Nat) : Prop :=
  1 ≤ index ∧ index < table.pollMaxSize

instance (table : PollTable) (index : Nat) : Decidable (table.Slot index) :=
  inferInstanceAs (Decidable (_ ∧ _))

/-- Every entry has a descriptor. -/
def Full (table : PollTable) : Prop :=
  ∀ index, table.Slot index → 0 ≤ table.fd index

instance (table : PollTable) : Decidable table.Full :=
  decidable_of_iff (∀ index < table.pollMaxSize, 1 ≤ index → 0 ≤ table.fd index)
    ⟨fun hall index hslot => hall index hslot.2 hslot.1,
      fun hfull index hlt hle => hfull index ⟨hle, hlt⟩⟩

section Search

variable {table : PollTable} {fds : Nat → PollFd}

theorem le_searchFrom (left index : Nat) : index ≤ searchFrom fds left index := by
  induction left generalizing index with
  | zero => exact Nat.le_refl index
  | succ left ih =>
    rw [searchFrom]
    grind

theorem searchFrom_le (left index : Nat) : searchFrom fds left index ≤ index + left := by
  induction left generalizing index with
  | zero => exact Nat.le_refl index
  | succ left ih =>
    have hrest := ih (index + 1)
    rw [searchFrom]
    split_ifs
    · exact Nat.le_add_right index _
    · omega

theorem fd_of_lt_searchFrom {left index other : Nat} (hle : index ≤ other)
    (hlt : other < searchFrom fds left index) : 0 ≤ (fds other).fd := by
  induction left generalizing index with
  | zero =>
    rw [searchFrom] at hlt
    omega
  | succ left ih =>
    rw [searchFrom] at hlt
    grind

theorem fd_searchFrom {left index : Nat} (hfound : searchFrom fds left index < index + left) :
    (fds (searchFrom fds left index)).fd < 0 := by
  induction left generalizing index with
  | zero =>
    rw [searchFrom] at hfound
    omega
  | succ left ih =>
    rw [searchFrom] at hfound ⊢
    split_ifs at hfound ⊢ with hfree
    · exact hfree
    · exact ih (by omega)

theorem search_cases (table : PollTable) :
    (table.Slot table.search ∧ table.fd table.search < 0) ∨
      table.pollMaxSize ≤ table.search ∧ table.Full := by
  have hlow := @le_searchFrom table.pollFds (table.pollMaxSize - 1) 1
  rcases Nat.lt_or_ge table.search table.pollMaxSize with hfound | hnone
  · left
    have hlt : searchFrom table.pollFds (table.pollMaxSize - 1) 1 <
        1 + (table.pollMaxSize - 1) := by
      rw [← search]
      omega
    exact ⟨⟨hlow, hfound⟩, fd_searchFrom hlt⟩
  · right
    refine ⟨hnone, ?_⟩
    intro index hslot
    exact fd_of_lt_searchFrom hslot.1 (Nat.lt_of_lt_of_le hslot.2 hnone)

theorem search_lt_iff (table : PollTable) : table.search < table.pollMaxSize ↔ ¬table.Full := by
  rcases table.search_cases with ⟨hslot, hfree⟩ | ⟨hbehind, hfull⟩
  · refine ⟨fun _ hfull => ?_, fun _ => hslot.2⟩
    have hfd := hfull table.search hslot
    omega
  grind

theorem search_le {index : Nat} (hslot : table.Slot index) (hfree : table.fd index < 0) :
    table.search ≤ index := by
  by_contra hlt
  have hfd : 0 ≤ table.fd index := fd_of_lt_searchFrom hslot.1 (Nat.not_le.mp hlt)
  omega

end Search

section Add

variable {table : PollTable} {fd : Int}

theorem pollAdd_of_full (hfull : table.Full) :
    table.pollAdd fd = (-1, { table with pollCurfds :=
      if table.search = table.pollCurfds then table.pollCurfds + 1 else table.pollCurfds }) := by
  have hnone : ¬table.search < table.pollMaxSize := by
    rw [search_lt_iff, not_not]
    exact hfull
  simp only [pollAdd, if_neg hnone]

theorem pollAdd_of_room (hroom : ¬table.Full) :
    table.pollAdd fd = ((table.search : Int), { table.setEntry table.search
        { table.pollFds table.search with fd := fd, pollin := true, pollout := false } with
      pollCurfds :=
        if table.search = table.pollCurfds then table.pollCurfds + 1
        else table.pollCurfds }) := by
  have hfound := (search_lt_iff table).mpr hroom
  simp only [pollAdd, if_pos hfound]

end Add

/-- The calls of the two functions. -/
inductive TableOp where
  | add (fd : Int)
  | del (index : Nat)
  deriving DecidableEq, Repr

def apply (table : PollTable) : TableOp → PollTable
  | .add fd => (table.pollAdd fd).2
  | .del index => table.pollDel index

/-- A property of the table before the operations and after each of them. -/
def Along (property : PollTable → Prop) : PollTable → List TableOp → Prop
  | table, [] => property table
  | table, op :: ops => property table ∧ Along property (table.apply op) ops

/-- The operation is not a `poll_add` to a full table. -/
def FindsRoom (table : PollTable) : TableOp → Prop
  | .add _ => ¬table.Full
  | .del _ => True

def AllFindRoom : PollTable → List TableOp → Prop
  | _, [] => True
  | table, op :: ops => table.FindsRoom op ∧ AllFindRoom (table.apply op) ops

instance (table : PollTable) : (op : TableOp) → Decidable (table.FindsRoom op)
  | .add _ => inferInstanceAs (Decidable (¬table.Full))
  | .del _ => instDecidableTrue

instance decidableAllFindRoom : (table : PollTable) → (ops : List TableOp) →
    Decidable (AllFindRoom table ops)
  | _, [] => instDecidableTrue
  | table, op :: ops =>
    have := decidableAllFindRoom (table.apply op) ops
    inferInstanceAs (Decidable (table.FindsRoom op ∧ AllFindRoom (table.apply op) ops))

/-- `poll` is given entries of the table only, and every connection among them. -/
structure InBounds (table : PollTable) : Prop where
  pos : 1 ≤ table.pollCurfds
  le_max : table.pollCurfds ≤ table.pollMaxSize
  below : ∀ index, index < table.pollMaxSize → 0 ≤ table.fd index → index < table.pollCurfds

section Bounds

variable {table : PollTable}

theorem inBounds_pollInit {svrFd : Int} {pollMax : Nat} (hsize : 1 < pollMax)
    (hfits : pollMax < 2 ^ 31) : (pollInit svrFd pollMax hfits).InBounds where
  pos := Nat.le_refl 1
  le_max := Nat.le_of_lt hsize
  below index _ hfd := by
    by_contra hlate
    simp_all [fd, pollInit]

theorem InBounds.pollDel (hbounds : table.InBounds) (index : Nat) :
    (table.pollDel index).InBounds where
  pos := hbounds.pos
  le_max := hbounds.le_max
  below other hother hfd := by
    apply hbounds.below other hother
    by_cases hsame : other = index
    · simp [fd, PollTable.pollDel, setEntry, hsame] at hfd
    · simpa [fd, PollTable.pollDel, setEntry, hsame] using hfd

theorem InBounds.pollAdd (hbounds : table.InBounds) (fd : Int) (hroom : ¬table.Full) :
    (table.pollAdd fd).2.InBounds := by
  have hfound := (search_lt_iff table).mpr hroom
  have hpos := hbounds.pos
  have hmax := hbounds.le_max
  have hfirst : table.search ≤ table.pollCurfds := by
    rcases Nat.lt_or_ge table.pollCurfds table.pollMaxSize with hlt | hge
    · apply search_le ⟨hpos, hlt⟩
      by_contra hlive
      exact Nat.lt_irrefl _ (hbounds.below _ hlt (Int.not_lt.mp hlive))
    · omega
  rw [pollAdd_of_room hroom]
  constructor
  · dsimp only
    split_ifs <;> omega
  · change (if table.search = table.pollCurfds then table.pollCurfds + 1
      else table.pollCurfds) ≤ table.pollMaxSize
    split_ifs <;> omega
  · intro other hother hfd
    change other < if table.search = table.pollCurfds then table.pollCurfds + 1
      else table.pollCurfds
    by_cases hsame : other = table.search
    · split_ifs <;> omega
    · have hold : 0 ≤ table.fd other := by
        simpa [PollTable.fd, setEntry, hsame] using hfd
      have hlt := hbounds.below other hother hold
      split_ifs <;> omega

theorem InBounds.not_pollAdd (hbounds : table.InBounds) (fd : Int) (hsize : 1 < table.pollMaxSize)
    (hfull : table.Full) : ¬(table.pollAdd fd).2.InBounds := by
  have hlast : table.pollMaxSize - 1 < table.pollCurfds :=
    hbounds.below _ (by omega) (hfull _ ⟨by omega, by omega⟩)
  have hmax := hbounds.le_max
  have hsearch : table.search = table.pollCurfds := by
    have hnone : ¬table.search < table.pollMaxSize := by
      rw [search_lt_iff, not_not]
      exact hfull
    have hle := @searchFrom_le table.pollFds (table.pollMaxSize - 1) 1
    rw [← search] at hle
    omega
  intro hafter
  have hle := hafter.le_max
  rw [pollAdd_of_full hfull, if_pos hsearch] at hle
  change table.pollCurfds + 1 ≤ table.pollMaxSize at hle
  omega

theorem InBounds.apply_iff (hbounds : table.InBounds) (hsize : 1 < table.pollMaxSize)
    (op : TableOp) : (table.apply op).InBounds ↔ table.FindsRoom op := by
  cases op with
  | add fd =>
    refine ⟨fun hafter hfull => ?_, fun hroom => hbounds.pollAdd fd hroom⟩
    exact hbounds.not_pollAdd fd hsize hfull hafter
  | del index => exact ⟨fun _ => trivial, fun _ => hbounds.pollDel index⟩

theorem pollMaxSize_apply (table : PollTable) (op : TableOp) :
    (table.apply op).pollMaxSize = table.pollMaxSize := by
  cases op with
  | add fd =>
    change (table.pollAdd fd).2.pollMaxSize = _
    rw [PollTable.pollAdd]
    dsimp only
    split_ifs <;> rfl
  | del index => rfl

theorem Along.head {property : PollTable → Prop} {ops : List TableOp}
    (halong : Along property table ops) : property table := by
  cases ops with
  | nil => exact halong
  | cons op ops => exact halong.1

theorem InBounds.along_iff (hbounds : table.InBounds) (hsize : 1 < table.pollMaxSize)
    (ops : List TableOp) : Along InBounds table ops ↔ AllFindRoom table ops := by
  induction ops generalizing table with
  | nil => exact ⟨fun _ => trivial, fun _ => hbounds⟩
  | cons op ops ih =>
    have hstep := hbounds.apply_iff hsize op
    rw [← pollMaxSize_apply table op] at hsize
    constructor
    · rintro ⟨-, hrest⟩
      have hafter := hrest.head
      exact ⟨hstep.mp hafter, (ih hafter hsize).mp hrest⟩
    · rintro ⟨hroom, hrest⟩
      have hafter := hstep.mpr hroom
      exact ⟨hbounds, (ih hafter hsize).mpr hrest⟩

end Bounds

end PollTable

open PollTable

/-- Along any calls, of `poll_del` also for entries that are free, `poll_curfds` stays inside the
table and above every connection just when no `poll_add` meets a full table. -/
theorem pollTable_inBounds_iff (svrFd : Int) (pollMax : Nat) (hsize : 1 < pollMax)
    (hfits : pollMax < 2 ^ 31) (ops : List TableOp) :
    Along InBounds (pollInit svrFd pollMax hfits) ops ↔
      AllFindRoom (pollInit svrFd pollMax hfits) ops :=
  (inBounds_pollInit hsize hfits).along_iff hsize ops

namespace PollWitness

theorem two_fits : 2 < 2 ^ 31 := by decide

theorem four_fits : 4 < 2 ^ 31 := by decide

/-- Three clients, then the second one leaves and another one comes. -/
def visits : List TableOp := [.add 5, .add 6, .add 7, .del 2, .add 6]

theorem inBounds_visits : Along InBounds (pollInit 4 4 four_fits) visits :=
  (pollTable_inBounds_iff 4 4 (by decide) four_fits visits).mpr (by decide)

/-- A table of two entries and two clients: `poll` is given three entries. -/
theorem not_inBounds_second :
    ¬Along InBounds (pollInit 4 2 two_fits) [.add 5, .add 6] := by
  rintro ⟨-, -, hlast⟩
  have hle : 3 ≤ 2 := hlast.le_max
  omega

end PollWitness

end Http

end WaterWall
