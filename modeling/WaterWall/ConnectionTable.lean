/-
The connection table of main.c: `an_conn_array` is what `poll` is given, its first entry is
the listener and `an_curfds` bounds the entries in use.  Every other entry that holds a
descriptor has a socket record, which is found by the index of the entry in `an_sock_hash`.
-/
import WaterWall.HashChains
import WaterWall.ResponseDelivery

namespace WaterWall

universe u

def anPollMax : Nat := 1024

/-- An entry of an_conn_array; `pollin` and `pollout` are the events asked for. -/
structure PollFd where
  fd : Int
  pollin : Bool
  pollout : Bool
  revents : Revents

/-- A socket record with the index of its entry. -/
structure SockEntry (R : Type u) where
  index : Nat
  sock : AnSocket R

structure ConnTable (R : Type u) where
  anConnArray : Nat → PollFd
  anCurfds : Nat
  anSockHash : HashChains.Table (Fin 256) (SockEntry R)

/-- The sum of the four bytes of the index, under HASH_MASK. -/
def anSocketTGetHash (index : Nat) : Fin 256 :=
  HashChains.byteBucket (index % 256 + index / 256 % 256 + index / 65536 % 256 + index / 16777216 % 256)

namespace ConnTable

variable {R : Type u}

def fd (table : ConnTable R) (index : Nat) : Int := (table.anConnArray index).fd

def anPollInit (anTcpFd : Int) : ConnTable R where
  anConnArray index :=
    { fd := if index = 0 then anTcpFd else -1, pollin := true, pollout := false,
      revents := ⟨false, false, false⟩ }
  anCurfds := 1
  anSockHash := HashChains.empty

/-- The first record of an index in its chain. -/
def record (table : ConnTable R) (index : Nat) : Option (SockEntry R) :=
  HashChains.lookup anSocketTGetHash SockEntry.index table.anSockHash index

def anSocketTFindByIndex (table : ConnTable R) (index : Nat) : Option (SockEntry R) :=
  if anPollMax ≤ index then none else table.record index

def anSocketTDel (table : ConnTable R) (index : Nat) : ConnTable R :=
  match table.anSocketTFindByIndex index with
  | none => table
  | some _ =>
    { table with
      anSockHash :=
        HashChains.removeKey anSocketTGetHash SockEntry.index table.anSockHash index }

/-- The first free entry after the listener's. -/
def firstFree (table : ConnTable R) : Option Nat :=
  (List.range' 1 (anPollMax - 1)).find? fun index => table.fd index < 0

/-- The record of an entry that was just taken. -/
def newSocket (rcv : R) : AnSocket R := { sendBuf := none, sendLen := 0, rcv := rcv }

/-- A descriptor is put into an entry. -/
def occupy (table : ConnTable R) (index : Nat) (fd : Int) : ConnTable R :=
  { table with
    anConnArray := Function.update table.anConnArray index
      { table.anConnArray index with fd := fd, revents := ⟨false, false, true⟩ }
    anCurfds := if index = table.anCurfds then table.anCurfds + 1 else table.anCurfds }

/-- The record of an entry goes to the front of its chain. -/
def enter (table : ConnTable R) (index : Nat) (sock : AnSocket R) : ConnTable R :=
  { table with
    anSockHash :=
      HashChains.insert table.anSockHash (anSocketTGetHash index) ⟨index, sock⟩ }

/-- `created` is the receiving half of the zeroed record that `an_socket_t_create` returns,
or `none` if it has no memory. -/
def anSockPollAdd (table : ConnTable R) (fd : Int) (created : Option R) :
    Int × ConnTable R :=
  match table.firstFree with
  | none => (-1, table)
  | some index =>
    let table := table.occupy index fd
    match created with
    | none => (-1, table)
    | some rcv => (0, table.enter index (newSocket rcv))

/-- An entry is cleared. -/
def vacate (table : ConnTable R) (index : Nat) : ConnTable R :=
  { table with
    anConnArray := Function.update table.anConnArray index
      { table.anConnArray index with fd := -1, pollin := true, pollout := false }
    anCurfds := if index + 1 = table.anCurfds then table.anCurfds - 1 else table.anCurfds }

/-- The first entry with a descriptor. -/
def entryOf (table : ConnTable R) (fd : Int) : Option Nat :=
  (List.range anPollMax).find? fun index => table.fd index = fd

def anSockPollDel (table : ConnTable R) (fd : Int) : Int × ConnTable R :=
  match table.entryOf fd with
  | none => (-1, table)
  | some index => (0, table.vacate index)

/-- The descriptor is closed; record and entry go. -/
def anSockDestory (table : ConnTable R) (index : Nat) : ConnTable R :=
  let table := table.anSocketTDel index
  (table.anSockPollDel (table.fd index)).2

/-- An entry of a connection. -/
def Slot (index : Nat) : Prop := 1 ≤ index ∧ index < anPollMax

instance (index : Nat) : Decidable (Slot index) :=
  inferInstanceAs (Decidable (1 ≤ index ∧ index < anPollMax))

/-- An entry of a connection that holds a descriptor. -/
def Live (table : ConnTable R) (index : Nat) : Prop := Slot index ∧ 0 ≤ table.fd index

instance (table : ConnTable R) (index : Nat) : Decidable (table.Live index) :=
  inferInstanceAs (Decidable (Slot index ∧ 0 ≤ table.fd index))

/-- What holds of the table even if a record could not be allocated. -/
structure Sound (listener : Int) (table : ConnTable R) : Prop where
  listens : table.fd 0 = listener
  pos : 1 ≤ table.anCurfds
  bounded : table.anCurfds ≤ anPollMax
  vacant : ∀ index, Slot index → table.fd index < 0 → table.fd index = -1
  beyond : ∀ index, table.anCurfds ≤ index → index < anPollMax → table.fd index < 0
  distinct : ∀ index other, table.Live index → other < anPollMax →
    table.fd other = table.fd index → other = index
  keyed : HashChains.Keyed anSocketTGetHash SockEntry.index table.anSockHash
  owned : ∀ index, (table.record index).isSome → table.Live index

/-- Every connection has its record. -/
def Served (table : ConnTable R) : Prop :=
  ∀ index, table.Live index → (table.record index).isSome

section Entries

variable {table : ConnTable R} {index : Nat} {fd : Int}

@[simp]
theorem fd_occupy (other : Nat) :
    (table.occupy index fd).fd other = if other = index then fd else table.fd other := by
  simp only [ConnTable.fd, occupy, Function.update_apply]
  split_ifs <;> rfl

@[simp]
theorem fd_vacate (other : Nat) :
    (table.vacate index).fd other = if other = index then -1 else table.fd other := by
  simp only [ConnTable.fd, vacate, Function.update_apply]
  split_ifs <;> rfl

theorem firstFree_eq_none_iff :
    table.firstFree = none ↔ ∀ index, Slot index → 0 ≤ table.fd index := by
  simp [firstFree, List.find?_eq_none, List.mem_range'_1, Slot, anPollMax]

theorem firstFree_spec (hfree : table.firstFree = some index) :
    Slot index ∧ table.fd index < 0 ∧
      ∀ other, 1 ≤ other → other < index → 0 ≤ table.fd other := by
  rw [firstFree, List.find?_range'_eq_some] at hfree
  obtain ⟨hneg, hmem, hbefore⟩ := hfree
  rw [List.mem_range'_1] at hmem
  refine ⟨⟨hmem.1, by rw [anPollMax] at *; omega⟩, by simpa using hneg, ?_⟩
  intro other hpos hlt
  simpa using hbefore other hpos hlt

end Entries

section Invariant

variable {listener : Int} {table : ConnTable R} {index : Nat}

theorem sound_anPollInit : Sound listener (anPollInit listener : ConnTable R) where
  listens := rfl
  pos := le_refl 1
  bounded := by simp [anPollInit, anPollMax]
  vacant index hslot _ := if_neg (by rcases hslot with ⟨hpos, _⟩; omega)
  beyond index hcur _ := by
    grind [fd, anPollInit]
  distinct index other hlive _ _ := by
    obtain ⟨⟨hpos, _⟩, hfd⟩ := hlive
    have hindex : index ≠ 0 := by omega
    simp [ConnTable.fd, anPollInit, hindex] at hfd
  keyed := HashChains.keyed_empty
  owned index hsome := by simp [record, anPollInit] at hsome

theorem served_anPollInit : Served (anPollInit listener : ConnTable R) := by
  rintro index ⟨⟨hpos, _⟩, hfd⟩
  have hindex : index ≠ 0 := by omega
  simp [ConnTable.fd, anPollInit, hindex] at hfd

theorem Sound.firstFree_le (hsound : Sound listener table)
    (hfree : table.firstFree = some index) : index ≤ table.anCurfds := by
  obtain ⟨⟨_, hmax⟩, _, hbefore⟩ := firstFree_spec hfree
  by_contra hlt
  have hlive := hbefore table.anCurfds hsound.pos (by omega)
  have hneg := hsound.beyond table.anCurfds le_rfl (by omega)
  omega

theorem Sound.occupy (hsound : Sound listener table) (hfree : table.firstFree = some index)
    {fd : Int} (hfd : 0 ≤ fd) (hnew : ∀ other < anPollMax, table.fd other ≠ fd) :
    Sound listener (table.occupy index fd) := by
  have hle := hsound.firstFree_le hfree
  obtain ⟨hslot, hneg, -⟩ := firstFree_spec hfree
  have hcurfds : (table.occupy index fd).anCurfds =
      if index = table.anCurfds then table.anCurfds + 1 else table.anCurfds := rfl
  constructor
  case listens =>
    have hindex : 0 ≠ index := by
      have := hslot.1
      omega
    rw [fd_occupy, if_neg hindex, hsound.listens]
  case pos =>
    have hpos := hsound.pos
    rw [hcurfds]
    split_ifs <;> omega
  case bounded =>
    have hmax := hslot.2
    have hbounded := hsound.bounded
    rw [hcurfds]
    split_ifs <;> omega
  case vacant =>
    intro other hother
    rw [fd_occupy]
    split_ifs
    · omega
    · exact hsound.vacant other hother
  case beyond =>
    intro other hcur hother
    have hne : other ≠ index := by
      rw [hcurfds] at hcur
      split_ifs at hcur <;> omega
    rw [fd_occupy, if_neg hne]
    apply hsound.beyond other _ hother
    rw [hcurfds] at hcur
    split_ifs at hcur <;> omega
  case distinct =>
    rintro first second ⟨hfirst, hlive⟩ hsecond hsame
    rw [fd_occupy, fd_occupy] at hsame
    rw [fd_occupy] at hlive
    split_ifs at hlive hsame with h1 h2 h3
    · rw [h1, h2]
    · exact absurd hsame (hnew second hsecond)
    · exact absurd hsame.symm (hnew first hfirst.2)
    · exact hsound.distinct first second ⟨hfirst, hlive⟩ hsecond hsame
  case keyed => exact hsound.keyed
  case owned =>
    intro other hsome
    obtain ⟨hother, hlive⟩ := hsound.owned other hsome
    refine ⟨hother, ?_⟩
    rw [fd_occupy]
    split_ifs
    · exact hfd
    · exact hlive

theorem find_eq_record (hindex : index < anPollMax) :
    table.anSocketTFindByIndex index = table.record index :=
  if_neg (not_le.mpr hindex)

theorem record_enter (sock : AnSocket R) (other : Nat) :
    (table.enter index sock).record other =
      if other = index then some ⟨index, sock⟩ else table.record other :=
  HashChains.lookup_insert (⟨index, sock⟩ : SockEntry R) other

theorem Sound.enter (hsound : Sound listener table) (hlive : table.Live index)
    (hnone : table.record index = none) (sock : AnSocket R) :
    Sound listener (table.enter index sock) where
  listens := hsound.listens
  pos := hsound.pos
  bounded := hsound.bounded
  vacant := hsound.vacant
  beyond := hsound.beyond
  distinct := hsound.distinct
  keyed := hsound.keyed.insert ⟨index, sock⟩ hnone
  owned other hsome := by
    rw [record_enter] at hsome
    split_ifs at hsome with hother
    · rwa [hother]
    · exact hsound.owned other hsome

theorem anSocketTDel_eq (hindex : index < anPollMax) :
    table.anSocketTDel index = { table with
      anSockHash :=
        HashChains.removeKey anSocketTGetHash SockEntry.index table.anSockHash index } := by
  rw [anSocketTDel]
  split
  · rename_i hnone
    rw [find_eq_record hindex, record] at hnone
    rw [HashChains.removeKey_of_none hnone]
  · rfl

theorem entryOf_eq (hindex : index < anPollMax)
    (hfirst : ∀ other < index, table.fd other ≠ table.fd index) :
    table.entryOf (table.fd index) = some index := by
  rw [entryOf, List.find?_range_eq_some]
  grind

theorem anSockPollDel_eq {fd : Int} (hentry : table.entryOf fd = some index) :
    table.anSockPollDel fd = (0, table.vacate index) := by
  unfold anSockPollDel
  rw [hentry]

theorem Sound.anSockDestory_eq (hsound : Sound listener table) (hlive : table.Live index) :
    table.anSockDestory index = { table.vacate index with
      anSockHash :=
        HashChains.removeKey anSocketTGetHash SockEntry.index table.anSockHash index } := by
  rw [anSockDestory, anSocketTDel_eq hlive.1.2]
  simp only
  rw [anSockPollDel_eq (entryOf_eq hlive.1.2 _)]
  · rfl
  · intro other hother hsame
    have := hsound.distinct index other hlive (hother.trans hlive.1.2) hsame
    omega

theorem Sound.fd_anSockDestory (hsound : Sound listener table) (hlive : table.Live index)
    (other : Nat) :
    (table.anSockDestory index).fd other = if other = index then -1 else table.fd other := by
  rw [hsound.anSockDestory_eq hlive]
  exact fd_vacate other

theorem Sound.record_anSockDestory (hsound : Sound listener table) (hlive : table.Live index)
    (other : Nat) :
    (table.anSockDestory index).record other =
      if other = index then none else table.record other := by
  rw [hsound.anSockDestory_eq hlive]
  exact hsound.keyed.lookup_removeKey other

theorem Sound.live_anSockDestory (hsound : Sound listener table) (hlive : table.Live index)
    (other : Nat) :
    (table.anSockDestory index).Live other ↔ table.Live other ∧ other ≠ index := by
  rw [Live, Live, hsound.fd_anSockDestory hlive]
  split_ifs with hother
  · simp [hother]
  · simp [hother]

theorem Sound.anSockDestory (hsound : Sound listener table) (hlive : table.Live index) :
    Sound listener (table.anSockDestory index) := by
  have hfd := hsound.fd_anSockDestory hlive
  have hcurfds : (table.anSockDestory index).anCurfds =
      if index + 1 = table.anCurfds then table.anCurfds - 1 else table.anCurfds := by
    rw [hsound.anSockDestory_eq hlive]
    rfl
  have hslot := hlive.1
  have hin : index < table.anCurfds := by
    by_contra hle
    have := hsound.beyond index (by omega) hslot.2
    have := hlive.2
    omega
  constructor
  case listens =>
    have hindex : 0 ≠ index := by
      have := hslot.1
      omega
    rw [hfd, if_neg hindex, hsound.listens]
  case pos =>
    have hpos := hslot.1
    rw [hcurfds]
    split_ifs <;> omega
  case bounded =>
    have hbounded := hsound.bounded
    rw [hcurfds]
    split_ifs <;> omega
  case vacant =>
    intro other hother
    rw [hfd]
    split_ifs
    · exact fun _ => rfl
    · exact hsound.vacant other hother
  case beyond =>
    intro other hcur hother
    rw [hfd]
    split_ifs with hsame
    · decide
    · apply hsound.beyond other _ hother
      rw [hcurfds] at hcur
      split_ifs at hcur <;> omega
  case distinct =>
    intro first second hfirst hsecond hsame
    rw [hsound.live_anSockDestory hlive] at hfirst
    rw [hfd, hfd, if_neg hfirst.2] at hsame
    split_ifs at hsame with hindex
    · have := hfirst.1.2
      omega
    · exact hsound.distinct first second hfirst.1 hsecond hsame
  case keyed =>
    rw [hsound.anSockDestory_eq hlive]
    exact hsound.keyed.removeKey
  case owned =>
    intro other hsome
    rw [hsound.record_anSockDestory hlive] at hsome
    rw [hsound.live_anSockDestory hlive]
    split_ifs at hsome with hother
    · cases hsome
    · exact ⟨hsound.owned other hsome, hother⟩

theorem Served.anSockDestory (hserved : Served table) (hsound : Sound listener table)
    (hlive : table.Live index) : Served (table.anSockDestory index) := by
  intro other hother
  rw [hsound.live_anSockDestory hlive] at hother
  rw [hsound.record_anSockDestory hlive, if_neg hother.2]
  exact hserved other hother.1

end Invariant

section Accepting

variable {listener : Int} {table : ConnTable R} {fd : Int} {created : Option R}

/-- A descriptor that no entry of the table holds. -/
structure Fresh (table : ConnTable R) (fd : Int) : Prop where
  valid : 0 ≤ fd
  unused : ∀ other < anPollMax, table.fd other ≠ fd

instance (table : ConnTable R) (fd : Int) : Decidable (table.Fresh fd) :=
  decidable_of_iff (0 ≤ fd ∧ ∀ other < anPollMax, table.fd other ≠ fd)
    ⟨fun h => ⟨h.1, h.2⟩, fun h => ⟨h.valid, h.unused⟩⟩

theorem anSockPollAdd_cases (table : ConnTable R) (fd : Int) (created : Option R) :
    (table.firstFree = none ∧ table.anSockPollAdd fd created = (-1, table)) ∨
      ∃ index, table.firstFree = some index ∧
        ((created = none ∧
            table.anSockPollAdd fd created = (-1, table.occupy index fd)) ∨
          ∃ rcv, created = some rcv ∧ table.anSockPollAdd fd created =
            (0, (table.occupy index fd).enter index (newSocket rcv))) := by
  grind [anSockPollAdd.eq_1]

theorem Sound.record_of_free (hsound : Sound listener table) {index : Nat}
    (hneg : table.fd index < 0) : table.record index = none := by
  cases hrecord : table.record index with
  | none => rfl
  | some entry =>
    have hlive := (hsound.owned index (by rw [hrecord]; rfl)).2
    omega

theorem live_occupy {index : Nat} (hslot : Slot index) (hfd : 0 ≤ fd) (other : Nat) :
    (table.occupy index fd).Live other ↔ other = index ∨ table.Live other := by
  rw [Live, Live, fd_occupy]
  split_ifs with hother
  · simp [hother, hslot, hfd]
  · simp [hother]

theorem Sound.anSockPollAdd (hsound : Sound listener table) (hfresh : table.Fresh fd) :
    Sound listener (table.anSockPollAdd fd created).2 := by
  rcases anSockPollAdd_cases table fd created with
    ⟨_, hadd⟩ | ⟨index, hfree, ⟨_, hadd⟩ | ⟨rcv, _, hadd⟩⟩
  · rwa [hadd]
  · rw [hadd]
    exact hsound.occupy hfree hfresh.valid hfresh.unused
  · rw [hadd]
    obtain ⟨hslot, hneg, -⟩ := firstFree_spec hfree
    apply (hsound.occupy hfree hfresh.valid hfresh.unused).enter
    · exact (live_occupy hslot hfresh.valid index).mpr (.inl rfl)
    · exact hsound.record_of_free hneg

theorem Served.anSockPollAdd (hserved : Served table) (hfresh : table.Fresh fd) (rcv : R) :
    Served (table.anSockPollAdd fd (some rcv)).2 := by
  rcases anSockPollAdd_cases table fd (some rcv) with
    ⟨_, hadd⟩ | ⟨index, hfree, ⟨hnone, _⟩ | ⟨rcv, _, hadd⟩⟩
  · rwa [hadd]
  · cases hnone
  · rw [hadd]
    obtain ⟨hslot, _, -⟩ := firstFree_spec hfree
    intro other hother
    rw [record_enter]
    split_ifs with hsame
    · rfl
    · rcases (live_occupy hslot hfresh.valid other).mp hother with hindex | hlive
      · exact absurd hindex hsame
      · exact hserved other hlive

end Accepting

/-- A connection is accepted, with memory for its record, or destroyed. -/
inductive Op (R : Type u) where
  | accept (fd : Int) (rcv : R)
  | destroy (index : Nat)

def Allowed (table : ConnTable R) : Op R → Prop
  | .accept fd _ => table.Fresh fd
  | .destroy index => table.Live index

def apply (table : ConnTable R) : Op R → ConnTable R
  | .accept fd rcv => (table.anSockPollAdd fd (some rcv)).2
  | .destroy index => table.anSockDestory index

def applyAll (table : ConnTable R) (ops : List (Op R)) : ConnTable R :=
  ops.foldl apply table

/-- Each operation is allowed when its turn comes. -/
def AllAllowed : ConnTable R → List (Op R) → Prop
  | _, [] => True
  | table, op :: ops => table.Allowed op ∧ AllAllowed (table.apply op) ops

instance (table : ConnTable R) (op : Op R) : Decidable (table.Allowed op) :=
  match op with
  | .accept fd _ => inferInstanceAs (Decidable (table.Fresh fd))
  | .destroy index => inferInstanceAs (Decidable (table.Live index))

instance decidableAllAllowed : ∀ (table : ConnTable R) (ops : List (Op R)),
    Decidable (AllAllowed table ops)
  | _, [] => .isTrue trivial
  | table, op :: ops =>
    have := decidableAllAllowed (table.apply op) ops
    inferInstanceAs (Decidable (table.Allowed op ∧ AllAllowed (table.apply op) ops))

/-- How many socket records have an index. -/
def recordCount (table : ConnTable R) (index : Nat) : Nat :=
  HashChains.occurrences SockEntry.index table.anSockHash index

/-- The entries and the records belong together, and `poll` is given every entry in use. -/
structure Consistent (listener : Int) (table : ConnTable R) : Prop where
  listens : table.fd 0 = listener
  pos : 1 ≤ table.anCurfds
  bounded : table.anCurfds ≤ anPollMax
  beyond : ∀ index, table.anCurfds ≤ index → index < anPollMax → table.fd index < 0
  holds_iff : ∀ index, Slot index → (0 ≤ table.fd index ↔ table.recordCount index = 1 ∧
    ∃ entry, table.anSocketTFindByIndex index = some entry ∧ entry.index = index)
  no_other : ∀ index, ¬table.Live index → table.recordCount index = 0
  full : (∀ index, Slot index → 0 ≤ table.fd index) →
    ∀ fd created, table.anSockPollAdd fd created = (-1, table)

section Runs

variable {listener : Int} {table : ConnTable R} {ops : List (Op R)}

theorem Sound.recordCount_eq (hsound : Sound listener table) (index : Nat) :
    table.recordCount index = if (table.record index).isSome then 1 else 0 :=
  hsound.keyed.occurrences_eq index

theorem Sound.consistent (hsound : Sound listener table) (hserved : Served table) :
    Consistent listener table where
  listens := hsound.listens
  pos := hsound.pos
  bounded := hsound.bounded
  beyond := hsound.beyond
  holds_iff index hslot := by
    rw [hsound.recordCount_eq, find_eq_record hslot.2]
    constructor
    · intro hfd
      have hsome := hserved index ⟨hslot, hfd⟩
      obtain ⟨entry, hentry⟩ := Option.isSome_iff_exists.mp hsome
      exact ⟨if_pos hsome, entry, hentry, (HashChains.lookup_mem hentry).2⟩
    · rintro ⟨_, entry, hentry, _⟩
      exact (hsound.owned index (by rw [hentry]; rfl)).2
  no_other index hdead := by
    rw [hsound.recordCount_eq, if_neg]
    exact fun hsome => hdead (hsound.owned index hsome)
  full hfull fd created := by
    rw [ConnTable.anSockPollAdd, firstFree_eq_none_iff.mpr hfull]

theorem Sound.apply {op : Op R} (hsound : Sound listener table) (hallowed : table.Allowed op) :
    Sound listener (table.apply op) := by
  cases op with
  | accept fd rcv => exact hsound.anSockPollAdd hallowed
  | destroy index => exact hsound.anSockDestory hallowed

theorem Served.apply {op : Op R} (hserved : Served table) (hsound : Sound listener table)
    (hallowed : table.Allowed op) : Served (table.apply op) := by
  cases op with
  | accept fd rcv => exact hserved.anSockPollAdd hallowed rcv
  | destroy index => exact hserved.anSockDestory hsound hallowed

theorem applyAll_sound (hsound : Sound listener table) (hserved : Served table)
    (hallowed : AllAllowed table ops) :
    Sound listener (applyAll table ops) ∧ Served (applyAll table ops) := by
  induction ops generalizing table with
  | nil => exact ⟨hsound, hserved⟩
  | cons op ops ih =>
    exact ih (hsound.apply hallowed.1) (hserved.apply hsound hallowed.1) hallowed.2

end Runs

end ConnTable

/-- The table stays consistent in every order of accepting and closing. -/
theorem connTable_consistent {R : Type u} (listener : Int) (ops : List (ConnTable.Op R))
    (hallowed : ConnTable.AllAllowed (.anPollInit listener) ops) :
    (ConnTable.applyAll (.anPollInit listener) ops).Consistent listener := by
  obtain ⟨hsound, hserved⟩ :=
    ConnTable.applyAll_sound ConnTable.sound_anPollInit ConnTable.served_anPollInit hallowed
  exact hsound.consistent hserved

namespace ConnTableWitness

/-- Two clients come, the first one goes and a third takes its entry. -/
def ops : List (ConnTable.Op Unit) :=
  [.accept 5 (), .accept 6 (), .destroy 1, .accept 5 ()]

theorem connTable_consistent_ops :
    ConnTable.AllAllowed (.anPollInit 3) ops ∧
      (ConnTable.applyAll (.anPollInit 3) ops).Consistent 3 := by
  have hallowed : ConnTable.AllAllowed (.anPollInit 3) ops := by decide +kernel
  exact ⟨hallowed, connTable_consistent 3 ops hallowed⟩

end ConnTableWitness

end WaterWall
