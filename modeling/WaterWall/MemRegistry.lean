/-
The allocation registry of mem.c: `_malloc`, `_realloc` and `_free` keep a record of every
block in the chain of its address and the sum of the sizes.  What the allocator below
answers is left open; it only never returns a block that is in use.
-/
import WaterWall.ByteText
import WaterWall.HashChains

namespace WaterWall

open ByteText Function

/-- mem_info_t; `fname` is the text up to its NUL. -/
structure MemInfo where
  addr : Nat
  size : BitVec 32
  line : Nat
  fname : Bytes
  deriving DecidableEq, Repr

def MemInfo.withSize (size : BitVec 32) (info : MemInfo) : MemInfo := { info with size := size }

/-- MEM_HASH_INDEX of an address. -/
def memHashIndex (addr : Nat) : Fin 1024 := Fin.ofNat 1024 addr

/-- The place of a call, `__FUNCTION__` and `__LINE__`. -/
structure CallSite where
  fname : CString
  line : Nat

/-- The record of a block, with at most FNAME_MAX_LEN - 1 bytes of the name. -/
def CallSite.info (site : CallSite) (addr : Nat) (size : BitVec 32) : MemInfo :=
  ⟨addr, size, site.line, site.fname.text.take 31⟩

/-- The registry, and in `heap` the blocks that are in use with the sizes last asked for. -/
structure MemRegistry where
  wysMeminfoHash : HashChains.Table (Fin 1024) MemInfo
  totalMemSize : BitVec 32
  heap : Nat → Option (BitVec 32)

/-- A call returns an address, if not NULL, and has given blocks back to `free`. -/
structure MemResult where
  ret : Option Nat
  registry : MemRegistry
  freed : List Nat

namespace MemRegistry

def wysMemInit : MemRegistry where
  wysMeminfoHash := HashChains.empty
  totalMemSize := 0
  heap _ := none

def enterHash (registry : MemRegistry) (info : MemInfo) : MemRegistry :=
  { registry with
    wysMeminfoHash :=
      HashChains.insert registry.wysMeminfoHash (memHashIndex info.addr) info }

def outHash (registry : MemRegistry) (info : MemInfo) : MemRegistry :=
  { registry with
    wysMeminfoHash :=
      HashChains.removeKey memHashIndex MemInfo.addr registry.wysMeminfoHash info.addr }

def findHash (registry : MemRegistry) (addr : Nat) : Option MemInfo :=
  HashChains.lookup memHashIndex MemInfo.addr registry.wysMeminfoHash addr

/-- `info->size = size`. -/
def setSize (registry : MemRegistry) (info : MemInfo) (size : BitVec 32) : MemRegistry :=
  { registry with
    wysMeminfoHash := HashChains.modifyKey memHashIndex MemInfo.addr registry.wysMeminfoHash
      info.addr (MemInfo.withSize size) }

/-- A block with its size, or none, at an address. -/
def setBlock (registry : MemRegistry) (addr : Nat) (block : Option (BitVec 32)) : MemRegistry :=
  { registry with heap := Function.update registry.heap addr block }

/-- `block` is what the first `malloc` returns and `infoOk` tells whether the second one,
for the record, has memory. -/
def malloc (registry : MemRegistry) (size : BitVec 32) (site : CallSite) (block : Option Nat)
    (infoOk : Bool) : MemResult :=
  match block with
  | none => ⟨none, registry, []⟩
  | some addr =>
    if infoOk then
      let registry := registry.setBlock addr (some size)
      let registry := { registry with totalMemSize := registry.totalMemSize + size }
      ⟨some addr, registry.enterHash (site.info addr size), []⟩
    else ⟨none, registry, [addr]⟩

/-- A block and its record are given back. -/
def dropBlock (registry : MemRegistry) (info : MemInfo) (ptr : Nat) : MemRegistry :=
  let registry := registry.outHash info
  let registry := { registry with totalMemSize := registry.totalMemSize - info.size }
  registry.setBlock ptr none

/-- `block` is what the allocator returns, for a NULL `ptr` as in `malloc`.  A size of 0 on
an address without a record reads through NULL, which is `none`. -/
def realloc (registry : MemRegistry) (ptr : Nat) (size : BitVec 32) (site : CallSite)
    (block : Option Nat) (infoOk : Bool) : Option MemResult :=
  if ptr = 0 then some (registry.malloc size site block infoOk)
  else if size = 0 then
    match registry.findHash ptr with
    | none => none
    | some info => some ⟨none, registry.dropBlock info ptr, [ptr]⟩
  else
    match registry.findHash ptr with
    | none => some ⟨none, registry, []⟩
    | some info =>
      if info.size = size then some ⟨some info.addr, registry, []⟩
      else
        match block with
        | none =>
          match registry.findHash ptr with
          | none => none
          | some tmpInfo => some ⟨none, registry.dropBlock tmpInfo ptr, [ptr]⟩
        | some addr =>
          let registry := (registry.setBlock ptr none).setBlock addr (some size)
          let registry :=
            { registry with totalMemSize := registry.totalMemSize + (size - info.size) }
          if addr = info.addr then some ⟨some addr, registry.setSize info size, []⟩
          else
            some ⟨some addr, (registry.outHash info).enterHash (site.info addr size), []⟩

def free (registry : MemRegistry) (ptr : Nat) : MemResult :=
  if ptr = 0 then ⟨none, registry, []⟩
  else
    match registry.findHash ptr with
    | none => ⟨none, registry, []⟩
    | some info => ⟨none, registry.dropBlock info ptr, [ptr]⟩

/-- A call, with the answers of the allocator. -/
inductive Call where
  | malloc (size : BitVec 32) (site : CallSite) (block : Option Nat) (infoOk : Bool)
  | realloc (ptr : Nat) (size : BitVec 32) (site : CallSite) (block : Option Nat)
      (infoOk : Bool)
  | free (ptr : Nat)

def call (registry : MemRegistry) : Call → Option MemResult
  | .malloc size site block infoOk => some (registry.malloc size site block infoOk)
  | .realloc ptr size site block infoOk => registry.realloc ptr size site block infoOk
  | .free ptr => some (registry.free ptr)

/-- The allocator returns a block that is not in use; `realloc` may also leave it in its
place.  A size of 0 is only asked for with a registered address. -/
def Allowed (registry : MemRegistry) : Call → Prop
  | .malloc _ _ block _ => ∀ addr, block = some addr → addr ≠ 0 ∧ registry.heap addr = none
  | .realloc ptr size _ block _ =>
    (∀ addr, block = some addr → addr ≠ 0 ∧ (registry.heap addr = none ∨ addr = ptr)) ∧
      (size = 0 → ptr = 0 ∨ (registry.findHash ptr).isSome)
  | .free _ => True

/-- The registry after some calls. -/
def run : MemRegistry → List Call → Option MemRegistry
  | registry, [] => some registry
  | registry, next :: calls =>
    match registry.call next with
    | none => none
    | some result => run result.registry calls

def AllAllowed : MemRegistry → List Call → Prop
  | _, [] => True
  | registry, next :: calls =>
    registry.Allowed next ∧
      ∀ result, registry.call next = some result → AllAllowed result.registry calls

/-- Records and blocks belong together. -/
structure Sound (registry : MemRegistry) : Prop where
  keyed : HashChains.Keyed memHashIndex MemInfo.addr registry.wysMeminfoHash
  records : ∀ addr, (registry.findHash addr).map MemInfo.size = registry.heap addr
  total : registry.totalMemSize =
    HashChains.weight MemInfo.size registry.wysMeminfoHash
  notNull : registry.heap 0 = none

/-- A block with its record. -/
def addBlock (registry : MemRegistry) (info : MemInfo) : MemRegistry :=
  let registry := registry.setBlock info.addr (some info.size)
  let registry := { registry with totalMemSize := registry.totalMemSize + info.size }
  registry.enterHash info

section Blocks

variable {registry : MemRegistry} {info : MemInfo} {ptr : Nat}

theorem sound_wysMemInit : Sound wysMemInit where
  keyed := HashChains.keyed_empty
  records _ := rfl
  total := HashChains.weight_empty.symm
  notNull := rfl

theorem findHash_addr (hfind : registry.findHash ptr = some info) : info.addr = ptr :=
  (HashChains.lookup_mem hfind).2

theorem Sound.heap_of_find (hsound : Sound registry) (hfind : registry.findHash ptr = some info) :
    registry.heap ptr = some info.size := by
  rw [← hsound.records, hfind]
  rfl

theorem Sound.find_eq_none_iff (hsound : Sound registry) (addr : Nat) :
    registry.findHash addr = none ↔ registry.heap addr = none := by
  rw [← hsound.records, Option.map_eq_none_iff]

theorem findHash_addBlock (addr : Nat) :
    (registry.addBlock info).findHash addr =
      if addr = info.addr then some info else registry.findHash addr :=
  HashChains.lookup_insert info addr

theorem Sound.addBlock (hsound : Sound registry) (hnew : registry.heap info.addr = none)
    (hnull : info.addr ≠ 0) : Sound (registry.addBlock info) where
  keyed := hsound.keyed.insert info ((hsound.find_eq_none_iff info.addr).mpr hnew)
  records addr := by
    change _ = Function.update registry.heap info.addr (some info.size) addr
    rw [findHash_addBlock, update_apply]
    split_ifs
    · rfl
    · exact hsound.records addr
  total := by
    change registry.totalMemSize + info.size = _
    rw [hsound.total, ← HashChains.weight_insert]
    rfl
  notNull := by
    change Function.update registry.heap info.addr (some info.size) 0 = none
    rw [update_of_ne hnull.symm, hsound.notNull]

theorem Sound.findHash_dropBlock (hsound : Sound registry)
    (hfind : registry.findHash ptr = some info) (addr : Nat) :
    (registry.dropBlock info ptr).findHash addr =
      if addr = ptr then none else registry.findHash addr := by
  rw [← findHash_addr hfind]
  exact hsound.keyed.lookup_removeKey addr

theorem Sound.dropBlock (hsound : Sound registry) (hfind : registry.findHash ptr = some info) :
    Sound (registry.dropBlock info ptr) where
  keyed := hsound.keyed.removeKey
  records addr := by
    change _ = Function.update registry.heap ptr none addr
    rw [hsound.findHash_dropBlock hfind, update_apply]
    split_ifs
    · rfl
    · exact hsound.records addr
  total := by
    have hlookup := hfind
    rw [← findHash_addr hfind] at hlookup
    have hweight : _ = HashChains.weight MemInfo.size registry.wysMeminfoHash :=
      HashChains.weight_removeKey hlookup
    change registry.totalMemSize - info.size = _
    rw [hsound.total, ← hweight, add_sub_cancel_right]
    rfl
  notNull := by
    change Function.update registry.heap ptr none 0 = none
    rw [update_apply]
    split_ifs
    · rfl
    · exact hsound.notNull

/-- A block that keeps its place gets a new size. -/
def resizeBlock (registry : MemRegistry) (info : MemInfo) (size : BitVec 32) : MemRegistry :=
  let registry := registry.setBlock info.addr (some size)
  let registry := { registry with totalMemSize := registry.totalMemSize + (size - info.size) }
  registry.setSize info size

theorem Sound.resizeBlock (hsound : Sound registry)
    (hfind : registry.findHash info.addr = some info) (size : BitVec 32) :
    Sound (registry.resizeBlock info size) where
  keyed := hsound.keyed.modifyKey fun _ => rfl
  records addr := by
    have hkey : ∀ record, (MemInfo.withSize size record).addr = record.addr := fun _ => rfl
    have hlookup : (registry.resizeBlock info size).findHash addr =
        if addr = info.addr then (registry.findHash info.addr).map (MemInfo.withSize size)
        else registry.findHash addr :=
      HashChains.lookup_modifyKey hkey addr
    change _ = Function.update registry.heap info.addr (some size) addr
    rw [hlookup, update_apply]
    split_ifs
    · rw [hfind]
      rfl
    · exact hsound.records addr
  total := by
    have hweight : HashChains.weight MemInfo.size (registry.resizeBlock info size).wysMeminfoHash +
        info.size = _ :=
      HashChains.weight_modifyKey hfind (MemInfo.withSize size)
    change registry.totalMemSize + (size - info.size) = _
    rw [hsound.total, ← add_sub_assoc, sub_eq_iff_eq_add]
    exact hweight.symm
  notNull := by
    have hnull : (0 : Nat) ≠ info.addr := by
      intro hzero
      have hheap := hsound.heap_of_find hfind
      rw [← hzero, hsound.notNull] at hheap
      cases hheap
    change Function.update registry.heap info.addr (some size) 0 = none
    rw [update_of_ne hnull, hsound.notNull]

end Blocks

section Calls

variable {registry : MemRegistry} {size : BitVec 32} {site : CallSite} {block : Option Nat}
  {infoOk : Bool} {ptr : Nat}

theorem malloc_eq (addr : Nat) :
    registry.malloc size site (some addr) true =
      ⟨some addr, registry.addBlock (site.info addr size), []⟩ := rfl

theorem Sound.malloc (hsound : Sound registry)
    (hblock : ∀ addr, block = some addr → addr ≠ 0 ∧ registry.heap addr = none) :
    Sound (registry.malloc size site block infoOk).registry := by
  cases block with
  | none => exact hsound
  | some addr =>
    cases infoOk with
    | false => exact hsound
    | true =>
      obtain ⟨hnull, hnew⟩ := hblock addr rfl
      rw [malloc_eq]
      exact hsound.addBlock hnew hnull

theorem realloc_registered {info : MemInfo} (hnull : ptr ≠ 0) (hsize : size ≠ 0)
    (hfind : registry.findHash ptr = some info) (hother : info.size ≠ size) :
    registry.realloc ptr size site block infoOk =
      match block with
      | none => some ⟨none, registry.dropBlock info ptr, [ptr]⟩
      | some addr =>
        if addr = ptr then some ⟨some addr, registry.resizeBlock info size, []⟩
        else
          some ⟨some addr, (registry.dropBlock info ptr).addBlock (site.info addr size), []⟩ := by
  have haddr := findHash_addr hfind
  cases block with
  | none => simp only [realloc, if_neg hnull, if_neg hsize, hfind, if_neg hother]
  | some addr =>
    simp only [realloc, if_neg hnull, if_neg hsize, hfind, if_neg hother, haddr]
    split_ifs with hplace
    · subst hplace
      simp [resizeBlock, setBlock, setSize, haddr]
    · have htotal : registry.totalMemSize + (size - info.size) =
          registry.totalMemSize - info.size + size := by ring
      simp [dropBlock, addBlock, setBlock, outHash, enterHash, CallSite.info, htotal]

theorem Sound.realloc (hsound : Sound registry)
    (hallowed : registry.Allowed (.realloc ptr size site block infoOk)) :
    ∃ result, registry.realloc ptr size site block infoOk = some result ∧
      Sound result.registry := by
  obtain ⟨hblock, hzero⟩ := hallowed
  by_cases hnull : ptr = 0
  · refine ⟨_, by rw [MemRegistry.realloc, if_pos hnull], hsound.malloc ?_⟩
    grind
  · cases hfind : registry.findHash ptr with
    | none =>
      simp_all [MemRegistry.realloc]
    | some info =>
      by_cases hsize : size = 0
      · refine ⟨⟨none, registry.dropBlock info ptr, [ptr]⟩, ?_, hsound.dropBlock hfind⟩
        simp only [MemRegistry.realloc, if_neg hnull, if_pos hsize, hfind]
      · by_cases hsame : info.size = size
        · simp_all [MemRegistry.realloc]
        · rw [realloc_registered hnull hsize hfind hsame]
          cases block with
          | none => exact ⟨_, rfl, hsound.dropBlock hfind⟩
          | some addr =>
            by_cases hplace : addr = ptr
            · have hown := hfind
              rw [← findHash_addr hfind] at hown
              exact ⟨_, if_pos hplace, hsound.resizeBlock hown size⟩
            · obtain ⟨hne, hold⟩ := hblock addr rfl
              refine ⟨_, if_neg hplace, (hsound.dropBlock hfind).addBlock ?_ hne⟩
              change Function.update registry.heap ptr none addr = none
              rw [update_of_ne hplace, hold.resolve_right hplace]

theorem Sound.free (hsound : Sound registry) : Sound (registry.free ptr).registry := by
  rw [MemRegistry.free]
  split_ifs
  · exact hsound
  · split
    · exact hsound
    · rename_i info hfind
      exact hsound.dropBlock hfind

theorem Sound.call {next : Call} (hsound : Sound registry) (hallowed : registry.Allowed next) :
    ∃ result, registry.call next = some result ∧ Sound result.registry := by
  cases next with
  | malloc size site block infoOk => exact ⟨_, rfl, hsound.malloc hallowed⟩
  | realloc ptr size site block infoOk => exact hsound.realloc hallowed
  | free ptr => exact ⟨_, rfl, hsound.free⟩

theorem Sound.run {calls : List Call} (hsound : Sound registry)
    (hallowed : AllAllowed registry calls) :
    ∃ final, registry.run calls = some final ∧ Sound final := by
  induction calls generalizing registry with
  | nil => exact ⟨registry, rfl, hsound⟩
  | cons next calls ih =>
    obtain ⟨result, hcall, hresult⟩ := hsound.call hallowed.1
    obtain ⟨final, hrun, hfinal⟩ := ih hresult (hallowed.2 result hcall)
    exact ⟨final, by rw [MemRegistry.run, hcall]; exact hrun, hfinal⟩

end Calls

/-- One record for each block in use, in its bucket and with its size, and the right sum. -/
structure Exact (registry : MemRegistry) : Prop where
  one_record : ∀ addr, HashChains.occurrences MemInfo.addr registry.wysMeminfoHash addr =
    if (registry.heap addr).isSome then 1 else 0
  in_bucket : ∀ bucket, ∀ info ∈ registry.wysMeminfoHash bucket,
    bucket = memHashIndex info.addr ∧ registry.heap info.addr = some info.size
  total : registry.totalMemSize = BitVec.ofNat 32
    (HashChains.weight (fun info => info.size.toNat) registry.wysMeminfoHash)

theorem Sound.exact {registry : MemRegistry} (hsound : Sound registry) : Exact registry where
  one_record addr := by
    rw [hsound.keyed.occurrences_eq, ← hsound.records, Option.isSome_map]
    rfl
  in_bucket bucket info hinfo := by
    have hplaced := hsound.keyed.placed bucket info hinfo
    refine ⟨hplaced.symm, ?_⟩
    subst hplaced
    have hfind : registry.findHash info.addr = some info :=
      hsound.keyed.lookup_eq_some_iff.mpr ⟨hinfo, rfl⟩
    exact hsound.heap_of_find hfind
  total := by
    rw [hsound.total]
    refine Eq.trans ?_ (HashChains.weight_map (Nat.castAddMonoidHom (BitVec 32)) _ _)
    simp

theorem free_unregistered {registry : MemRegistry} {ptr : Nat}
    (hfind : registry.findHash ptr = none) : registry.free ptr = ⟨none, registry, []⟩ := by
  rw [MemRegistry.free]
  split_ifs
  · rfl
  · rw [hfind]

theorem Sound.realloc_failed {registry : MemRegistry} {ptr : Nat} {info : MemInfo}
    {size : BitVec 32} (hsound : Sound registry) (hfind : registry.findHash ptr = some info)
    (hsize : size ≠ 0) (hother : info.size ≠ size) (site : CallSite) (infoOk : Bool) :
    registry.realloc ptr size site none infoOk =
      some ⟨none, registry.dropBlock info ptr, [ptr]⟩ := by
  have hnull : ptr ≠ 0 := by
    intro hnull
    have hheap := hsound.heap_of_find hfind
    rw [hnull, hsound.notNull] at hheap
    cases hheap
  rw [realloc_registered hnull hsize hfind hother]

end MemRegistry

open MemRegistry

/-- After any calls there is one record for each block in use and no other, in the bucket of
its address, and the sum of the sizes is right.  A `_realloc` that has no memory gives the old
block back, once, with its record, and `_free` of another address does nothing. -/
theorem memRegistry_exact (calls : List Call) (hallowed : AllAllowed wysMemInit calls) :
    ∃ registry, wysMemInit.run calls = some registry ∧ registry.Exact ∧
      (∀ ptr info size site infoOk, registry.findHash ptr = some info → size ≠ 0 →
        info.size ≠ size → ∃ after,
          registry.realloc ptr size site none infoOk = some ⟨none, after, [ptr]⟩ ∧
          after.Exact ∧ after.findHash ptr = none ∧
          after.heap = Function.update registry.heap ptr none) ∧
      ∀ ptr, registry.findHash ptr = none → registry.free ptr = ⟨none, registry, []⟩ := by
  obtain ⟨registry, hrun, hsound⟩ := sound_wysMemInit.run hallowed
  refine ⟨registry, hrun, hsound.exact, ?_, fun ptr => free_unregistered⟩
  intro ptr info size site infoOk hfind hsize hother
  refine ⟨registry.dropBlock info ptr,
    hsound.realloc_failed hfind hsize hother site infoOk, (hsound.dropBlock hfind).exact, ?_, rfl⟩
  rw [hsound.findHash_dropBlock hfind, if_pos rfl]

namespace MemRegistryWitness

theorem site_noNul : (0 : Byte) ∉ ([102] : Bytes) := by decide

def site : CallSite := ⟨⟨[102], site_noNul⟩, 7⟩

/-- A block at 8 grows to 1032 in the same chain, a second one reuses the address 8, and the
growth of the first fails. -/
def calls : List Call :=
  [.malloc 16 site (some 8) true, .realloc 8 32 site (some 1032) true,
    .malloc 4 site (some 8) true, .realloc 1032 64 site none true, .free 24]

theorem allAllowed_calls : AllAllowed wysMemInit calls := by
  refine ⟨?_, ?_⟩
  · rintro addr ⟨⟩
    exact ⟨by decide, rfl⟩
  rintro result ⟨⟩
  refine ⟨⟨?_, ?_⟩, ?_⟩
  · rintro addr ⟨⟩
    exact ⟨by decide, .inl rfl⟩
  · intro hsize
    cases hsize
  rintro result ⟨⟩
  refine ⟨?_, ?_⟩
  · rintro addr ⟨⟩
    exact ⟨by decide, rfl⟩
  rintro result ⟨⟩
  refine ⟨⟨?_, ?_⟩, ?_⟩
  · rintro addr ⟨⟩
  · intro hsize
    cases hsize
  rintro result ⟨⟩
  refine ⟨trivial, ?_⟩
  rintro result ⟨⟩
  trivial

theorem exact_afterFailedGrowth : AllAllowed wysMemInit calls ∧
    ∃ registry, wysMemInit.run calls = some registry ∧ registry.Exact ∧
      registry.totalMemSize = 4 ∧ registry.heap 8 = some 4 ∧ registry.heap 1032 = none := by
  refine ⟨allAllowed_calls, ?_⟩
  obtain ⟨registry, hrun, hexact, -⟩ := memRegistry_exact calls allAllowed_calls
  refine ⟨registry, hrun, hexact, ?_⟩
  cases hrun
  exact ⟨rfl, rfl, rfl⟩

end MemRegistryWitness

end WaterWall
