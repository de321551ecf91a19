/-
Decoding of SSDB replies in db.c: the numeral readers, the counting pass and
the in-place splitting pass that turns the body of a reply into key/value
pointers, writing a NUL behind every key and value.
-/
import WaterWall.ByteText

namespace WaterWall

open ByteText List

/-- DB_RNO of db.h. -/
inductive DbRno where
  | noret | err | outMem | invalidParms | connectErr | notFound | setOk | getOk
  | delOk | scanOk | noExist | exist | multiGetOk | multiSetOk | multiDelOk
  | flushdbOk | dbsizeOk
  deriving DecidableEq, Repr

/-- A pointer stored in a result: null, the key copy that `dbget` owns, or an
offset into the received buffer. -/
inductive DbPtr where
  | null
  | own
  | src (offset : Nat)
  deriving DecidableEq, Repr

structure DbKv where
  key : DbPtr
  keyLen : Int
  val : DbPtr
  valLen : Int
  deriving DecidableEq, Repr

/-- What `wys_malloc` leaves in a fresh entry: it clears the memory. -/
def DbKv.zero : DbKv := ⟨.null, 0, .null, 0⟩

structure Db where
  kvn : Nat
  rno : DbRno
  freeKvs0Key : Bool
  srcBuf : Bytes
  kvs : Option (List DbKv)
  deriving DecidableEq, Repr

def intMax : Nat := 2 ^ 31 - 1

/-- The digit loop of `atoi`; `none` is a read behind the buffer. -/
def atoiDigits : Nat → Bytes → Option Nat
  | _, [] => none
  | value, b :: rest =>
    if IsDigit b then atoiDigits (value * 10 + (b.toNat - 48)) rest
    else some value

/-- `_dbatoi`: -1 unless a digit comes first; `atoi` saturates. -/
def dbatoi (mem : Bytes) (p : Nat) : Option Int :=
  match mem.drop p with
  | [] => none
  | b :: rest =>
    if IsDigit b then
      (atoiDigits 0 (b :: rest)).map fun value => (min value intMax : Nat)
    else some (-1)

/-- The division loop of `_dbnumlen`; no 32-bit number has more than ten
digits. -/
def dbnumlenLoop : Nat → Nat → Nat
  | 0, _ => 0
  | fuel + 1, tmp => if tmp = 0 then 0 else dbnumlenLoop fuel (tmp / 10) + 1

/-- `_dbnumlen`; `none` is its failed assertion. -/
def dbnumlen (num : Int) : Option Nat :=
  if num = 0 then some 1
  else if 0 < num then some (dbnumlenLoop 10 num.toNat)
  else none

/-- A block's length, the width of its numeral, and so the next block. -/
def skipBlock (mem : Bytes) (p : Nat) : Option Nat := do
  let len ← dbatoi mem p
  let width ← dbnumlen len
  some (p + width + len.toNat + 2)

def dbcountkvLoop (mem : Bytes) (buf : Nat) (bufLen : Int) :
    Nat → Nat → Nat → Option Nat
  | 0, _, _ => none
  | fuel + 1, pk, cnt =>
    if (pk : Int) - buf < bufLen - 1 then do
      let pv ← skipBlock mem pk
      let next ← skipBlock mem pv
      dbcountkvLoop mem buf bufLen fuel next ((cnt + 1) % 2 ^ 32)
    else some cnt

/-- `_dbcountkv`.  Every round moves on, so `buf_len` rounds are enough. -/
def dbcountkv (mem : Bytes) (buf : Nat) (bufLen : Int) : Option Nat :=
  dbcountkvLoop mem buf bufLen (bufLen.toNat + 1) buf 0

def writeByte (mem : Bytes) (p : Nat) (b : Byte) : Option Bytes :=
  if p < mem.length then some (mem.set p b) else none

/-- One block of the splitting pass: its length, where its data start, and the
memory with a NUL behind the data. -/
def splitBlock (mem : Bytes) (p : Nat) : Option (Nat × Nat × Bytes) := do
  let len ← dbatoi mem p
  let width ← dbnumlen len
  let data := p + width + 1
  let mem ← writeByte mem (data + len.toNat) 0
  some (len.toNat, data, mem)

/-- The memory and the parse position after the first blocks of the splitting
pass, two blocks for each round of its loop. -/
def splitBlocks : Nat → Bytes → Nat → Option (Bytes × Nat)
  | 0, mem, p => some (mem, p)
  | n + 1, mem, p => do
      let (len, data, mem) ← splitBlock mem p
      splitBlocks n mem (data + len + 1)

/-- A store to `db->kvs[idx]`; `none` is one outside the array. -/
def setKv (kvs : Option (List DbKv)) (idx : Nat) (kv : DbKv) :
    Option (List DbKv) :=
  match kvs with
  | none => none
  | some entries => if idx < entries.length then some (entries.set idx kv) else none

def dbsplitkvLoop (buf : Nat) (bufLen : Int) : Nat → Db → Nat → Nat → Option Db
  | 0, _, _, _ => none
  | fuel + 1, db, idx, pk =>
    if (pk : Int) - buf < bufLen - 1 then do
      let (keyLen, key, mem) ← splitBlock db.srcBuf pk
      let pv := key + keyLen + 1
      let (valLen, val, mem) ← splitBlock mem pv
      let kvs ← setKv db.kvs idx ⟨.src key, keyLen, .src val, valLen⟩
      dbsplitkvLoop buf bufLen fuel { db with srcBuf := mem, kvs := some kvs }
        (idx + 1) (val + valLen + 1)
    else some { db with kvn := idx % 2 ^ 16 }

/-- `_dbsplitkv` on the bytes from `buf` on; `kvsAlloc` says whether the
allocation of the array succeeds. -/
def dbsplitkv (kvsAlloc : Bool) (db : Db) (buf : Nat) (bufLen : Int)
    (initState : DbRno) : Option (DbRno × Db) := do
  let kvn ← dbcountkv db.srcBuf buf bufLen
  if kvsAlloc then
    let db := { db with kvs := some (List.replicate kvn DbKv.zero) }
    let final ← dbsplitkvLoop buf bufLen (bufLen.toNat + 1) db 0 buf
    some (initState, final)
  else
    let db := { db with kvs := none }
    some (if kvn = 0 then initState else .outMem, db)

/-- One block on the wire: its length in decimal, then its bytes. -/
def blockText (data : Bytes) : Bytes :=
  decimal data.length ++ 10 :: (data ++ [10])

/-- A block after the splitting pass: its last separator is a NUL. -/
def splitText (data : Bytes) : Bytes :=
  decimal data.length ++ 10 :: (data ++ [0])

section Numerals

theorem atoiDigits_append (digits : Bytes) (hdigits : ∀ b ∈ digits, IsDigit b)
    (stop : Byte) (hstop : ¬ IsDigit stop) (rest : Bytes) (value : Nat) :
    atoiDigits value (digits ++ stop :: rest) =
      some (digits.foldl (fun value b => value * 10 + (b.toNat - 48)) value) := by
  induction digits generalizing value with
  | nil => simp [atoiDigits, hstop]
  | cons b digits ih =>
    have hb : IsDigit b := hdigits b mem_cons_self
    rw [cons_append, atoiDigits, if_pos hb, foldl_cons]
    exact ih (fun c hc => hdigits c (mem_cons_of_mem b hc)) _

theorem dbatoi_decimal {mem rest : Bytes} {p n : Nat}
    (hmem : mem.drop p = decimal n ++ 10 :: rest) (hn : n < 2 ^ 31) :
    dbatoi mem p = some (n : Int) := by
  have hread := atoiDigits_append (decimal n) (decimal_isDigit n)
    10 (by decide) rest 0
  have hvalue := numeralValue_decimal n
  rw [numeralValue] at hvalue
  rw [hvalue] at hread
  obtain ⟨first, digits, hdec⟩ := exists_cons_of_ne_nil (decimal_ne_nil n)
  have hfirst : IsDigit first :=
    decimal_isDigit n first (by rw [hdec]; exact mem_cons_self)
  rw [hdec, cons_append] at hread
  rw [dbatoi, hmem, hdec, cons_append]
  grind [intMax]

theorem dbnumlenLoop_eq {fuel n : Nat} (hn : n < 10 ^ fuel) (hpos : 0 < n) :
    dbnumlenLoop fuel n = (decimal n).length := by
  induction fuel generalizing n with
  | zero => simp at hn; omega
  | succ fuel ih =>
    rw [dbnumlenLoop, if_neg (by omega)]
    by_cases hten : n < 10
    · have hzero : n / 10 = 0 := by omega
      rw [decimal_of_lt hten, hzero, length_singleton]
      cases fuel <;> simp [dbnumlenLoop]
    grind [decimal_of_le]

theorem dbnumlen_eq {n : Nat} (hn : n < 2 ^ 31) :
    dbnumlen (n : Int) = some (decimal n).length := by
  by_cases hzero : n = 0
  · subst hzero
    rfl
  · rw [dbnumlen, if_neg (by omega), if_pos (by omega), Int.toNat_natCast,
      dbnumlenLoop_eq (by omega) (by omega)]

end Numerals

section Blocks

theorem blockText_length (data : Bytes) :
    (blockText data).length = (decimal data.length).length + data.length + 2 := by
  simp [blockText]
  omega

theorem splitText_length (data : Bytes) :
    (splitText data).length = (decimal data.length).length + data.length + 2 := by
  simp [splitText]
  omega

theorem drop_block (before data after : Bytes) :
    (before ++ blockText data ++ after).drop before.length =
      decimal data.length ++ 10 :: (data ++ 10 :: after) := by
  rw [append_assoc, drop_left]
  simp [blockText]

theorem skipBlock_block (before data after : Bytes) (hdata : data.length < 2 ^ 31) :
    skipBlock (before ++ blockText data ++ after) before.length =
      some (before ++ blockText data).length := by
  have hlen := dbatoi_decimal (drop_block before data after) hdata
  grind [skipBlock, blockText_length, Option.some.injEq, dbnumlen_eq]

theorem splitBlock_block (before data after : Bytes) (hdata : data.length < 2 ^ 31) :
    splitBlock (before ++ blockText data ++ after) before.length =
      some (data.length, before.length + (decimal data.length).length + 1,
        before ++ splitText data ++ after) := by
  have hlen := dbatoi_decimal (drop_block before data after) hdata
  have hsplit : before ++ blockText data ++ after =
      (before ++ decimal data.length ++ 10 :: data) ++ 10 :: after := by
    simp [blockText]
  have hpos : before.length + (decimal data.length).length + 1 + data.length =
      (before ++ decimal data.length ++ 10 :: data).length := by
    simp
    omega
  have hwrite : writeByte (before ++ blockText data ++ after)
      (before.length + (decimal data.length).length + 1 + data.length) 0 =
      some (before ++ splitText data ++ after) := by
    rw [hsplit, hpos, writeByte, if_pos (by simp), set_append_right _ _ le_rfl]
    simp [splitText]
  grind [splitBlock, Int.toNat_natCast, dbnumlen_eq]

theorem splitBlocks_blocks (fields : List Bytes) (before after : Bytes)
    (hfields : ∀ data ∈ fields, data.length < 2 ^ 31) {n : Nat}
    (hn : n ≤ fields.length) :
    splitBlocks n (before ++ fields.flatMap blockText ++ after) before.length =
      some (before ++ (fields.take n).flatMap splitText ++
          ((fields.drop n).flatMap blockText ++ after),
        (before ++ (fields.take n).flatMap splitText).length) := by
  induction n generalizing fields before with
  | zero => simp [splitBlocks]
  | succ n ih =>
    cases fields with
    | nil => simp at hn
    | cons data fields =>
      have hdata := hfields data mem_cons_self
      have hsplit : before ++ (data :: fields).flatMap blockText ++ after =
          before ++ blockText data ++ (fields.flatMap blockText ++ after) := by
        simp
      have hnext : before.length + (decimal data.length).length + 1 +
          data.length + 1 = (before ++ splitText data).length := by
        rw [length_append, splitText_length]
        omega
      have hrest := ih fields (before ++ splitText data)
        (fun other hother => hfields other (mem_cons_of_mem data hother))
        (by simpa using hn)
      rw [hsplit, splitBlocks, splitBlock_block before data _ hdata]
      grind

theorem length_le_flatMap_blockText {fields : List Bytes} {data : Bytes}
    (hdata : data ∈ fields) :
    data.length ≤ (fields.flatMap blockText).length := by
  induction fields with
  | nil => exact absurd hdata not_mem_nil
  | cons head fields ih =>
    rw [flatMap_cons, length_append, blockText_length]
    grind

theorem flatMap_splitText_length (fields : List Bytes) :
    (fields.flatMap splitText).length = (fields.flatMap blockText).length := by
  simp only [length_flatMap, splitText_length, blockText_length]

theorem splitBlocks_unparsed (fields : List Bytes) (before after : Bytes)
    (hfields : ∀ data ∈ fields, data.length < 2 ^ 31) {n : Nat}
    (hn : n ≤ fields.length) :
    ∃ mem p,
      splitBlocks n (before ++ fields.flatMap blockText ++ after) before.length =
        some (mem, p) ∧
      mem.drop p = (before ++ fields.flatMap blockText ++ after).drop p := by
  refine ⟨_, _, splitBlocks_blocks fields before after hfields hn, ?_⟩
  have hparsed : (before ++ (fields.take n).flatMap splitText).length =
      (before ++ (fields.take n).flatMap blockText).length := by
    rw [length_append, length_append, flatMap_splitText_length]
  have hsplit : before ++ fields.flatMap blockText ++ after =
      before ++ (fields.take n).flatMap blockText ++
        ((fields.drop n).flatMap blockText ++ after) := by
    conv_lhs => rw [← take_append_drop n fields, flatMap_append]
    simp only [append_assoc]
  rw [drop_left, hparsed, hsplit, drop_left]

end Blocks

def pairText (pair : Bytes × Bytes) : Bytes :=
  blockText pair.1 ++ blockText pair.2

def splitPairText (pair : Bytes × Bytes) : Bytes :=
  splitText pair.1 ++ splitText pair.2

/-- The body of a reply that carries the given key/value pairs. -/
def encodeBody (pairs : List (Bytes × Bytes)) : Bytes :=
  pairs.flatMap pairText ++ [10]

/-- The entries that describe pairs whose text starts at `start`. -/
def entriesFrom : Nat → List (Bytes × Bytes) → List DbKv
  | _, [] => []
  | start, pair :: pairs =>
    ⟨.src (start + (decimal pair.1.length).length + 1), pair.1.length,
      .src (start + (splitText pair.1).length +
        (decimal pair.2.length).length + 1), pair.2.length⟩ ::
      entriesFrom (start + (splitPairText pair).length) pairs

/-- The entry points at the pair's bytes, with a NUL behind each of the two. -/
def Denotes (mem : Bytes) (kv : DbKv) (pair : Bytes × Bytes) : Prop :=
  (∃ p, kv.key = .src p ∧ pair.1 ++ [0] <+: mem.drop p) ∧
    kv.keyLen = pair.1.length ∧
    (∃ p, kv.val = .src p ∧ pair.2 ++ [0] <+: mem.drop p) ∧
    kv.valLen = pair.2.length

section Pairs

theorem pairText_length (pair : Bytes × Bytes) :
    (pairText pair).length = (splitPairText pair).length := by
  simp only [pairText, splitPairText, length_append, blockText_length,
    splitText_length]

theorem pairText_length_pos (pair : Bytes × Bytes) : 0 < (pairText pair).length := by
  simp only [pairText, length_append, blockText_length]
  omega

theorem length_le_flatMap_pairText (pairs : List (Bytes × Bytes)) :
    pairs.length ≤ (pairs.flatMap pairText).length := by
  induction pairs with
  | nil => simp
  | cons pair pairs ih =>
    have hpos := pairText_length_pos pair
    simp only [length_cons, flatMap_cons, length_append]
    omega

theorem pair_length_lt {pair : Bytes × Bytes} {bound : Nat}
    (hpair : (pairText pair).length < bound) :
    pair.1.length < bound ∧ pair.2.length < bound := by
  simp only [pairText, length_append, blockText_length] at hpair
  omega

theorem dbcountkvLoop_pair (pair : Bytes × Bytes) (before rest : Bytes)
    (hpair : (pairText pair).length < 2 ^ 31) {buf fuel cnt : Nat} {bufLen : Int}
    (hin : (before.length : Int) - buf < bufLen - 1) :
    dbcountkvLoop (before ++ pairText pair ++ rest) buf bufLen (fuel + 1)
        before.length cnt =
      dbcountkvLoop (before ++ pairText pair ++ rest) buf bufLen fuel
        (before ++ pairText pair).length ((cnt + 1) % 2 ^ 32) := by
  obtain ⟨hkey, hval⟩ := pair_length_lt hpair
  have hmemKey : before ++ pairText pair ++ rest =
      before ++ blockText pair.1 ++ (blockText pair.2 ++ rest) := by
    simp [pairText]
  have hmemVal : before ++ pairText pair ++ rest =
      before ++ blockText pair.1 ++ blockText pair.2 ++ rest := by
    simp [pairText]
  have hskipKey := skipBlock_block before pair.1 (blockText pair.2 ++ rest) hkey
  have hskipVal := skipBlock_block (before ++ blockText pair.1) pair.2 rest hval
  rw [← hmemKey] at hskipKey
  rw [← hmemVal] at hskipVal
  rw [dbcountkvLoop, if_pos hin]
  grind [pairText]

theorem dbcountkvLoop_pairs (pairs : List (Bytes × Bytes)) (before after : Bytes)
    {buf fuel cnt : Nat} {bufLen : Int}
    (hend : buf + bufLen = before.length + (pairs.flatMap pairText).length + 1)
    (hsize : (pairs.flatMap pairText).length < 2 ^ 31)
    (hfuel : pairs.length < fuel) (hcnt : cnt + pairs.length < 2 ^ 32) :
    dbcountkvLoop (before ++ pairs.flatMap pairText ++ after) buf bufLen fuel
      before.length cnt = some (cnt + pairs.length) := by
  induction pairs generalizing before fuel cnt with
  | nil =>
    obtain ⟨fuel, rfl⟩ := Nat.exists_eq_add_of_lt hfuel
    simp only [flatMap_nil, length_nil] at hend
    rw [length_nil, Nat.zero_add, dbcountkvLoop, if_neg (by omega)]
    rfl
  | cons pair pairs ih =>
    cases fuel with
    | zero => omega
    | succ fuel =>
      have hpos := pairText_length_pos pair
      simp only [flatMap_cons, length_append, length_cons]
        at hend hsize hfuel hcnt
      have hrest := @ih (before ++ pairText pair) fuel (cnt + 1)
        (by rw [length_append]; omega) (by omega) (by omega) (by omega)
      have hmem : before ++ (pair :: pairs).flatMap pairText ++ after =
          before ++ pairText pair ++ (pairs.flatMap pairText ++ after) := by
        simp
      rw [append_assoc] at hrest
      rw [hmem, dbcountkvLoop_pair pair before _ (by omega) (by omega),
        Nat.mod_eq_of_lt (by omega), hrest, length_cons]
      congr 1
      omega

theorem dbcountkv_encodeBody (pairs : List (Bytes × Bytes)) (before after : Bytes)
    (hsize : (encodeBody pairs).length < 2 ^ 31) :
    dbcountkv (before ++ encodeBody pairs ++ after) before.length
      (encodeBody pairs).length = some pairs.length := by
  have hcount := length_le_flatMap_pairText pairs
  have hmem : before ++ encodeBody pairs ++ after =
      before ++ pairs.flatMap pairText ++ ([10] ++ after) := by
    simp [encodeBody]
  simp only [encodeBody, length_append, length_singleton] at hsize ⊢
  have hloop := @dbcountkvLoop_pairs pairs before ([10] ++ after) before.length
    ((pairs.flatMap pairText).length + 1 + 1) 0
    ((pairs.flatMap pairText).length + 1 : Nat) (by push_cast; omega) (by omega)
    (by omega) (by omega)
  rw [Nat.zero_add] at hloop
  rw [encodeBody] at hmem
  rw [dbcountkv, hmem, Int.toNat_natCast, hloop]

theorem dbsplitkvLoop_pair (pair : Bytes × Bytes) (before rest : Bytes)
    (hpair : (pairText pair).length < 2 ^ 31) {buf fuel : Nat} {bufLen : Int}
    (hin : (before.length : Int) - buf < bufLen - 1) {db : Db}
    (hbuf : db.srcBuf = before ++ pairText pair ++ rest)
    {done : List DbKv} {slot : DbKv} {free : List DbKv}
    (hkvs : db.kvs = some (done ++ slot :: free)) :
    dbsplitkvLoop buf bufLen (fuel + 1) db done.length before.length =
      dbsplitkvLoop buf bufLen fuel
        { db with
          srcBuf := before ++ splitPairText pair ++ rest
          kvs := some (done ++ entriesFrom before.length [pair] ++ free) }
        (done.length + 1) (before ++ splitPairText pair).length := by
  obtain ⟨hkey, hval⟩ := pair_length_lt hpair
  have hfirst := splitBlock_block before pair.1 (blockText pair.2 ++ rest) hkey
  have hsecond := splitBlock_block (before ++ splitText pair.1) pair.2 rest hval
  have hmemKey : before ++ pairText pair ++ rest =
      before ++ blockText pair.1 ++ (blockText pair.2 ++ rest) := by
    simp [pairText]
  have hmemVal : before ++ splitText pair.1 ++ (blockText pair.2 ++ rest) =
      before ++ splitText pair.1 ++ blockText pair.2 ++ rest := by
    simp
  have hpv : before.length + (decimal pair.1.length).length + 1 + pair.1.length + 1 =
      (before ++ splitText pair.1).length := by
    rw [length_append, splitText_length]
    omega
  have hnext : (before ++ splitText pair.1).length +
      (decimal pair.2.length).length + 1 + pair.2.length + 1 =
      (before ++ splitPairText pair).length := by
    simp only [splitPairText, length_append, splitText_length]
    omega
  have hset : setKv db.kvs done.length
      ⟨.src (before.length + (decimal pair.1.length).length + 1), pair.1.length,
        .src ((before ++ splitText pair.1).length +
          (decimal pair.2.length).length + 1), pair.2.length⟩ =
      some (done ++ entriesFrom before.length [pair] ++ free) := by
    rw [hkvs, setKv]
    simp [entriesFrom]
  rw [← hmemKey, ← hbuf] at hfirst
  rw [← hmemVal] at hsecond
  rw [dbsplitkvLoop, if_pos hin]
  grind [splitPairText]

theorem dbsplitkvLoop_pairs (pairs : List (Bytes × Bytes)) (before after : Bytes)
    {buf fuel : Nat} {bufLen : Int} {db : Db} {done : List DbKv}
    (hend : buf + bufLen = before.length + (pairs.flatMap pairText).length + 1)
    (hsize : (pairs.flatMap pairText).length < 2 ^ 31)
    (hfuel : pairs.length < fuel)
    (hbuf : db.srcBuf = before ++ pairs.flatMap pairText ++ after)
    (hkvs : db.kvs = some (done ++ List.replicate pairs.length DbKv.zero)) :
    dbsplitkvLoop buf bufLen fuel db done.length before.length =
      some { db with
        kvn := (done.length + pairs.length) % 2 ^ 16
        srcBuf := before ++ pairs.flatMap splitPairText ++ after
        kvs := some (done ++ entriesFrom before.length pairs) } := by
  induction pairs generalizing before fuel db done with
  | nil =>
    obtain ⟨fuel, rfl⟩ := Nat.exists_eq_add_of_lt hfuel
    simp only [flatMap_nil, length_nil] at hend
    simp only [flatMap_nil, length_nil, replicate_zero]
      at hbuf hkvs
    rw [length_nil, Nat.zero_add, dbsplitkvLoop, if_neg (by omega)]
    simp_all [entriesFrom]
  | cons pair pairs ih =>
    cases fuel with
    | zero => omega
    | succ fuel =>
      have hpos := pairText_length_pos pair
      have hlength := pairText_length pair
      simp only [flatMap_cons, length_append, length_cons]
        at hend hsize hfuel
      rw [flatMap_cons, ← append_assoc, append_assoc] at hbuf
      rw [length_cons, replicate_succ] at hkvs
      rw [dbsplitkvLoop_pair pair before _ (by omega) (by omega) hbuf hkvs]
      have hdone : (done ++ entriesFrom before.length [pair]).length =
          done.length + 1 := by
        simp [entriesFrom]
      have hrest := @ih (before ++ splitPairText pair) fuel
        { db with
          srcBuf := before ++ splitPairText pair ++
            (pairs.flatMap pairText ++ after)
          kvs := some (done ++ entriesFrom before.length [pair] ++
            List.replicate pairs.length DbKv.zero) }
        (done ++ entriesFrom before.length [pair])
        (by rw [length_append]; omega)
        (by omega) (by omega) (by simp) rfl
      rw [hdone] at hrest
      rw [hrest]
      simp [entriesFrom, Nat.add_comm, Nat.add_left_comm, Nat.add_assoc]

theorem entriesFrom_denotes (pairs : List (Bytes × Bytes)) (before after : Bytes) :
    List.Forall₂ (Denotes (before ++ pairs.flatMap splitPairText ++ after))
      (entriesFrom before.length pairs) pairs := by
  induction pairs generalizing before with
  | nil => exact List.Forall₂.nil
  | cons pair pairs ih =>
    have hrest := ih (before ++ splitPairText pair)
    rw [length_append] at hrest
    refine List.Forall₂.cons ?_ (by simpa using hrest)
    refine ⟨⟨_, rfl, ?_⟩, rfl, ⟨_, rfl, ?_⟩, rfl⟩
    · have hsplit : before ++ (pair :: pairs).flatMap splitPairText ++ after =
          (before ++ decimal pair.1.length ++ [10]) ++ (pair.1 ++ [0] ++
            (splitText pair.2 ++ pairs.flatMap splitPairText ++ after)) := by
        simp [splitPairText, splitText]
      have hstart : before.length + (decimal pair.1.length).length + 1 =
          (before ++ decimal pair.1.length ++ [10]).length := by
        simp
        omega
      rw [hsplit, hstart, drop_left]
      exact prefix_append _ _
    · have hsplit : before ++ (pair :: pairs).flatMap splitPairText ++ after =
          (before ++ splitText pair.1 ++ decimal pair.2.length ++ [10]) ++
            (pair.2 ++ [0] ++ (pairs.flatMap splitPairText ++ after)) := by
        simp [splitPairText, splitText]
      have hstart : before.length + (splitText pair.1).length +
          (decimal pair.2.length).length + 1 =
          (before ++ splitText pair.1 ++ decimal pair.2.length ++ [10]).length := by
        simp
        omega
      rw [hsplit, hstart, drop_left]
      exact prefix_append _ _

/-- The keys and values of the pairs in the order they are parsed in. -/
def pairFields (pairs : List (Bytes × Bytes)) : List Bytes :=
  pairs.flatMap fun pair => [pair.1, pair.2]

theorem pairFields_length (pairs : List (Bytes × Bytes)) :
    (pairFields pairs).length = 2 * pairs.length := by
  simp [pairFields, length_flatMap]
  omega

theorem flatMap_pairText (pairs : List (Bytes × Bytes)) :
    pairs.flatMap pairText = (pairFields pairs).flatMap blockText := by
  rw [pairFields, flatMap_assoc]
  congr 1
  funext pair
  simp [pairText]

theorem flatMap_splitPairText (pairs : List (Bytes × Bytes)) :
    pairs.flatMap splitPairText = (pairFields pairs).flatMap splitText := by
  rw [pairFields, flatMap_assoc]
  congr 1
  funext pair
  simp [splitPairText]

end Pairs

/-- Counting and splitting the body of a reply are exact.  The counting pass
finds the number of pairs; the splitting pass changes the separator behind each
key and value into a NUL and no other byte, its entries denote the pairs in
order, and at every point of the pass the bytes still to be parsed are those
that were received. -/
theorem dbsplitkv_encodeBody (pairs : List (Bytes × Bytes)) (before after : Bytes)
    (db : Db) (initState : DbRno) (hcount : pairs.length < 2 ^ 16)
    (hsize : (encodeBody pairs).length < 2 ^ 31)
    (hbuf : db.srcBuf = before ++ encodeBody pairs ++ after) :
    dbcountkv db.srcBuf before.length (encodeBody pairs).length =
        some pairs.length ∧
      ∃ final kvs,
        dbsplitkv true db before.length (encodeBody pairs).length initState =
          some (initState, final) ∧
        final.kvn = pairs.length ∧ final.kvs = some kvs ∧
        List.Forall₂ (Denotes final.srcBuf) kvs pairs ∧
        final.srcBuf = before ++ (pairs.flatMap splitPairText ++ [10]) ++ after ∧
        (∃ p, splitBlocks (2 * pairs.length) db.srcBuf before.length =
          some (final.srcBuf, p)) ∧
        ∀ n ≤ 2 * pairs.length, ∃ mem p,
          splitBlocks n db.srcBuf before.length = some (mem, p) ∧
            mem.drop p = db.srcBuf.drop p := by
  have hkvn := dbcountkv_encodeBody pairs before after hsize
  rw [← hbuf] at hkvn
  have hpairs := length_le_flatMap_pairText pairs
  have hbody : db.srcBuf = before ++ pairs.flatMap pairText ++ (10 :: after) := by
    rw [hbuf, encodeBody]
    simp
  have hlength : (encodeBody pairs).length = (pairs.flatMap pairText).length + 1 := by
    simp [encodeBody]
  have hfields : ∀ data ∈ pairFields pairs, data.length < 2 ^ 31 := by
    intro data hdata
    have hle := length_le_flatMap_blockText hdata
    rw [← flatMap_pairText] at hle
    omega
  have hsplit : dbsplitkv true db before.length (encodeBody pairs).length
      initState = some (initState, { db with
        kvn := pairs.length
        srcBuf := before ++ pairs.flatMap splitPairText ++ 10 :: after
        kvs := some (entriesFrom before.length pairs) }) := by
    have hloop := @dbsplitkvLoop_pairs pairs before (10 :: after) before.length
      ((encodeBody pairs).length + 1) (encodeBody pairs).length
      { db with kvs := some (List.replicate pairs.length DbKv.zero) } []
      (by rw [hlength]; push_cast; omega) (by omega) (by omega) hbody rfl
    simp only [length_nil, Nat.zero_add, nil_append,
      Nat.mod_eq_of_lt hcount] at hloop
    grind [dbsplitkv]
  refine ⟨hkvn, _, _, hsplit, rfl, rfl,
    entriesFrom_denotes pairs before (10 :: after), ?_, ?_, ?_⟩
  · simp
  · have hall := splitBlocks_blocks _ before (10 :: after) hfields le_rfl
    grind [flatMap_pairText, flatMap_splitPairText, pairFields_length]
  · intro n hn
    rw [hbody, flatMap_pairText]
    exact splitBlocks_unparsed _ _ _ hfields (by rw [pairFields_length]; exact hn)

/-- Two pairs behind a status block; a key holds a newline and a digit. -/
theorem dbsplitkv_encodeBody_two :
    dbcountkv (ascii "2\nok\n" ++ encodeBody
        [(ascii "a", []), (ascii "\n1", ascii "xyz")] ++ []) 5 19 = some 2 :=
  (dbsplitkv_encodeBody [(ascii "a", []), (ascii "\n1", ascii "xyz")]
    (ascii "2\nok\n") []
    ⟨0, .noret, false, ascii "2\nok\n" ++ encodeBody
      [(ascii "a", []), (ascii "\n1", ascii "xyz")] ++ [], none⟩ .scanOk
    (by decide) (by decide) rfl).1

end WaterWall
