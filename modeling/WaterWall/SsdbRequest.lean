/-
The request builders of db.c: every command is formatted into a block of a size
computed by hand, and `_dbcmd` copies it behind the command's name into a second
block, which goes to `_dbdo`.  Allocations succeed; an access outside its block
stops the builder, so a request that comes out was built inside its blocks.
-/
import WaterWall.HeapBlock
import WaterWall.SsdbStatus
import WaterWall.SsdbStore

namespace WaterWall

namespace Request

open ByteText HeapBlock List

universe u

/-- Why nothing reaches `_dbdo`: refused arguments, an access outside a block,
or the assertion of `_dbnumlen`. -/
inductive Stop where
  | invalidParms
  | outOfBounds
  | assertion
  deriving DecidableEq, Repr

/-- `_dbstr`. -/
def dbstr : DbCmd → Bytes
  | .set => ascii "set"
  | .get => ascii "get"
  | .scan => ascii "scan"
  | .del => ascii "del"
  | .exists => ascii "exists"
  | .multiGet => ascii "multi_get"
  | .multiSet => ascii "multi_set"
  | .multiDel => ascii "multi_del"
  | .flushdb => ascii "flushdb"
  | .dbsize => ascii "dbsize"
  | .clrBinlog => ascii "clear_binlog"
  | .compact => ascii "compact"

/-- `%d` of a signed argument. -/
def printS32 (n : Int) : Bytes :=
  if 0 ≤ n then decimal n.toNat else ascii "-" ++ decimal (-n).toNat

/-- A formatted line. -/
def line (text : Bytes) : Bytes :=
  text ++ [10]

def inBounds {β : Type u} : Option β → Except Stop β
  | some value => .ok value
  | none => .error .outOfBounds

/-- `wys_malloc`: its size parameter is unsigned, the block comes cleared. -/
def wysMalloc (size : Int) : Bytes :=
  List.replicate (size % 2 ^ 32).toNat 0

/-- `sprintf` stores a NUL behind the text but does not count it. -/
def sprintf (block : Bytes) (offset : Nat) (text : Bytes) :
    Except Stop (Bytes × Nat) := do
  let block ← inBounds (writeAt block offset (text ++ [0]))
  return (block, text.length)

/-- `snprintf` of a text to the front of a block. -/
def snprintfTo (block : Bytes) (size : Nat) (text : Bytes) :
    Except Stop (Bytes × Nat) := do
  let (kept, length) := snprintf size text
  let block ← inBounds (writeAt block 0 (kept ++ [0]))
  return (block, length)

/-- `memcpy`: a negative count is a `size_t` beyond every block. -/
def memcpy (block : Bytes) (offset : Int) (source : Bytes) (count : Int) :
    Except Stop Bytes :=
  if 0 ≤ offset ∧ 0 ≤ count then do
    let data ← inBounds (readFront source count.toNat)
    inBounds (writeAt block offset.toNat data)
  else .error .outOfBounds

def memset (block : Bytes) (offset : Int) (b : Byte) (count : Nat) :
    Except Stop Bytes :=
  memcpy block offset (List.replicate count b) count

/-- The copy in `_dbcmd`, left out for a command without a body. -/
def copyData (block : Bytes) (cmdlen : Nat) (data : Option Bytes) (datalen : Int) :
    Except Stop Bytes :=
  match data with
  | some data => if datalen ≠ 0 then memcpy block cmdlen data datalen else .ok block
  | none => .ok block

/-- `_dbcmd`: the bytes it passes to `_dbdo`. -/
def dbcmd (cmd : DbCmd) (data : Option Bytes) (datalen : Int) :
    Except Stop Bytes := do
  let cmdStr := dbstr cmd
  let block := wysMalloc (cmdStr.length + datalen + 64)
  let (block, cmdlen) ← sprintf block 0 (line (printS32 cmdStr.length) ++ line cmdStr)
  let total : Int := cmdlen + datalen
  let block ← copyData block cmdlen data datalen
  let block ← memset block total 10 1
  inBounds (readFront block (total + 1).toNat)

/-- What `dbget`, `dbdel` and `dbexists` do with a key they accept. -/
def keyCommand (cmd : DbCmd) (key : CString) (keyLen : Int) : Except Stop Bytes := do
  let (data, dataLen) ← sprintf (wysMalloc (keyLen + 16)) 0
    (line (printS32 keyLen) ++ line key.text)
  dbcmd cmd (some data) dataLen

/-- The null pointer is `none`.  The result gets a copy of the key. -/
def dbget (key : Option CString) (keyLen : Int) : Except Stop Bytes :=
  match key with
  | none => .error .invalidParms
  | some key =>
    if keyLen = 0 then .error .invalidParms
    else do
      let _ ← memcpy (wysMalloc (keyLen + 1)) 0 (key.text ++ [0]) keyLen
      keyCommand .get key keyLen

/-- `dbdel` and `dbexists` differ in the command only. -/
def dbdelExists (cmd : DbCmd) (key : Option CString) (keyLen : Int) :
    Except Stop Bytes :=
  match key with
  | none => .error .invalidParms
  | some key =>
    if keyLen = 0 then .error .invalidParms else keyCommand cmd key keyLen

def dbdel (key : Option CString) (keyLen : Int) : Except Stop Bytes :=
  dbdelExists .del key keyLen

def dbexists (key : Option CString) (keyLen : Int) : Except Stop Bytes :=
  dbdelExists .exists key keyLen

def dbset (key : Option CString) (keyLen : Int) (val : Option Bytes) (valLen : Int) :
    Except Stop Bytes :=
  match key, val with
  | some key, some val =>
    if key.text.length = 0 ∨ valLen ≤ 0 then .error .invalidParms
    else do
      let size := keyLen + valLen + 64
      let (data, datalen) ← snprintfTo (wysMalloc size) (size % 2 ^ 32).toNat
        (line (printS32 keyLen) ++ line key.text ++ line (printS32 valLen))
      let data ← memcpy data datalen val valLen
      let data ← memcpy data (datalen + valLen) [10, 0] 1
      dbcmd .set (some data) (datalen + valLen + 1)
  | _, _ => .error .invalidParms

/-- The result of `sprintf` comes back in a signed char. -/
def s8 (n : Int) : Int :=
  n.bmod (2 ^ 8)

def numlen (num : Int) : Except Stop Nat :=
  match dbnumlen num with
  | some width => .ok width
  | none => .error .assertion

def dbscan (start : Option CString) (startLen : Int) (stop : Option CString)
    (stopLen max : Int) : Except Stop Bytes :=
  match start, stop with
  | some start, some stop =>
    if max < 1 then .error .invalidParms
    else do
      let maxLen ← numlen max
      let (data, written) ← sprintf (wysMalloc (startLen + stopLen + maxLen + 64)) 0
        (line (printS32 startLen) ++ line start.text ++ line (printS32 stopLen) ++
          line stop.text ++ line (printS32 maxLen) ++ line (printS32 max))
      dbcmd .scan (some data) (s8 written)
  | _, _ => .error .invalidParms

/-- A `db_kv` as the callers of `dbmulti_set` fill it. -/
structure KvArg where
  key : CString
  keyLen : Int
  val : Bytes
  valLen : Int

/-- A `db_key`. -/
structure KeyArg where
  key : CString
  keyLen : Int

/-- The first loop of `dbmulti_set`. -/
def kvsTotal : List KvArg → Int → Except Stop Int
  | [], total => .ok total
  | kv :: rest, total => do
      let keyWidth ← numlen kv.keyLen
      let valWidth ← numlen kv.valLen
      kvsTotal rest (total + (kv.keyLen + kv.valLen + keyWidth + valWidth + 4))

/-- The second loop of `dbmulti_set`; `data_len` is an offset inside the block. -/
def kvsFill : List KvArg → Bytes → Nat → Except Stop (Bytes × Nat)
  | [], data, dataLen => .ok (data, dataLen)
  | kv :: rest, data, dataLen => do
      let (data, written) ← sprintf data dataLen
        (line (printS32 kv.keyLen) ++ line kv.key.text ++ line (printS32 kv.valLen))
      let data ← memcpy data (dataLen + written) kv.val kv.valLen
      let data ← memset data (dataLen + written + kv.valLen) 10 1
      kvsFill rest data (dataLen + written + kv.valLen.toNat + 1)

/-- The array and its count are one list, empty when it is missing. -/
def dbmultiSet (kvs : List KvArg) : Except Stop Bytes :=
  if kvs.length < 1 then .error .invalidParms
  else do
    let total ← kvsTotal kvs 0
    let (data, dataLen) ← kvsFill kvs (wysMalloc (total + 64)) 0
    dbcmd .multiSet (some data) dataLen

/-- The first loop of `dbmulti_get` and `dbmulti_del`. -/
def keysTotal : List KeyArg → Int → Except Stop Int
  | [], total => .ok total
  | key :: rest, total => do
      let keyWidth ← numlen key.keyLen
      keysTotal rest (total + (key.keyLen + keyWidth + 2))

def keysFill : List KeyArg → Bytes → Nat → Except Stop (Bytes × Nat)
  | [], data, dataLen => .ok (data, dataLen)
  | key :: rest, data, dataLen => do
      let (data, written) ← sprintf data dataLen
        (line (printS32 key.keyLen) ++ line key.key.text)
      keysFill rest data (dataLen + written)

/-- `dbmulti_get` and `dbmulti_del` differ in the command only. -/
def dbmultiKeys (cmd : DbCmd) (keys : List KeyArg) : Except Stop Bytes :=
  if keys.length < 1 then .error .invalidParms
  else do
    let total ← keysTotal keys 0
    let (data, dataLen) ← keysFill keys (wysMalloc (total + 64)) 0
    dbcmd cmd (some data) dataLen

def dbmultiGet (keys : List KeyArg) : Except Stop Bytes :=
  dbmultiKeys .multiGet keys

def dbmultiDel (keys : List KeyArg) : Except Stop Bytes :=
  dbmultiKeys .multiDel keys

/-- A request on the wire has the form of a reply: the command and its arguments
as blocks, then an empty line. -/
def requestText (cmd : DbCmd) (args : List Bytes) : Bytes :=
  replyText (dbstr cmd :: args)

section Writing

variable {block text source : Bytes} {size : Nat}

@[simp] theorem line_length (text : Bytes) : (line text).length = text.length + 1 := by
  simp [line]

theorem ok_bind {β γ : Type} (value : β) (next : β → Except Stop γ) :
    (Except.ok value >>= next) = next value :=
  rfl

theorem printS32_natCast (n : Nat) : printS32 n = decimal n := by
  simp [printS32]

theorem line_line_eq (data : Bytes) :
    line (printS32 data.length) ++ line data = blockText data := by
  simp [printS32_natCast, line, blockText]

theorem wysMalloc_fills {size : Nat} (hsize : size < 2 ^ 32) :
    Fills (wysMalloc size) size [] := by
  grind [wysMalloc.eq_1, Fills.replicate]

theorem sprintf_fills (hblock : Fills block size text) (out : Bytes)
    (hfits : text.length + out.length < size) :
    ∃ next, sprintf block text.length out = .ok (next, out.length) ∧
      Fills next size (text ++ out) := by
  obtain ⟨next, hnext, hfills⟩ := @Fills.writeAt _ block text (out ++ [0]) size hblock
    (by rw [length_append, length_singleton]; omega)
  refine ⟨next, ?_, ?_⟩
  · rw [sprintf, hnext]
    rfl
  · rw [← append_assoc] at hfills
    exact hfills.forget

theorem snprintfTo_eq {out : Bytes} (hfits : out.length < size) :
    snprintfTo block size out = sprintf block 0 out := by
  rw [snprintfTo, snprintf_fits hfits, sprintf]

theorem memcpy_fills (hblock : Fills block size text) {out : Bytes}
    {sourceSize : Nat} (hsource : Fills source sourceSize out)
    (hfits : text.length + out.length ≤ size) :
    ∃ next, memcpy block text.length source out.length = .ok next ∧
      Fills next size (text ++ out) := by
  obtain ⟨next, hnext, hfills⟩ := hblock.writeAt hfits
  refine ⟨next, ?_, hfills⟩
  rw [memcpy, if_pos ⟨Int.natCast_nonneg _, Int.natCast_nonneg _⟩, Int.toNat_natCast,
    Int.toNat_natCast, hsource.readFront]
  change inBounds (writeAt block text.length out) = .ok next
  rw [hnext]
  rfl

theorem memset_fills (hblock : Fills block size text) (b : Byte)
    (hfits : text.length < size) :
    ∃ next, memset block text.length b 1 = .ok next ∧ Fills next size (text ++ [b]) :=
  memcpy_fills hblock (⟨rfl, rfl⟩ : Fills [b] 1 [b]) hfits

theorem dbstr_width (cmd : DbCmd) : (decimal (dbstr cmd).length).length ≤ 2 :=
  decimal_length_le (by cases cmd <;> decide)

theorem copyData_fills (hblock : Fills block size text) {out : Bytes}
    {sourceSize : Nat} (hsource : Fills source sourceSize out)
    (hfits : text.length + out.length ≤ size) :
    ∃ next, copyData block text.length (some source) out.length = .ok next ∧
      Fills next size (text ++ out) := by
  rw [copyData]
  split
  · exact memcpy_fills hblock hsource hfits
  simp_all

theorem dbcmd_eq (cmd : DbCmd) {data body : Bytes} (hdata : Fills data size body)
    (hfits : (dbstr cmd).length + body.length + 64 < 2 ^ 32) :
    dbcmd cmd (some data) body.length =
      .ok (blockText (dbstr cmd) ++ body ++ [10]) := by
  have hwidth := dbstr_width cmd
  have hhead := blockText_length (dbstr cmd)
  obtain ⟨named, hnamed, hnamedFills⟩ := sprintf_fills (wysMalloc_fills hfits)
    (blockText (dbstr cmd)) (by rw [length_nil]; omega)
  rw [nil_append] at hnamedFills
  obtain ⟨copied, hcopied, hcopiedFills⟩ := copyData_fills hnamedFills hdata (by omega)
  obtain ⟨closed, hclosed, hclosedFills⟩ := memset_fills hcopiedFills 10
    (by rw [length_append]; omega)
  have hread := hclosedFills.readFront
  rw [length_append, length_singleton] at hread
  rw [length_append, Int.natCast_add] at hclosed
  rw [dbcmd, line_line_eq]
  grind [ok_bind, inBounds]

end Writing

section Builders

theorem requestText_eq (cmd : DbCmd) (args : List Bytes) :
    requestText cmd args =
      blockText (dbstr cmd) ++ args.flatMap blockText ++ [10] := by
  simp [requestText, replyText]

/-- No sum that `_dbcmd` computes for these arguments overflows. -/
def Fits (cmd : DbCmd) (args : List Bytes) : Prop :=
  (dbstr cmd).length + (args.flatMap blockText).length + 64 < 2 ^ 31

theorem Fits.dbcmd_eq {cmd : DbCmd} {args : List Bytes} (hfits : Fits cmd args)
    {data : Bytes} {size : Nat} (hdata : Fills data size (args.flatMap blockText)) :
    dbcmd cmd (some data) (args.flatMap blockText).length =
      .ok (requestText cmd args) := by
  rw [Request.dbcmd_eq cmd hdata (by rw [Fits] at hfits; omega), requestText_eq]

theorem Fits.arg_lt {cmd : DbCmd} {args : List Bytes} (hfits : Fits cmd args)
    {arg : Bytes} (harg : arg ∈ args) : arg.length + 64 < 2 ^ 31 := by
  have hle := length_le_flatMap_blockText harg
  rw [Fits] at hfits
  omega

theorem width_le {n : Nat} (hn : n < 2 ^ 31) : (decimal n).length ≤ 10 :=
  decimal_length_le (by omega)

theorem numlen_natCast {n : Nat} (hn : n < 2 ^ 31) :
    numlen n = .ok (decimal n).length := by
  rw [numlen, dbnumlen_eq hn]

theorem keyCommand_eq (cmd : DbCmd) (key : CString) (hfits : Fits cmd [key.text]) :
    keyCommand cmd key key.text.length = .ok (requestText cmd [key.text]) := by
  have hbody : [key.text].flatMap blockText = blockText key.text := by simp
  have hlength := blockText_length key.text
  have hkey := hfits.arg_lt mem_cons_self
  have hwidth : (decimal key.text.length).length ≤ 10 := width_le (by omega)
  have hsize : key.text.length + 16 < 2 ^ 32 := by omega
  obtain ⟨data, hdata, hdataFills⟩ := sprintf_fills (wysMalloc_fills hsize)
    (blockText key.text) (by rw [length_nil]; omega)
  rw [nil_append, ← hbody] at hdataFills
  have hsend := hfits.dbcmd_eq hdataFills
  rw [hbody] at hsend
  rw [length_nil, Int.natCast_add] at hdata
  rw [keyCommand, line_line_eq]
  change (sprintf (wysMalloc (key.text.length + (16 : Nat))) _ _ >>= _) = _
  rw [hdata]
  exact hsend

theorem dbget_eq (key : CString) (hkey : key.text ≠ []) (hfits : Fits .get [key.text]) :
    dbget (some key) key.text.length = .ok (requestText .get [key.text]) := by
  have hpos := length_pos_iff.mpr hkey
  have hlength := hfits.arg_lt mem_cons_self
  have hsize : key.text.length + 1 < 2 ^ 32 := by omega
  have hsource : Fills (key.text ++ [0]) (key.text.length + 1) key.text :=
    ⟨by simp, take_left⟩
  obtain ⟨copy, hcopy, _⟩ := memcpy_fills (wysMalloc_fills hsize) hsource
    (by rw [length_nil]; omega)
  rw [length_nil, Int.natCast_add] at hcopy
  rw [dbget, if_neg (by omega)]
  change (memcpy (wysMalloc (key.text.length + (1 : Nat))) (0 : Nat) _ _ >>= _) = _
  rw [hcopy]
  exact keyCommand_eq .get key hfits

theorem dbdelExists_eq (cmd : DbCmd) (key : CString) (hkey : key.text ≠ [])
    (hfits : Fits cmd [key.text]) :
    dbdelExists cmd (some key) key.text.length = .ok (requestText cmd [key.text]) := by
  have hpos := length_pos_iff.mpr hkey
  rw [dbdelExists, if_neg (by omega)]
  exact keyCommand_eq cmd key hfits

/-- The three lines in front of a value. -/
def headText (key val : Bytes) : Bytes :=
  line (printS32 key.length) ++ line key ++ line (printS32 val.length)

theorem headText_append (key val : Bytes) :
    headText key val ++ val ++ [10] = pairText (key, val) := by
  simp [headText, printS32_natCast, line, blockText, pairText]

theorem headText_length (key val : Bytes) :
    (headText key val).length + val.length + 1 = (pairText (key, val)).length := by
  rw [← headText_append, length_append, length_append, length_singleton]

theorem pairText_length_eq (key val : Bytes) :
    (pairText (key, val)).length = key.length + val.length +
      (decimal key.length).length + (decimal val.length).length + 4 := by
  simp only [pairText, length_append, blockText_length]
  omega

theorem dbset_eq (key : CString) (val : Bytes) (hkey : key.text ≠ []) (hval : val ≠ [])
    (hfits : Fits .set [key.text, val]) :
    dbset (some key) key.text.length (some val) val.length =
      .ok (requestText .set [key.text, val]) := by
  have hkeyPos := length_pos_iff.mpr hkey
  have hvalPos := length_pos_iff.mpr hval
  have hbody : [key.text, val].flatMap blockText = pairText (key.text, val) := by
    simp [pairText]
  have hlength := pairText_length_eq key.text val
  have hbound : (pairText (key.text, val)).length + 64 < 2 ^ 31 := by
    rw [Fits, hbody] at hfits
    omega
  have hkeyWidth : (decimal key.text.length).length ≤ 10 := width_le (by omega)
  have hvalWidth : (decimal val.length).length ≤ 10 := width_le (by omega)
  have hsize : key.text.length + val.length + 64 < 2 ^ 32 := by omega
  have hsizeMod : ((key.text.length + val.length + 64 : Int) % 2 ^ 32).toNat =
      key.text.length + val.length + 64 := by omega
  have hhead := headText_length key.text val
  obtain ⟨data, hdata, hdataFills⟩ := sprintf_fills (wysMalloc_fills hsize)
    (headText key.text val) (by rw [length_nil]; omega)
  rw [nil_append] at hdataFills
  obtain ⟨copied, hcopied, hcopiedFills⟩ := memcpy_fills hdataFills
    (Fills.self val) (by omega)
  have hnewline : Fills ([10, 0] : Bytes) 2 [10] := ⟨rfl, rfl⟩
  obtain ⟨closed, hclosed, hclosedFills⟩ := memcpy_fills hcopiedFills hnewline
    (by rw [length_append, length_singleton]; omega)
  rw [headText_append, ← hbody] at hclosedFills
  have hsend := hfits.dbcmd_eq hclosedFills
  rw [hbody, ← headText_length, Int.natCast_add, Int.natCast_add] at hsend
  rw [length_nil] at hdata
  simp only [length_append, Int.natCast_add, length_singleton,
    Nat.cast_one] at hclosed hsend
  have hsizeCast : (key.text.length + val.length + 64 : Int) =
      (key.text.length + val.length + 64 : Nat) := by omega
  rw [dbset, if_neg (by omega)]
  change (snprintfTo _ _ (headText key.text val) >>= _) = _
  rw [hsizeMod, snprintfTo_eq (by omega), hsizeCast, hdata]
  simp only [ok_bind, hcopied, hclosed]
  exact hsend

/-- The arguments that callers pass for a key and its value. -/
def KvArg.ofPair (pair : CString × Bytes) : KvArg :=
  ⟨pair.1, pair.1.text.length, pair.2, pair.2.length⟩

def KeyArg.ofKey (key : CString) : KeyArg :=
  ⟨key, key.text.length⟩

def pairBytes (pairs : List (CString × Bytes)) : List (Bytes × Bytes) :=
  pairs.map fun pair => (pair.1.text, pair.2)

theorem kvsTotal_eq (pairs : List (CString × Bytes))
    (hpairs : ∀ pair ∈ pairs, pair.1.text.length < 2 ^ 31 ∧ pair.2.length < 2 ^ 31)
    (total : Int) :
    kvsTotal (pairs.map KvArg.ofPair) total =
      .ok (total + ((pairBytes pairs).flatMap pairText).length) := by
  induction pairs generalizing total with
  | nil => simp [kvsTotal, pairBytes]
  | cons pair pairs ih =>
    obtain ⟨hkey, hval⟩ := hpairs pair mem_cons_self
    rw [map_cons, kvsTotal]
    simp only [KvArg.ofPair, numlen_natCast hkey, numlen_natCast hval, ok_bind]
    rw [ih fun other hother => hpairs other (mem_cons_of_mem pair hother)]
    grind [pairBytes, pairText_length_eq]

theorem kvsFill_cons (pair : CString × Bytes) (rest : List KvArg) {data text : Bytes}
    {size : Nat} (hdata : Fills data size text)
    (hfits : text.length + (pairText (pair.1.text, pair.2)).length < size) :
    ∃ next, Fills next size (text ++ pairText (pair.1.text, pair.2)) ∧
      kvsFill (KvArg.ofPair pair :: rest) data text.length =
        kvsFill rest next (text ++ pairText (pair.1.text, pair.2)).length := by
  have hhead := headText_length pair.1.text pair.2
  obtain ⟨headed, hheaded, hheadedFills⟩ := sprintf_fills hdata
    (headText pair.1.text pair.2) (by omega)
  obtain ⟨copied, hcopied, hcopiedFills⟩ := memcpy_fills hheadedFills
    (Fills.self pair.2) (by rw [length_append]; omega)
  obtain ⟨closed, hclosed, hclosedFills⟩ := memset_fills hcopiedFills 10
    (by simp only [length_append]; omega)
  rw [append_assoc, append_assoc, ← append_assoc (headText _ _),
    headText_append] at hclosedFills
  refine ⟨closed, hclosedFills, ?_⟩
  simp only [length_append, Int.natCast_add] at hcopied hclosed
  rw [kvsFill]
  simp_all [headText, ok_bind, KvArg.ofPair, Nat.add_assoc]

theorem kvsFill_eq (pairs : List (CString × Bytes)) {data text : Bytes} {size : Nat}
    (hdata : Fills data size text)
    (hfits : text.length + ((pairBytes pairs).flatMap pairText).length < size) :
    ∃ next, Fills next size (text ++ (pairBytes pairs).flatMap pairText) ∧
      kvsFill (pairs.map KvArg.ofPair) data text.length =
        .ok (next, (text ++ (pairBytes pairs).flatMap pairText).length) := by
  induction pairs generalizing data text with
  | nil => exact ⟨data, by simpa [pairBytes] using hdata, by simp [kvsFill, pairBytes]⟩
  | cons pair pairs ih =>
    simp only [pairBytes, map_cons, flatMap_cons, length_append] at hfits ⊢
    obtain ⟨next, hnext, hround⟩ :=
      kvsFill_cons pair (pairs.map KvArg.ofPair) hdata (by omega)
    obtain ⟨last, hlast, hrest⟩ := ih hnext
      (by simp only [pairBytes, length_append]; omega)
    simp_all [pairBytes]

theorem keysTotal_eq (keys : List CString)
    (hkeys : ∀ key ∈ keys, key.text.length < 2 ^ 31) (total : Int) :
    keysTotal (keys.map KeyArg.ofKey) total =
      .ok (total + ((keys.map CString.text).flatMap blockText).length) := by
  induction keys generalizing total with
  | nil => simp [keysTotal]
  | cons key keys ih =>
    have hkey := hkeys key mem_cons_self
    rw [map_cons, keysTotal]
    simp only [KeyArg.ofKey, numlen_natCast hkey, ok_bind]
    rw [ih fun other hother => hkeys other (mem_cons_of_mem key hother)]
    grind [blockText_length]

theorem keysFill_cons (key : CString) (rest : List KeyArg) {data text : Bytes}
    {size : Nat} (hdata : Fills data size text)
    (hfits : text.length + (blockText key.text).length < size) :
    ∃ next, Fills next size (text ++ blockText key.text) ∧
      keysFill (KeyArg.ofKey key :: rest) data text.length =
        keysFill rest next (text ++ blockText key.text).length := by
  obtain ⟨next, hnext, hnextFills⟩ := sprintf_fills hdata (blockText key.text) hfits
  grind [keysFill.eq_2, KeyArg.ofKey, line_line_eq, ok_bind]

theorem keysFill_eq (keys : List CString) {data text : Bytes} {size : Nat}
    (hdata : Fills data size text)
    (hfits : text.length + ((keys.map CString.text).flatMap blockText).length < size) :
    ∃ next, Fills next size (text ++ (keys.map CString.text).flatMap blockText) ∧
      keysFill (keys.map KeyArg.ofKey) data text.length =
        .ok (next, (text ++ (keys.map CString.text).flatMap blockText).length) := by
  induction keys generalizing data text with
  | nil => exact ⟨data, by simpa using hdata, by simp [keysFill]⟩
  | cons key keys ih =>
    simp only [map_cons, flatMap_cons, length_append] at hfits ⊢
    obtain ⟨next, hnext, hround⟩ :=
      keysFill_cons key (keys.map KeyArg.ofKey) hdata (by omega)
    obtain ⟨last, hlast, hrest⟩ := ih hnext
      (by simp only [length_append]; omega)
    refine ⟨last, by simpa using hlast, ?_⟩
    rw [hround, hrest]
    simp

theorem dbmultiSet_eq (pairs : List (CString × Bytes)) (hpairs : pairs ≠ [])
    (hfits : Fits .multiSet (pairFields (pairBytes pairs))) :
    dbmultiSet (pairs.map KvArg.ofPair) =
      .ok (requestText .multiSet (pairFields (pairBytes pairs))) := by
  have hpos := length_pos_iff.mpr hpairs
  have hbody := flatMap_pairText (pairBytes pairs)
  have hlengths : ∀ pair ∈ pairs,
      pair.1.text.length < 2 ^ 31 ∧ pair.2.length < 2 ^ 31 := by
    intro pair hpair
    have hfield : ∀ field ∈ [pair.1.text, pair.2],
        field ∈ pairFields (pairBytes pairs) := by
      intro field hfield
      exact mem_flatMap.mpr
        ⟨(pair.1.text, pair.2), mem_map.mpr ⟨pair, hpair, rfl⟩, hfield⟩
    have hkey := hfits.arg_lt (hfield pair.1.text (by simp))
    have hval := hfits.arg_lt (hfield pair.2 (by simp))
    omega
  have htotal := kvsTotal_eq pairs hlengths 0
  rw [hbody] at htotal
  have hsize : ((pairFields (pairBytes pairs)).flatMap blockText).length + 64 < 2 ^ 32 := by
    rw [Fits] at hfits
    omega
  obtain ⟨data, hdataFills, hdata⟩ := kvsFill_eq pairs (wysMalloc_fills hsize)
    (by rw [length_nil, hbody]; omega)
  rw [nil_append, hbody] at hdataFills hdata
  rw [length_nil] at hdata
  have hsizeCast :
      (0 + ((pairFields (pairBytes pairs)).flatMap blockText).length + 64 : Int) =
        (((pairFields (pairBytes pairs)).flatMap blockText).length + 64 : Nat) := by
    omega
  rw [dbmultiSet, if_neg (by rw [length_map]; omega), htotal]
  simp only [ok_bind, hsizeCast, hdata]
  exact hfits.dbcmd_eq hdataFills

theorem dbmultiKeys_eq (cmd : DbCmd) (keys : List CString) (hkeys : keys ≠ [])
    (hfits : Fits cmd (keys.map CString.text)) :
    dbmultiKeys cmd (keys.map KeyArg.ofKey) =
      .ok (requestText cmd (keys.map CString.text)) := by
  have hpos := length_pos_iff.mpr hkeys
  have hlengths : ∀ key ∈ keys, key.text.length < 2 ^ 31 := by
    intro key hkey
    have hlength := hfits.arg_lt (mem_map.mpr ⟨key, hkey, rfl⟩)
    omega
  have htotal := keysTotal_eq keys hlengths 0
  have hsize : ((keys.map CString.text).flatMap blockText).length + 64 < 2 ^ 32 := by
    rw [Fits] at hfits
    omega
  obtain ⟨data, hdataFills, hdata⟩ := keysFill_eq keys (wysMalloc_fills hsize)
    (by rw [length_nil]; omega)
  rw [nil_append] at hdataFills hdata
  rw [length_nil] at hdata
  have hsizeCast : (0 + ((keys.map CString.text).flatMap blockText).length + 64 : Int) =
      (((keys.map CString.text).flatMap blockText).length + 64 : Nat) := by omega
  rw [dbmultiKeys, if_neg (by rw [length_map]; omega), htotal]
  simp only [ok_bind, hsizeCast, hdata]
  exact hfits.dbcmd_eq hdataFills

end Builders

/-- A call of one of the builders, with the lengths that belong to its texts. -/
inductive Call where
  | get (key : CString)
  | set (key : CString) (val : Bytes)
  | del (key : CString)
  | exists (key : CString)
  | multiSet (pairs : List (CString × Bytes))
  | multiGet (keys : List CString)
  | multiDel (keys : List CString)

def Call.command : Call → DbCmd
  | .get _ => .get
  | .set _ _ => .set
  | .del _ => .del
  | .exists _ => .exists
  | .multiSet _ => .multiSet
  | .multiGet _ => .multiGet
  | .multiDel _ => .multiDel

def Call.args : Call → List Bytes
  | .get key | .del key | .exists key => [key.text]
  | .set key val => [key.text, val]
  | .multiSet pairs => pairFields (pairBytes pairs)
  | .multiGet keys | .multiDel keys => keys.map CString.text

/-- The bytes that the call passes to `_dbdo`. -/
def Call.issue : Call → Except Stop Bytes
  | .get key => dbget (some key) key.text.length
  | .set key val => dbset (some key) key.text.length (some val) val.length
  | .del key => dbdel (some key) key.text.length
  | .exists key => dbexists (some key) key.text.length
  | .multiSet pairs => dbmultiSet (pairs.map KvArg.ofPair)
  | .multiGet keys => dbmultiGet (keys.map KeyArg.ofKey)
  | .multiDel keys => dbmultiDel (keys.map KeyArg.ofKey)

/-- There are arguments, and none of them is empty. -/
def Call.WellFormed (call : Call) : Prop :=
  call.args ≠ [] ∧ ∀ arg ∈ call.args, arg ≠ []

/-- Every builder passes on exactly its request and stays inside its blocks. -/
theorem issue_eq_requestText (call : Call) (hform : call.WellFormed)
    (hfits : Fits call.command call.args) :
    call.issue = .ok (requestText call.command call.args) := by
  obtain ⟨hargs, hnonempty⟩ := hform
  cases call with
  | get key => exact dbget_eq key (hnonempty _ mem_cons_self) hfits
  | set key val =>
    exact dbset_eq key val (hnonempty _ mem_cons_self)
      (hnonempty _ (mem_cons_of_mem _ mem_cons_self)) hfits
  | del key => exact dbdelExists_eq .del key (hnonempty _ mem_cons_self) hfits
  | «exists» key =>
    exact dbdelExists_eq .exists key (hnonempty _ mem_cons_self) hfits
  | multiSet pairs =>
    apply dbmultiSet_eq pairs _ hfits
    rintro rfl
    exact hargs rfl
  | multiGet keys =>
    apply dbmultiKeys_eq .multiGet keys _ hfits
    rintro rfl
    exact hargs rfl
  | multiDel keys =>
    apply dbmultiKeys_eq .multiDel keys _ hfits
    rintro rfl
    exact hargs rfl

/-- A value with a NUL and a newline in it. -/
theorem issue_eq_requestText_set :
    (Call.set ⟨ascii "uid", by decide⟩ [0, 10]).issue =
      .ok (ascii "3\nset\n3\nuid\n2\n" ++ [0, 10, 10, 10]) :=
  (issue_eq_requestText (.set ⟨ascii "uid", by decide⟩ [0, 10])
    ⟨by decide, by decide⟩ (by unfold Fits; decide)).trans
      (congrArg Except.ok (by decide))

section Scan

/-- The body of a scan request. -/
def scanArgs (start stop : CString) (max : Nat) : List Bytes :=
  [start.text, stop.text, decimal max]

theorem scanArgs_length (start stop : CString) (max : Nat) :
    ((scanArgs start stop max).flatMap blockText).length =
      (decimal start.text.length).length + start.text.length +
        ((decimal stop.text.length).length + stop.text.length) +
        ((decimal (decimal max).length).length + (decimal max).length) + 6 := by
  grind [scanArgs, blockText_length]

theorem scanArgs_length_le {start stop : CString} (hstart : start.text.length < 64)
    (hstop : stop.text.length < 64) {max : Nat} (hmaxS32 : max < 2 ^ 31) :
    (decimal max).length ≤ 10 ∧
      ((scanArgs start stop max).flatMap blockText).length ≤
        start.text.length + stop.text.length + (decimal max).length + 12 := by
  have hmaxWidth := width_le hmaxS32
  have hwidths : ∀ n < 64, (decimal n).length ≤ 2 := fun n hn =>
    decimal_length_le (by omega)
  have hstartWidth := hwidths _ hstart
  have hstopWidth := hwidths _ hstop
  have hmaxLenWidth := hwidths (decimal max).length (by omega)
  rw [scanArgs_length]
  omega

theorem dbcmd_of_neg (cmd : DbCmd) (data : Bytes) {datalen : Int} (hneg : datalen < 0)
    (request : Bytes) : dbcmd cmd (some data) datalen ≠ .ok request := by
  intro hdbcmd
  have hcopy : ∀ block cmdlen,
      copyData block cmdlen (some data) datalen = .error .outOfBounds := by
    intro block cmdlen
    rw [copyData, if_pos (by omega), memcpy, if_neg (by omega)]
  rw [dbcmd] at hdbcmd
  cases hnamed : sprintf (wysMalloc ((dbstr cmd).length + datalen + 64)) 0
      (line (printS32 (dbstr cmd).length) ++ line (dbstr cmd)) with
  | error stop =>
    simp only [hnamed] at hdbcmd
    exact absurd hdbcmd (by intro h; cases h)
  | ok named =>
    simp only [hnamed, ok_bind, hcopy] at hdbcmd
    exact absurd hdbcmd (by intro h; cases h)

theorem dbscan_eq_dbcmd (start stop : CString) (hstart : start.text.length < 64)
    (hstop : stop.text.length < 64) (max : Nat) (hmax : 1 ≤ max) (hmaxS32 : max < 2 ^ 31) :
    ∃ data size, Fills data size ((scanArgs start stop max).flatMap blockText) ∧
      dbscan (some start) start.text.length (some stop) stop.text.length max =
        dbcmd .scan (some data)
          (s8 ((scanArgs start stop max).flatMap blockText).length) := by
  obtain ⟨hmaxWidth, hlength⟩ := scanArgs_length_le hstart hstop hmaxS32
  have hsize : start.text.length + stop.text.length + (decimal max).length + 64 <
      2 ^ 32 := by omega
  obtain ⟨data, hdata, hdataFills⟩ := sprintf_fills (wysMalloc_fills hsize)
    ((scanArgs start stop max).flatMap blockText) (by rw [length_nil]; omega)
  rw [nil_append] at hdataFills
  rw [length_nil] at hdata
  refine ⟨data, _, hdataFills, ?_⟩
  have hbody : line (printS32 start.text.length) ++ line start.text ++
      line (printS32 stop.text.length) ++ line stop.text ++
      line (printS32 (decimal max).length) ++ line (printS32 max) =
        (scanArgs start stop max).flatMap blockText := by
    simp [printS32_natCast, line, blockText, scanArgs]
  have hsizeCast :
      (start.text.length + stop.text.length + (decimal max).length + 64 : Int) =
        (start.text.length + stop.text.length + (decimal max).length + 64 : Nat) := by
    omega
  rw [dbscan, if_neg (by omega), numlen_natCast hmaxS32]
  simp only [ok_bind, hbody, hsizeCast, hdata]

/-- A scan request is right as long as its body is shorter than 128 bytes. -/
theorem dbscan_eq_requestText_iff (start stop : CString)
    (hstart : start.text.length < 64) (hstop : stop.text.length < 64) {max : Nat}
    (hmax : 1 ≤ max) (hmaxS32 : max < 2 ^ 31) :
    dbscan (some start) start.text.length (some stop) stop.text.length max =
        .ok (requestText .scan [start.text, stop.text, decimal max]) ↔
      (decimal start.text.length).length + start.text.length +
        ((decimal stop.text.length).length + stop.text.length) +
        ((decimal (decimal max).length).length + (decimal max).length) + 6 < 128 := by
  obtain ⟨data, size, hdata, hscan⟩ :=
    dbscan_eq_dbcmd start stop hstart hstop max hmax hmaxS32
  obtain ⟨hmaxWidth, hlength⟩ := scanArgs_length_le hstart hstop hmaxS32
  rw [hscan, ← scanArgs_length]
  constructor
  · intro hencodes
    by_contra hlong
    grind [s8.eq_1, dbcmd_of_neg]
  · intro hshort
    have hs8 : s8 ((scanArgs start stop max).flatMap blockText).length =
        ((scanArgs start stop max).flatMap blockText).length := by
      rw [s8, Int.bmod_def]
      omega
    have hfits : Fits .scan (scanArgs start stop max) := by
      rw [Fits]
      have hname : (dbstr .scan).length = 4 := rfl
      omega
    rw [hs8]
    exact hfits.dbcmd_eq hdata

/-- A key of the given number of letters. -/
def letters (count : Nat) : CString where
  text := List.replicate count 97
  noNul := by simp

theorem dbscan_eq_requestText_short :
    dbscan (some (letters 13)) 13 (some (letters 12)) 12 1024 =
      .ok (requestText .scan [(letters 13).text, (letters 12).text, decimal 1024]) :=
  (dbscan_eq_requestText_iff (letters 13) (letters 12) (by decide) (by decide)
    (by decide) (by decide)).mpr (by decide)

/-- Keys of 56 and 57 bytes: the body has 128 bytes, and -128 is its length. -/
theorem dbscan_ne_requestText_long :
    dbscan (some (letters 56)) 56 (some (letters 57)) 57 1024 ≠
      .ok (requestText .scan [(letters 56).text, (letters 57).text, decimal 1024]) := by
  intro hencodes
  obtain ⟨data, size, _, hscan⟩ := dbscan_eq_dbcmd (letters 56) (letters 57)
    (by decide) (by decide) 1024 (by decide) (by decide)
  have hlength : ((scanArgs (letters 56) (letters 57) 1024).flatMap blockText).length =
      128 := (scanArgs_length (letters 56) (letters 57) 1024).trans (by decide)
  rw [hlength] at hscan
  exact dbcmd_of_neg .scan data (by decide) _ (hscan.symm.trans hencodes)

end Scan

end Request

end WaterWall
