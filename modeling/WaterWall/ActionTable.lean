/-
The table in which resave_user_calc_action adds up a user's closed windows and
URLs: nodes on `action_list`, found through `action_hash_table` by
`ww_action_st_find_by_user_name_type`.  It sorts the records by first match.
-/
import WaterWall.ByteText

namespace WaterWall

open ByteText List

/-- OT_WINDOW_CLOSE. -/
def otWindowClose : UInt32 := 151

/-- OT_BROWSER_CLOSE_URL. -/
def otBrowserCloseUrl : UInt32 := 301

/-- An `action_st` in host byte order. -/
structure ActionRec where
  startTime : UInt64
  endTime : UInt64
  type : UInt32
  category : UInt32
  process : CString
  dataLen : UInt32
  keyClick : UInt32
  mouClick : UInt32
  data : Bytes
  deriving DecidableEq

/-- `data` of a `wnd_swtich_log_st`. -/
def ActionRec.wndText (record : ActionRec) : Bytes :=
  cstr (record.data.drop 4)

/-- `data` of a `browser_action_log_st`. -/
def ActionRec.urlText (record : ActionRec) : Bytes :=
  cstr (record.data.drop 12)

/-- `ww_action_list_st`, without its links. -/
structure ActionNode where
  actName : Bytes
  proName : Bytes
  time : UInt32
  type : UInt32
  keyClick : UInt32
  mouClick : UInt32
  category : UInt32
  deriving DecidableEq, Repr

def strncpy (size : Nat) (text : Bytes) : Bytes :=
  text.take size ++ List.replicate (size - text.length) 0

/-- A node as `wys_malloc` leaves it. -/
def ActionNode.zero : ActionNode :=
  ⟨List.replicate 48 0, List.replicate 32 0, 0, 0, 0, 0, 0⟩

@[simp]
theorem ActionNode.zero_type : ActionNode.zero.type = 0 := rfl

/-- A `_u32` in the memory of an i386. -/
def le32 (value : UInt32) : Bytes :=
  [value.toUInt8, (value >>> 8).toUInt8, (value >>> 16).toUInt8, (value >>> 24).toUInt8]

/-- What stands behind the names of a node. -/
def ActionNode.fieldBytes (node : ActionNode) : Bytes :=
  le32 node.time ++ le32 node.type ++ le32 node.keyClick ++ le32 node.mouClick ++
    le32 node.category

/-- `act_name` as `strcmp` reads it: a name that fills the array runs on into
`pro_name`, and from there into the counters. -/
def ActionNode.actText (node : ActionNode) : Bytes :=
  cstr (node.actName ++ (node.proName ++ node.fieldBytes))

def ActionNode.proText (node : ActionNode) : Bytes :=
  cstr (node.proName ++ node.fieldBytes)

/-- `ww_action_name_hash`; the bytes are signed. -/
def wwActionNameHash (name : Bytes) : Nat :=
  (((cstr name).take 8).foldl (fun index byte => index + byte.toInt8.toInt32.toUInt32)
    (0 : UInt32) &&& 0xff).toNat

/-- The bucket that a node is linked into. -/
def ActionNode.index (node : ActionNode) : Nat :=
  if node.type = otBrowserCloseUrl then wwActionNameHash node.actName
  else if node.type = otWindowClose then wwActionNameHash node.proName
  else 0

/-- `a == b || (a && b)`. -/
def sameClass (left right : UInt32) : Bool :=
  left == right || (left != 0 && right != 0)

/-- The nodes by address, `action_list` and `action_hash_table`. -/
structure ActionTable where
  heap : Nat → ActionNode
  next : Nat
  actionList : List Nat
  buckets : Nat → List Nat

namespace ActionTable

def empty : ActionTable :=
  ⟨fun _ => .zero, 0, [], fun _ => []⟩

/-- `ww_action_st_find_by_user_name_type`. -/
def findByUserNameType (table : ActionTable) (name : Bytes) (type category : UInt32) :
    Option Nat :=
  (table.buckets (wwActionNameHash name)).find? fun id =>
    let node := table.heap id
    if type = otBrowserCloseUrl then
      decide (node.actText = name) && sameClass node.category category
    else if type = otWindowClose then
      decide (node.proText = name) && sameClass node.category category
    else false

/-- `ww_action_st_user_name_type_find_create`; a new node is in no list yet. -/
def userNameTypeFindCreate (table : ActionTable) (proName actName : Bytes)
    (type category : UInt32) : Option (Nat × ActionTable) :=
  if type ≠ otWindowClose ∧ type ≠ otBrowserCloseUrl then none
  else
    let name := if type = otWindowClose then proName else actName
    match table.findByUserNameType name type category with
    | some id => some (id, table)
    | none =>
      some (table.next,
        { table with
          heap := Function.update table.heap table.next .zero
          next := table.next + 1 })

/-- Fills a node and links it at the tail of `action_list` and the head of its
bucket. -/
def link (table : ActionTable) (id : Nat) (node : ActionNode) (bucket : Nat) : ActionTable :=
  { table with
    heap := Function.update table.heap id node
    actionList := table.actionList ++ [id]
    buckets := Function.update table.buckets bucket (id :: table.buckets bucket) }

end ActionTable

def ActionRec.windowNode (record : ActionRec) : ActionNode :=
  { ActionNode.zero with
    actName := strncpy 48 record.wndText
    proName := strncpy 32 record.process.text
    type := otWindowClose
    category := record.category }

/-- The category of a URL is not stored. -/
def ActionRec.urlNode (record : ActionRec) : ActionNode :=
  { ActionNode.zero with
    actName := strncpy 48 record.urlText
    proName := strncpy 32 record.process.text
    type := otBrowserCloseUrl }

namespace ActionTable

/-- The node for a record, found or made. -/
def nodeFor (table : ActionTable) (record : ActionRec) : Option (Nat × ActionTable) :=
  if record.type = otWindowClose then do
    let (id, table) ← table.userNameTypeFindCreate record.process.text [] otWindowClose
      record.category
    let node := record.windowNode
    return (id, if (table.heap id).type = 0 then
      table.link id node (wwActionNameHash node.proName) else table)
  else do
    let (id, table) ← table.userNameTypeFindCreate [] record.urlText otBrowserCloseUrl
      record.category
    let node := record.urlNode
    return (id, if (table.heap id).type = 0 then
      table.link id node (wwActionNameHash node.actName) else table)

/-- `action_list` as a list of nodes. -/
def nodes (table : ActionTable) : List ActionNode :=
  table.actionList.map table.heap

end ActionTable

/-- What a node or a record is counted under. -/
@[ext]
structure ActionGroup where
  type : UInt32
  name : Bytes
  violation : Bool
  deriving DecidableEq, Repr

def ActionRec.group (record : ActionRec) : ActionGroup where
  type := record.type
  name := if record.type = otWindowClose then record.process.text else record.urlText
  violation := record.category != 0

def ActionNode.group (node : ActionNode) : ActionGroup where
  type := node.type
  name := if node.type = otWindowClose then node.proText else node.actText
  violation := node.category != 0

/-- Time, key clicks and mouse clicks. -/
abbrev Totals : Type := UInt32 × UInt32 × UInt32

def ActionNode.totals (node : ActionNode) : Totals :=
  (node.time, node.keyClick, node.mouClick)

/-- A record that the loop does not skip. -/
def ActionRec.Counted (record : ActionRec) : Prop :=
  (record.type = otWindowClose ∨ record.type = otBrowserCloseUrl) ∧ record.dataLen ≠ 0

instance (record : ActionRec) : Decidable record.Counted :=
  inferInstanceAs (Decidable (_ ∧ _))

def ActionRec.node (record : ActionRec) : ActionNode :=
  if record.type = otWindowClose then record.windowNode else record.urlNode

section Names

theorem zero_not_mem_cstr (buffer : Bytes) : (0 : Byte) ∉ cstr buffer := by
  intro hmem
  have hne := mem_takeWhile_imp hmem
  simp at hne

theorem cstr_strncpy_append {size : Nat} {text : Bytes} (hnul : (0 : Byte) ∉ text)
    (hfits : text.length < size) (rest : Bytes) : cstr (strncpy size text ++ rest) = text := by
  obtain ⟨extra, rfl⟩ := Nat.exists_eq_add_of_lt hfits
  have hpad : text.length + extra + 1 - text.length = extra + 1 := by omega
  rw [strncpy, take_of_length_le (by omega), hpad, replicate_succ,
    append_assoc, cons_append]
  exact cstr_append_nul hnul _

theorem cstr_strncpy {size : Nat} {text : Bytes} (hnul : (0 : Byte) ∉ text)
    (hfits : text.length < size) : cstr (strncpy size text) = text := by
  have hread := cstr_strncpy_append hnul hfits []
  rwa [append_nil] at hread

theorem length_strncpy (size : Nat) (text : Bytes) : (strncpy size text).length = size := by
  rw [strncpy, length_append, length_take, length_replicate]
  omega

theorem cstr_append_of_not_mem {array : Bytes} (hnul : (0 : Byte) ∉ array) (rest : Bytes) :
    cstr (array ++ rest) = array ++ cstr rest := by
  have hself := cstr_eq_self hnul
  rw [cstr] at hself
  rw [cstr, takeWhile_append, hself, if_pos rfl]
  rfl

theorem cstr_append_of_mem {array : Bytes} (hnul : (0 : Byte) ∈ array) (rest : Bytes) :
    cstr (array ++ rest) = cstr array := by
  rw [cstr, takeWhile_append, if_neg]
  · rfl
  grind [takeWhile_sublist, takeWhile_eq_self_iff]

theorem wwActionNameHash_append {array : Bytes} (hlength : 8 ≤ array.length) (rest : Bytes) :
    wwActionNameHash (cstr (array ++ rest)) = wwActionNameHash array := by
  have hfront : (cstr (array ++ rest)).take 8 = (cstr array).take 8 := by
    by_cases hnul : (0 : Byte) ∈ array
    · rw [cstr_append_of_mem hnul]
    · rw [cstr_append_of_not_mem hnul, cstr_eq_self hnul, take_append_of_le_length hlength]
  rw [wwActionNameHash, wwActionNameHash, cstr_eq_self (zero_not_mem_cstr _), hfront]

theorem wwActionNameHash_strncpy {size : Nat} {text : Bytes} (hnul : (0 : Byte) ∉ text)
    (hsize : 8 ≤ size) : wwActionNameHash (strncpy size text) = wwActionNameHash text := by
  by_cases hfits : text.length < size
  · rw [wwActionNameHash, wwActionNameHash, cstr_strncpy hnul hfits, cstr_eq_self hnul]
  · have hkept : (0 : Byte) ∉ text.take size := fun hmem => hnul (mem_of_mem_take hmem)
    have hpad : size - text.length = 0 := by omega
    rw [strncpy, hpad, replicate_zero, append_nil, wwActionNameHash,
      wwActionNameHash, cstr_eq_self hkept, cstr_eq_self hnul, take_take,
      Nat.min_eq_left hsize]

end Names

def ActionNode.withTotals (node : ActionNode) (totals : Totals) : ActionNode :=
  { node with time := totals.1, keyClick := totals.2.1, mouClick := totals.2.2 }

namespace ActionTable

def add (table : ActionTable) (id : Nat) (amount : Totals) : ActionTable :=
  { table with
    heap := Function.update table.heap id
      ((table.heap id).withTotals ((table.heap id).totals + amount)) }

/-- Makes a node and links it. -/
def linkNew (table : ActionTable) (node : ActionNode) (bucket : Nat) : ActionTable :=
  link
    { table with
      heap := Function.update table.heap table.next .zero
      next := table.next + 1 }
    table.next node bucket

/-- Adds to the node that was found, or to a new one. -/
def merge (table : ActionTable) (found : Option Nat) (node : ActionNode) (bucket : Nat)
    (amount : Totals) : ActionTable :=
  match found with
  | some id => table.add id amount
  | none => (table.linkNew node bucket).add table.next amount

@[simp]
theorem heap_add_self (table : ActionTable) (id : Nat) (amount : Totals) :
    (table.add id amount).heap id =
      (table.heap id).withTotals ((table.heap id).totals + amount) :=
  Function.update_self _ _ _

@[simp]
theorem heap_add_of_ne (table : ActionTable) {id other : Nat} (hne : other ≠ id)
    (amount : Totals) : (table.add id amount).heap other = table.heap other :=
  Function.update_of_ne hne _ _

@[simp]
theorem heap_linkNew_self (table : ActionTable) (node : ActionNode) (bucket : Nat) :
    (table.linkNew node bucket).heap table.next = node :=
  Function.update_self _ _ _

@[simp]
theorem heap_linkNew_of_ne (table : ActionTable) {other : Nat} (hne : other ≠ table.next)
    (node : ActionNode) (bucket : Nat) :
    (table.linkNew node bucket).heap other = table.heap other := by
  simp [linkNew, link, hne]

end ActionTable

section Accounting

variable {record : ActionRec}

theorem nodeFor_eq (hcounted : record.Counted) (table : ActionTable) :
    table.nodeFor record =
      match table.findByUserNameType record.group.name record.type record.category with
      | some id =>
        some (id, if (table.heap id).type = 0 then
          table.link id record.node record.node.index else table)
      | none => some (table.next, table.linkNew record.node record.node.index) := by
  have hne : otBrowserCloseUrl ≠ otWindowClose := by decide
  rcases hcounted.1 with htype | htype
  · have hnode : record.node = record.windowNode := if_pos htype
    have hname : record.group.name = record.process.text := if_pos htype
    have hindex : record.windowNode.index = wwActionNameHash record.windowNode.proName := rfl
    rw [hname, hnode, hindex, htype]
    cases hfind : table.findByUserNameType record.process.text otWindowClose
        record.category with
    | some id =>
      simp [ActionTable.nodeFor, ActionTable.userNameTypeFindCreate, htype, hfind]
    | none =>
      simp [ActionTable.nodeFor, ActionTable.userNameTypeFindCreate, htype, hfind,
        ActionTable.linkNew]
  · have hother : record.type ≠ otWindowClose := by
      rw [htype]
      exact hne
    have hnode : record.node = record.urlNode := if_neg hother
    have hname : record.group.name = record.urlText := if_neg hother
    have hindex : record.urlNode.index = wwActionNameHash record.urlNode.actName := rfl
    rw [hname, hnode, hindex, htype]
    cases hfind : table.findByUserNameType record.urlText otBrowserCloseUrl
        record.category with
    | some id =>
      simp [ActionTable.nodeFor, ActionTable.userNameTypeFindCreate, htype, hne, hfind]
    | none =>
      simp [ActionTable.nodeFor, ActionTable.userNameTypeFindCreate, htype, hne, hfind,
        ActionTable.linkNew]

end Accounting

end WaterWall
