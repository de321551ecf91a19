/-
The tables in which the actions of a group are added up: at night from the
tables of its users, by `ww_auto_save_syn_to_group`, and later from their saved
records, by `resave_usergroup_calc_action`.  Every way of adding to a table is a
merge, and a merge keeps what is linked and what has been counted.
-/
import WaterWall.ActionTable

namespace WaterWall

open ByteText List

/-- AN_CALC_ATTEMPT. -/
def anCalcAttempt : UInt32 := 1

/-- An `an_user_calc_act_t`; its names are the C strings at their addresses. -/
structure SavedAct where
  actName : CString
  proName : CString
  time : UInt32
  type : UInt32
  category : UInt32
  keyClick : UInt32
  mouClick : UInt32
  deriving DecidableEq

def SavedAct.totals (saved : SavedAct) : Totals :=
  (saved.time, saved.keyClick, saved.mouClick)

/-- `snprintf(array, size, "%s", text)`: what stands behind the NUL stays. -/
def snprintfS (size : Nat) (array text : Bytes) : Bytes :=
  text.take (size - 1) ++ 0 :: array.drop ((text.take (size - 1)).length + 1)

namespace ActionTable

/-- `ww_action_st_find_by_hash_name_type`. -/
def findByHashNameType (table : ActionTable) (name : Bytes) (type : UInt32) : Option Nat :=
  (table.buckets (wwActionNameHash name)).find? fun id =>
    let node := table.heap id
    if type = otBrowserCloseUrl then decide (node.actText = name)
    else if type = otWindowClose then decide (node.proText = name)
    else false

/-- `ww_action_st_hash_name_type_find_create`; a new node is in no list yet. -/
def hashNameTypeFindCreate (table : ActionTable) (proName actName : Bytes) (type : UInt32) :
    Option (Nat × ActionTable) :=
  if type ≠ otWindowClose ∧ type ≠ otBrowserCloseUrl then none
  else
    let name := if type = otWindowClose then proName else actName
    match table.findByHashNameType name type with
    | some id => some (id, table)
    | none =>
      some (table.next,
        { table with
          heap := Function.update table.heap table.next .zero
          next := table.next + 1 })

/-- `ww_auto_save_syn_to_group`. -/
def synToGroup (table : ActionTable) (action : ActionNode) : Option ActionTable := do
  let (id, table) ← table.userNameTypeFindCreate action.proText action.actText action.type
    action.category
  let node :=
    { table.heap id with
      actName := strncpy 48 action.actText
      proName := strncpy 32 action.proText
      type := action.type
      time := 0
      category := action.category }
  let table := if (table.heap id).type = 0 then table.link id node node.index else table
  return table.add id action.totals

/-- The loop body of `resave_usergroup_calc_action` for one action of a saved record. -/
def resaveAct (table : ActionTable) (saved : SavedAct) : Option ActionTable := do
  let (id, table) ← table.hashNameTypeFindCreate saved.proName.text saved.actName.text
    saved.type
  let node :=
    { table.heap id with
      proName := snprintfS 32 (table.heap id).proName saved.proName.text
      actName := snprintfS 48 (table.heap id).actName saved.actName.text
      type := saved.type
      time := 0
      category := if saved.category = anCalcAttempt then 1 else 0 }
  let table := if (table.heap id).type = 0 then table.link id node node.index else table
  return table.add id saved.totals

end ActionTable

/-- A window or a URL. -/
def Counts (type : UInt32) : Prop :=
  type = otWindowClose ∨ type = otBrowserCloseUrl

instance (type : UInt32) : Decidable (Counts type) :=
  inferInstanceAs (Decidable (_ ∨ _))

theorem Counts.ne_zero {type : UInt32} (hcounts : Counts type) : type ≠ 0 := by
  rcases hcounts with rfl | rfl
  · decide
  · decide

/-- A node that two names have been copied into. -/
def filledNode (act pro : Bytes) (type category : UInt32) : ActionNode :=
  { ActionNode.zero with
    actName := strncpy 48 act
    proName := strncpy 32 pro
    type := type
    category := category }

/-- The node that a group gets for an action. -/
def ActionNode.groupNode (action : ActionNode) : ActionNode :=
  filledNode action.actText action.proText action.type action.category

/-- The name under which a saved action is looked up. -/
def SavedAct.name (saved : SavedAct) : Bytes :=
  if saved.type = otWindowClose then saved.proName.text else saved.actName.text

/-- The node that a group gets for a saved action. -/
def SavedAct.groupNode (saved : SavedAct) : ActionNode :=
  filledNode (saved.actName.text.take 47) (saved.proName.text.take 31) saved.type
    (if saved.category = anCalcAttempt then 1 else 0)

section Merges

variable {table : ActionTable}

theorem synToGroup_eq {action : ActionNode} (hcounts : Counts action.type)
    (htyped : ∀ id, table.findByUserNameType action.group.name action.type
      action.category = some id → (table.heap id).type ≠ 0) :
    table.synToGroup action = some (table.merge
      (table.findByUserNameType action.group.name action.type action.category)
      action.groupNode action.groupNode.index action.totals) := by
  have hvalid : ¬ (action.type ≠ otWindowClose ∧ action.type ≠ otBrowserCloseUrl) := by
    rintro ⟨hwindow, hurl⟩
    exact hcounts.elim hwindow hurl
  have hname : (if action.type = otWindowClose then action.proText else action.actText) =
      action.group.name := rfl
  rw [ActionTable.synToGroup, ActionTable.userNameTypeFindCreate, if_neg hvalid]
  simp only [hname]
  cases hfind : table.findByUserNameType action.group.name action.type action.category with
  | some id => simp [htyped id hfind, ActionTable.merge]
  | none =>
    simp [ActionTable.merge, ActionTable.linkNew, ActionNode.groupNode, filledNode,
      ActionNode.zero]

theorem snprintfS_zero {size : Nat} (hsize : 0 < size) (text : Bytes) :
    snprintfS size (List.replicate size 0) text = strncpy size (text.take (size - 1)) := by
  have hlength : (text.take (size - 1)).length ≤ size - 1 := length_take_le _ _
  have hpad : size - (text.take (size - 1)).length =
      size - ((text.take (size - 1)).length + 1) + 1 := by omega
  have hkept : (text.take (size - 1)).take size = text.take (size - 1) :=
    take_of_length_le (by omega)
  rw [snprintfS, strncpy, drop_replicate, hpad, replicate_succ, hkept]

theorem resaveAct_eq {saved : SavedAct} (hcounts : Counts saved.type)
    (htyped : ∀ id, table.findByHashNameType saved.name saved.type = some id →
      (table.heap id).type ≠ 0) :
    table.resaveAct saved = some (table.merge
      (table.findByHashNameType saved.name saved.type)
      saved.groupNode saved.groupNode.index saved.totals) := by
  have hvalid : ¬ (saved.type ≠ otWindowClose ∧ saved.type ≠ otBrowserCloseUrl) := by
    rintro ⟨hwindow, hurl⟩
    exact hcounts.elim hwindow hurl
  rw [ActionTable.resaveAct, ActionTable.hashNameTypeFindCreate, if_neg hvalid]
  have hname : (if saved.type = otWindowClose then saved.proName.text
      else saved.actName.text) = saved.name := rfl
  simp only [hname]
  cases hfind : table.findByHashNameType saved.name saved.type with
  | some id => simp [htyped id hfind, ActionTable.merge]
  | none =>
    have hact : snprintfS 48 ActionNode.zero.actName saved.actName.text =
        strncpy 48 (saved.actName.text.take 47) := snprintfS_zero (by decide) _
    have hpro : snprintfS 32 ActionNode.zero.proName saved.proName.text =
        strncpy 32 (saved.proName.text.take 31) := snprintfS_zero (by decide) _
    simp only [Option.bind_eq_bind, Option.bind_some, Function.update_self,
      ActionNode.zero_type, ↓reduceIte, hact, hpro]
    rfl

end Merges

/-- What is chained in a bucket is on the list, once, and has a type. -/
structure Linked (table : ActionTable) : Prop where
  nodup : table.actionList.Nodup
  fresh : ∀ id ∈ table.actionList, id < table.next
  typed : ∀ id ∈ table.actionList, (table.heap id).type ≠ 0
  listed : ∀ bucket, table.buckets bucket ⊆ table.actionList

/-- The totals over `action_list`. -/
def ActionTable.sum (table : ActionTable) : Totals :=
  (table.nodes.map ActionNode.totals).sum

section Linking

variable {table : ActionTable} {found : Option Nat} {node : ActionNode} {bucket id : Nat}

theorem linked_empty : Linked .empty :=
  ⟨nodup_nil, by simp [ActionTable.empty], by simp [ActionTable.empty],
    fun _ => List.Subset.refl _⟩

theorem mem_of_findByUserNameType {name : Bytes} {type category : UInt32}
    (hfind : table.findByUserNameType name type category = some id) :
    id ∈ table.buckets (wwActionNameHash name) :=
  mem_of_find?_eq_some hfind

theorem mem_of_findByHashNameType {name : Bytes} {type : UInt32}
    (hfind : table.findByHashNameType name type = some id) :
    id ∈ table.buckets (wwActionNameHash name) :=
  mem_of_find?_eq_some hfind

theorem Linked.add (hlinked : Linked table) (id : Nat) (amount : Totals) :
    Linked (table.add id amount) := by
  refine ⟨hlinked.nodup, hlinked.fresh, ?_, hlinked.listed⟩
  intro other hother
  by_cases hsame : other = id
  · rw [hsame, ActionTable.heap_add_self, ← hsame]
    exact hlinked.typed other hother
  · rw [ActionTable.heap_add_of_ne _ hsame]
    exact hlinked.typed other hother

theorem Linked.linkNew (hlinked : Linked table) (htype : node.type ≠ 0) (bucket : Nat) :
    Linked (table.linkNew node bucket) := by
  have hother : ∀ id ∈ table.actionList, id ≠ table.next :=
    fun id hid => Nat.ne_of_lt (hlinked.fresh id hid)
  refine ⟨?_, ?_, ?_, ?_⟩
  · change (table.actionList ++ [table.next]).Nodup
    rw [nodup_append]
    grind [nodup]
  · change ∀ id ∈ table.actionList ++ [table.next], id < table.next + 1
    intro id hid
    rw [mem_append, mem_singleton] at hid
    rcases hid with hold | rfl
    · exact Nat.lt_succ_of_lt (hlinked.fresh id hold)
    · exact Nat.lt_succ_self _
  · change ∀ id ∈ table.actionList ++ [table.next], _
    intro id hid
    rw [mem_append, mem_singleton] at hid
    rcases hid with hold | rfl
    · rw [ActionTable.heap_linkNew_of_ne _ (hother id hold)]
      exact hlinked.typed id hold
    · rw [ActionTable.heap_linkNew_self]
      exact htype
  · intro other
    change Function.update table.buckets bucket (table.next :: table.buckets bucket) other ⊆
      table.actionList ++ [table.next]
    by_cases hsame : other = bucket
    · rw [hsame, Function.update_self, cons_subset]
      exact ⟨mem_append_right _ (mem_singleton_self _),
        subset_append_of_subset_left _ (hlinked.listed bucket)⟩
    · rw [Function.update_of_ne hsame]
      exact subset_append_of_subset_left _ (hlinked.listed other)

theorem Linked.merge (hlinked : Linked table) (htype : node.type ≠ 0) (found : Option Nat)
    (bucket : Nat) (amount : Totals) : Linked (table.merge found node bucket amount) := by
  cases found with
  | some id => exact hlinked.add id amount
  | none => exact (hlinked.linkNew htype bucket).add _ amount

theorem sum_add (hlinked : Linked table) (hid : id ∈ table.actionList) (amount : Totals) :
    (table.add id amount).sum = table.sum + amount := by
  have hnodup := hlinked.nodup
  simp only [ActionTable.sum, ActionTable.nodes, map_map]
  change (table.actionList.map fun other => ((table.add id amount).heap other).totals).sum =
    (table.actionList.map fun other => (table.heap other).totals).sum + amount
  obtain ⟨before, after, hsplit⟩ := append_of_mem hid
  rw [hsplit] at hnodup ⊢
  have hbefore : ∀ other ∈ before, other ≠ id := by
    grind
  have hafter : ∀ other ∈ after, other ≠ id := by
    grind
  have hsame : ∀ ids : List Nat, (∀ other ∈ ids, other ≠ id) →
      ids.map (fun other => ((table.add id amount).heap other).totals) =
        ids.map fun other => (table.heap other).totals := by
    simp_all
  have hself : ((table.add id amount).heap id).totals = (table.heap id).totals + amount := by
    rw [ActionTable.heap_add_self]
    rfl
  grind

theorem sum_linkNew (hlinked : Linked table) (hzero : node.totals = 0) (bucket : Nat) :
    (table.linkNew node bucket).sum = table.sum := by
  simp only [ActionTable.sum, ActionTable.nodes, map_map]
  change ((table.actionList ++ [table.next]).map fun id =>
      ((table.linkNew node bucket).heap id).totals).sum =
    (table.actionList.map fun id => (table.heap id).totals).sum
  have hold : table.actionList.map (fun id => ((table.linkNew node bucket).heap id).totals) =
      table.actionList.map fun id => (table.heap id).totals := by
    apply map_congr_left
    intro id hid
    rw [ActionTable.heap_linkNew_of_ne _ (Nat.ne_of_lt (hlinked.fresh id hid))]
  rw [map_append, sum_append, hold, map_singleton, sum_singleton,
    ActionTable.heap_linkNew_self, hzero, add_zero]

theorem sum_merge (hlinked : Linked table) (htype : node.type ≠ 0) (hzero : node.totals = 0)
    (hfound : ∀ id, found = some id → id ∈ table.actionList) (bucket : Nat)
    (amount : Totals) : (table.merge found node bucket amount).sum = table.sum + amount := by
  cases hfind : found with
  | some id => exact sum_add hlinked (hfound id hfind) amount
  | none =>
    have hnext : table.next ∈ (table.linkNew node bucket).actionList :=
      mem_append_right _ (mem_singleton_self _)
    rw [ActionTable.merge, sum_add (hlinked.linkNew htype bucket) hnext,
      sum_linkNew hlinked hzero]

end Linking

end WaterWall
