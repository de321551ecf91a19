/-
Windows are chained under the hash of their process name and URLs under that of
their domain, in one table, and the lookups compare a name but never a type.  A
node is found for the wrong type just when its two names have the same hash.
-/
import WaterWall.GroupTable

namespace WaterWall

open ByteText List

/-- What is put into a table: an action of a user's table, a raw record with the
counts that are added for it, or an action of a saved record. -/
inductive TableStep where
  | syn (action : ActionNode)
  | raw (record : ActionRec) (added : Totals)
  | resave (saved : SavedAct)

/-- The node that a step makes when it finds none. -/
def TableStep.node : TableStep → ActionNode
  | .syn action => action.groupNode
  | .raw record _ => record.node
  | .resave saved => saved.groupNode

/-- The title or domain and the process name of a step have different hashes. -/
def TableStep.NamesApart : TableStep → Prop
  | .syn action => wwActionNameHash action.actText ≠ wwActionNameHash action.proText
  | .raw record _ =>
    wwActionNameHash (if record.type = otWindowClose then record.wndText
      else record.urlText) ≠ wwActionNameHash record.process.text
  | .resave saved => wwActionNameHash saved.actName.text ≠ wwActionNameHash saved.proName.text

namespace ActionTable

/-- The result of `ww_auto_save_syn_to_group` is not looked at, and records of other
types are skipped; a saved action of another type ends `resave_usergroup_calc_action`. -/
def step (table : ActionTable) : TableStep → Option ActionTable
  | .syn action => some ((table.synToGroup action).getD table)
  | .raw record added =>
    if record.Counted then do
      let (id, table) ← table.nodeFor record
      return table.add id added
    else some table
  | .resave saved => table.resaveAct saved

def run (table : ActionTable) : List TableStep → Option ActionTable
  | [] => some table
  | step :: steps => do
      let table ← table.step step
      table.run steps

/-- A lookup for a type gives a node of that type. -/
def KeepsTypes (table : ActionTable) : Prop :=
  ∀ name type category id, Counts type →
    (table.findByUserNameType name type category = some id ∨
      table.findByHashNameType name type = some id) →
    (table.heap id).type = type

def Makes (table : ActionTable) (step : TableStep) : Prop :=
  ∃ after, table.step step = some after ∧ table.next < after.next

/-- The nodes in the buckets have a property. -/
def Chains (P : Nat → ActionNode → Prop) (table : ActionTable) : Prop :=
  ∀ bucket, ∀ id ∈ table.buckets bucket, P bucket (table.heap id)

end ActionTable

/-- The table after some of the steps. -/
def Reaches (steps : List TableStep) (table : ActionTable) : Prop :=
  ∃ before after, steps = before ++ after ∧ ActionTable.empty.run before = some table

section Steps

variable {table next : ActionTable} {entry : TableStep}

theorem zero_not_mem_take (name : CString) (size : Nat) : (0 : Byte) ∉ name.text.take size :=
  fun hmem => name.noNul (mem_of_mem_take hmem)

theorem wwActionNameHash_take (name : CString) {size : Nat} (hsize : 8 ≤ size) :
    wwActionNameHash (name.text.take size) = wwActionNameHash name.text := by
  rw [wwActionNameHash, wwActionNameHash, cstr_eq_self (zero_not_mem_take name size),
    cstr_eq_self name.noNul, take_take, Nat.min_eq_left hsize]

theorem synToGroup_of_not_counts {action : ActionNode} (hcounts : ¬ Counts action.type) :
    table.synToGroup action = none := by
  have hinvalid : action.type ≠ otWindowClose ∧ action.type ≠ otBrowserCloseUrl :=
    not_or.mp hcounts
  rw [ActionTable.synToGroup, ActionTable.userNameTypeFindCreate, if_pos hinvalid]
  rfl

theorem counts_of_resaveAct {saved : SavedAct} (hstep : table.resaveAct saved = some next) :
    Counts saved.type := by
  by_contra hcounts
  have hinvalid : saved.type ≠ otWindowClose ∧ saved.type ≠ otBrowserCloseUrl :=
    not_or.mp hcounts
  rw [ActionTable.resaveAct, ActionTable.hashNameTypeFindCreate, if_pos hinvalid] at hstep
  cases hstep

theorem counts_node (record : ActionRec) : Counts record.node.type := by
  rw [ActionRec.node]
  split
  · exact Or.inl rfl
  · exact Or.inr rfl

theorem step_cases (hlinked : Linked table) (hstep : table.step entry = some next) :
    next = table ∨ Counts entry.node.type ∧ ∃ found amount,
      next = table.merge found entry.node entry.node.index amount := by
  have htyped : ∀ {name type category id},
      table.findByUserNameType name type category = some id → (table.heap id).type ≠ 0 :=
    fun hfind => hlinked.typed _ (hlinked.listed _ (mem_of_findByUserNameType hfind))
  cases entry with
  | syn action =>
    by_cases hcounts : Counts action.type
    · rw [ActionTable.step, synToGroup_eq hcounts fun _ => htyped] at hstep
      exact Or.inr ⟨hcounts, _, _, (Option.some.inj hstep).symm⟩
    grind [ActionTable.step.eq_1, synToGroup_of_not_counts]
  | raw record added =>
    rw [ActionTable.step] at hstep
    by_cases hcounted : record.Counted
    · rw [if_pos hcounted, nodeFor_eq hcounted] at hstep
      refine Or.inr ⟨counts_node record, ?_⟩
      cases hfind : table.findByUserNameType record.group.name record.type
          record.category with
      | some id =>
        simp only [hfind, if_neg (htyped hfind)] at hstep
        exact ⟨some id, added, (Option.some.inj hstep).symm⟩
      | none =>
        simp only [hfind] at hstep
        exact ⟨none, added, (Option.some.inj hstep).symm⟩
    · rw [if_neg hcounted] at hstep
      exact Or.inl (Option.some.inj hstep).symm
  | resave saved =>
    have hcounts := counts_of_resaveAct hstep
    rw [ActionTable.step, resaveAct_eq hcounts fun id hfind =>
      hlinked.typed _ (hlinked.listed _ (mem_of_findByHashNameType hfind))] at hstep
    exact Or.inr ⟨hcounts, _, _, (Option.some.inj hstep).symm⟩

theorem Linked.step (hlinked : Linked table) (hstep : table.step entry = some next) :
    Linked next := by
  rcases step_cases hlinked hstep with rfl | ⟨hcounts, found, amount, rfl⟩
  · exact hlinked
  · exact hlinked.merge hcounts.ne_zero found _ amount

theorem hashes_strncpy {act pro : Bytes} (hact : (0 : Byte) ∉ act) (hpro : (0 : Byte) ∉ pro) :
    wwActionNameHash act ≠ wwActionNameHash pro ↔
      wwActionNameHash (strncpy 48 act) ≠ wwActionNameHash (strncpy 32 pro) := by
  rw [wwActionNameHash_strncpy hact (by decide), wwActionNameHash_strncpy hpro (by decide)]

theorem namesApart_iff (entry : TableStep) :
    entry.NamesApart ↔
      wwActionNameHash entry.node.actName ≠ wwActionNameHash entry.node.proName := by
  cases entry with
  | syn action => exact hashes_strncpy (zero_not_mem_cstr _) (zero_not_mem_cstr _)
  | raw record added =>
    rw [TableStep.NamesApart, TableStep.node, ActionRec.node]
    split
    · exact hashes_strncpy (zero_not_mem_cstr _) record.process.noNul
    · exact hashes_strncpy (zero_not_mem_cstr _) record.process.noNul
  | resave saved =>
    rw [TableStep.NamesApart,
      ← wwActionNameHash_take saved.actName (by decide : 8 ≤ 47),
      ← wwActionNameHash_take saved.proName (by decide : 8 ≤ 31)]
    exact hashes_strncpy (zero_not_mem_take _ _) (zero_not_mem_take _ _)

theorem node_lengths (entry : TableStep) :
    8 ≤ entry.node.actName.length ∧ 8 ≤ entry.node.proName.length := by
  have hlengths : ∀ act pro : Bytes,
      8 ≤ (strncpy 48 act).length ∧ 8 ≤ (strncpy 32 pro).length := by
    intro act pro
    rw [length_strncpy, length_strncpy]
    decide
  cases entry with
  | syn action => exact hlengths _ _
  | raw record added =>
    rw [TableStep.node, ActionRec.node]
    split
    · exact hlengths _ _
    · exact hlengths _ _
  | resave saved => exact hlengths _ _

end Steps

/-- A node that is chained under the name of its type. -/
structure ActionNode.Filed (bucket : Nat) (node : ActionNode) : Prop where
  counts : Counts node.type
  index_eq : node.index = bucket
  actLength : 8 ≤ node.actName.length
  proLength : 8 ≤ node.proName.length

/-- A filed node whose other name has another hash. -/
def ActionNode.Apart (bucket : Nat) (node : ActionNode) : Prop :=
  node.Filed bucket ∧ wwActionNameHash node.actName ≠ wwActionNameHash node.proName

section Chaining

variable {table next : ActionTable} {node : ActionNode} {bucket : Nat}
  {P : Nat → ActionNode → Prop}

theorem ActionTable.Chains.merge (hchains : table.Chains P) (hlinked : Linked table)
    (hstable : ∀ bucket node totals, P bucket node → P bucket (node.withTotals totals))
    {found : Option Nat} (hnode : found = none → P bucket node) (amount : Totals) :
    (table.merge found node bucket amount).Chains P := by
  have hadd : ∀ {table : ActionTable}, table.Chains P → ∀ id,
      (table.add id amount).Chains P := by
    intro table hchains id other chained hmem
    by_cases hsame : chained = id
    · subst hsame
      rw [ActionTable.heap_add_self]
      exact hstable _ _ _ (hchains other chained hmem)
    · rw [ActionTable.heap_add_of_ne _ hsame]
      exact hchains other chained hmem
  cases found with
  | some id => exact hadd hchains id
  | none =>
    apply hadd
    have hold : ∀ other, ∀ id ∈ table.buckets other,
        P other ((table.linkNew node bucket).heap id) := by
      intro other id hmem
      have hfresh := hlinked.fresh id (hlinked.listed other hmem)
      rw [ActionTable.heap_linkNew_of_ne _ (Nat.ne_of_lt hfresh)]
      exact hchains other id hmem
    intro other id hmem
    change id ∈ Function.update table.buckets bucket
      (table.next :: table.buckets bucket) other at hmem
    grind [heap_linkNew_self]

theorem chains_empty : ActionTable.empty.Chains P :=
  fun _ _ hmem => absurd hmem not_mem_nil

theorem ActionNode.Apart.withTotals (bucket : Nat) (node : ActionNode) (totals : Totals)
    (hapart : node.Apart bucket) : (node.withTotals totals).Apart bucket :=
  ⟨⟨hapart.1.counts, hapart.1.index_eq, hapart.1.actLength, hapart.1.proLength⟩, hapart.2⟩

theorem hash_actText (hlength : 8 ≤ node.actName.length) :
    wwActionNameHash node.actText = wwActionNameHash node.actName :=
  wwActionNameHash_append hlength _

theorem hash_proText (hlength : 8 ≤ node.proName.length) :
    wwActionNameHash node.proText = wwActionNameHash node.proName :=
  wwActionNameHash_append hlength _

/-- What either lookup returns stands in the bucket of the name, and the name of the
type asked for is the one looked up. -/
theorem lookup_found {name : Bytes} {type category : UInt32} {id : Nat}
    (hcounts : Counts type)
    (hfind : table.findByUserNameType name type category = some id ∨
      table.findByHashNameType name type = some id) :
    id ∈ table.buckets (wwActionNameHash name) ∧
      (if type = otBrowserCloseUrl then (table.heap id).actText
        else (table.heap id).proText) = name := by
  have hne : otWindowClose ≠ otBrowserCloseUrl := by decide
  rcases hfind with hfind | hfind
  · refine ⟨mem_of_findByUserNameType hfind, ?_⟩
    have hmatch := List.find?_some hfind
    grind
  · refine ⟨mem_of_findByHashNameType hfind, ?_⟩
    have hmatch := List.find?_some hfind
    rcases hcounts with rfl | rfl
    · simpa [hne] using hmatch
    · simpa using hmatch

theorem keepsTypes_of_apart (hchains : table.Chains ActionNode.Apart) :
    table.KeepsTypes := by
  intro name type category id hcounts hfind
  have hne : otWindowClose ≠ otBrowserCloseUrl := by decide
  obtain ⟨hmem, hname⟩ := lookup_found hcounts hfind
  obtain ⟨hfiled, hapart⟩ := hchains _ id hmem
  have hindex := hfiled.index_eq
  rw [← hname, ActionNode.index] at hindex
  rcases hcounts with rfl | rfl <;> rcases hfiled.counts with hkind | hkind
  · exact hkind
  · rw [if_pos hkind, if_neg hne, hash_proText hfiled.proLength] at hindex
    exact absurd hindex hapart
  · rw [if_neg (by rw [hkind]; exact hne), if_pos hkind, if_pos rfl,
      hash_actText hfiled.actLength] at hindex
    exact absurd hindex.symm hapart
  · exact hkind

theorem heap_merge_new (table : ActionTable) (node : ActionNode) (bucket : Nat)
    (amount : Totals) :
    (table.merge none node bucket amount).heap table.next =
      node.withTotals (node.totals + amount) := by
  rw [ActionTable.merge, ActionTable.heap_add_self, ActionTable.heap_linkNew_self]

/-- A new node is the first in its bucket: it is found for either type under a name that
has the bucket's hash. -/
theorem findByHashNameType_new {name : Bytes} {type : UInt32} (amount : Totals)
    (hname : (if type = otBrowserCloseUrl then
      (node.withTotals (node.totals + amount)).actText
        else (node.withTotals (node.totals + amount)).proText) = name)
    (hcounts : Counts type) (hhash : wwActionNameHash name = bucket) :
    (table.merge none node bucket amount).findByHashNameType name type =
      some table.next := by
  have hne : otWindowClose ≠ otBrowserCloseUrl := by decide
  have hbucket : (table.merge none node bucket amount).buckets bucket =
      table.next :: table.buckets bucket := Function.update_self _ _ _
  rw [ActionTable.findByHashNameType, hhash, hbucket, List.find?_cons_of_pos]
  rw [heap_merge_new, ← hname]
  rcases hcounts with rfl | rfl
  · simp [hne]
  · simp

theorem not_keepsTypes_of_new (hcounts : Counts node.type)
    (hact : 8 ≤ node.actName.length) (hpro : 8 ≤ node.proName.length)
    (hsame : wwActionNameHash node.actName = wwActionNameHash node.proName)
    (amount : Totals) : ¬ (table.merge none node node.index amount).KeepsTypes := by
  intro hkeeps
  have hne : otWindowClose ≠ otBrowserCloseUrl := by decide
  have hwrong : ∀ type, Counts type → (node.withTotals (node.totals + amount)).type = type := by
    intro type htype
    have hhash : wwActionNameHash (if type = otBrowserCloseUrl then
        (node.withTotals (node.totals + amount)).actText
          else (node.withTotals (node.totals + amount)).proText) = node.index := by
      have hactHash : wwActionNameHash (node.withTotals (node.totals + amount)).actText =
          wwActionNameHash node.actName := hash_actText hact
      have hproHash : wwActionNameHash (node.withTotals (node.totals + amount)).proText =
          wwActionNameHash node.proName := hash_proText hpro
      have hindex : node.index = wwActionNameHash node.actName := by
        rw [ActionNode.index]
        rcases hcounts with hkind | hkind
        · rw [if_neg (by rw [hkind]; exact hne), if_pos hkind, hsame]
        · rw [if_pos hkind]
      split
      · rw [hactHash, hindex]
      · rw [hproHash, hindex, hsame]
    have hfind := @findByHashNameType_new table node node.index _ type amount rfl htype hhash
    rw [← heap_merge_new table node node.index amount]
    exact hkeeps _ type 0 _ htype (Or.inr hfind)
  exact hne ((hwrong _ (Or.inl rfl)).symm.trans (hwrong _ (Or.inr rfl)))

end Chaining

section Runs

variable {table final : ActionTable} {entry : TableStep} {steps : List TableStep}

theorem next_merge (table : ActionTable) (found : Option Nat) (node : ActionNode)
    (bucket : Nat) (amount : Totals) :
    (table.merge found node bucket amount).next =
      if found = none then table.next + 1 else table.next := by
  cases found with
  | some id => rfl
  | none => rfl

theorem ActionTable.Chains.step (hchains : table.Chains ActionNode.Apart)
    (hlinked : Linked table) (hmakes : table.Makes entry → entry.NamesApart)
    (hstep : table.step entry = some final) : final.Chains ActionNode.Apart := by
  rcases step_cases hlinked hstep with rfl | ⟨hcounts, found, amount, rfl⟩
  · exact hchains
  · apply hchains.merge hlinked ActionNode.Apart.withTotals
    intro hnone
    have hmade : table.Makes entry := by
      refine ⟨_, hstep, ?_⟩
      rw [next_merge, if_pos hnone]
      exact Nat.lt_succ_self _
    obtain ⟨hact, hpro⟩ := node_lengths entry
    exact ⟨⟨hcounts, rfl, hact, hpro⟩, (namesApart_iff entry).mp (hmakes hmade)⟩

theorem ActionTable.Chains.run (hchains : table.Chains ActionNode.Apart)
    (hlinked : Linked table)
    (hmakes : ∀ before entry after mid, steps = before ++ entry :: after →
      table.run before = some mid → mid.Makes entry → entry.NamesApart)
    (hrun : table.run steps = some final) : final.Chains ActionNode.Apart := by
  induction steps generalizing table with
  | nil =>
    obtain rfl := Option.some.inj hrun
    exact hchains
  | cons entry steps ih =>
    rw [ActionTable.run, Option.bind_eq_bind, Option.bind_eq_some_iff] at hrun
    obtain ⟨mid, hstep, hrest⟩ := hrun
    have hfirst := hchains.step hlinked (hmakes [] entry steps table rfl rfl) hstep
    apply ih hfirst (hlinked.step hstep) _ hrest
    grind [run.eq_2]

theorem Linked.run (hlinked : Linked table) (hrun : table.run steps = some final) :
    Linked final := by
  induction steps generalizing table with
  | nil =>
    obtain rfl := Option.some.inj hrun
    exact hlinked
  | cons entry steps ih =>
    rw [ActionTable.run, Option.bind_eq_bind, Option.bind_eq_some_iff] at hrun
    obtain ⟨mid, hstep, hrest⟩ := hrun
    exact ih (hlinked.step hstep) hrest

theorem ActionTable.run_append (before after : List TableStep) :
    table.run (before ++ after) = (table.run before).bind fun mid => mid.run after := by
  induction before generalizing table with
  | nil => rfl
  | cons entry before ih =>
    rw [cons_append, ActionTable.run, ActionTable.run]
    cases table.step entry with
    | none => rfl
    | some mid => exact ih

theorem namesApart_of_makes (hlinked : Linked table) (hstep : table.step entry = some final)
    (hkeeps : final.KeepsTypes) (hmakes : table.Makes entry) : entry.NamesApart := by
  obtain ⟨after, hafter, hmore⟩ := hmakes
  obtain rfl := Option.some.inj (hstep.symm.trans hafter)
  rcases step_cases hlinked hstep with rfl | ⟨hcounts, found, amount, rfl⟩
  · exact absurd hmore (Nat.lt_irrefl _)
  · cases found with
    | some id => exact absurd hmore (Nat.lt_irrefl _)
    | none =>
      rw [namesApart_iff]
      grind [node_lengths, not_keepsTypes_of_new]

end Runs

/-- If the names of every step have different hashes, then no lookup ever gives a node of
the wrong type; and it is exactly the steps that make a node of which this is needed. -/
theorem lookups_keepTypes (steps : List TableStep) :
    ((∀ entry ∈ steps, entry.NamesApart) →
      ∀ table, Reaches steps table → table.KeepsTypes) ∧
    ((∀ table, Reaches steps table → table.KeepsTypes) ↔
      ∀ before entry after table, steps = before ++ entry :: after →
        ActionTable.empty.run before = some table → table.Makes entry →
          entry.NamesApart) := by
  have hiff : (∀ table, Reaches steps table → table.KeepsTypes) ↔
      ∀ before entry after table, steps = before ++ entry :: after →
        ActionTable.empty.run before = some table → table.Makes entry →
          entry.NamesApart := by
    constructor
    · intro hkeeps before entry after table hsplit hrun hmakes
      have hmade := hmakes
      obtain ⟨next, hstep, _⟩ := hmade
      have hreach : Reaches steps next := by
        refine ⟨before ++ [entry], after, by simp [hsplit], ?_⟩
        rw [ActionTable.run_append, hrun]
        change (do
          let table ← table.step entry
          table.run []) = some next
        rw [hstep]
        rfl
      exact namesApart_of_makes (linked_empty.run hrun) hstep (hkeeps next hreach) hmakes
    · rintro hmakes table ⟨before, after, rfl, hrun⟩
      have hempty : ActionTable.empty.Chains ActionNode.Apart := chains_empty
      apply keepsTypes_of_apart
      apply hempty.run linked_empty _ hrun
      grind
  grind

namespace MixingWitness

/-- A window of qq.exe. -/
def window (title : Bytes) : ActionNode where
  actName := strncpy 48 title
  proName := strncpy 32 (ascii "qq.exe")
  time := 60
  type := otWindowClose
  keyClick := 5
  mouClick := 7
  category := 0

theorem lookups_keepTypes_chat :
    ∃ table, Reaches [.syn (window (ascii "chat"))] table ∧ table.nodes ≠ [] ∧
      table.KeepsTypes := by
  have hkeeps := (lookups_keepTypes [.syn (window (ascii "chat"))]).1
    (by rw [forall_mem_singleton, TableStep.NamesApart]; decide +kernel)
  have hreach : Reaches [.syn (window (ascii "chat"))]
      ((ActionTable.empty.synToGroup (window (ascii "chat"))).getD .empty) :=
    ⟨_, [], (append_nil _).symm, rfl⟩
  exact ⟨_, hreach, by decide +kernel, hkeeps _ hreach⟩

/-- A window titled by its process name is what the lookup of that domain returns. -/
theorem lookup_mixes_window :
    ∃ table, Reaches [.syn (window (ascii "qq.exe"))] table ∧
      table.findByUserNameType (ascii "qq.exe") otBrowserCloseUrl 0 = some 0 ∧
      (table.heap 0).type = otWindowClose ∧ ¬ table.KeepsTypes := by
  have hreach : Reaches [.syn (window (ascii "qq.exe"))]
      ((ActionTable.empty.synToGroup (window (ascii "qq.exe"))).getD .empty) :=
    ⟨_, [], (append_nil _).symm, rfl⟩
  have hfind : ((ActionTable.empty.synToGroup (window (ascii "qq.exe"))).getD
      .empty).findByUserNameType (ascii "qq.exe") otBrowserCloseUrl 0 = some 0 := by
    decide +kernel
  have htype : (((ActionTable.empty.synToGroup (window (ascii "qq.exe"))).getD
      .empty).heap 0).type = otWindowClose := by
    decide +kernel
  refine ⟨_, hreach, hfind, htype, ?_⟩
  intro hkeeps
  have hwrong := hkeeps _ _ 0 _ (Or.inr rfl) (Or.inl hfind)
  rw [htype] at hwrong
  exact absurd hwrong (by decide)

end MixingWitness

end WaterWall
