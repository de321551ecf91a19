/-
Chains behind a head with one pointer: each node has a pointer to the next node and one
to the cell that points to it, which is the head's or that of the node before.  A node
is unlinked through that cell alone, without its head.  The next pointer of the last
node is null, as is that of a node in no chain.
-/
import Mathlib.Data.List.Nodup
import Mathlib.Logic.Function.Basic

namespace ChainLinks

open List Function

universe u v

/-- The cells that hold a pointer to a node. -/
inductive Slot (H : Type u) (N : Type v) where
  | first (head : H)
  | next (node : N)
deriving DecidableEq

/-- The pointers of all heads and nodes; `none` is null. -/
structure Links (H : Type u) (N : Type v) where
  first : H → Option N
  next : N → Option N
  pprev : N → Option (Slot H N)

variable {H : Type u} {N : Type v}

namespace Links

def read (links : Links H N) : Slot H N → Option N
  | .first head => links.first head
  | .next node => links.next node

section Operations

variable [DecidableEq H] [DecidableEq N]

def write (links : Links H N) (slot : Slot H N) (value : Option N) : Links H N :=
  match slot with
  | .first head => { links with first := Function.update links.first head value }
  | .next node => { links with next := Function.update links.next node value }

/-- `next->pprev = pprev` where there is a next node. -/
def setPprev (links : Links H N) (node : Option N) (slot : Slot H N) : Links H N :=
  match node with
  | none => links
  | some node => { links with pprev := Function.update links.pprev node (some slot) }

/-- `__hlist_del`; a node that nothing points to has no cell to write. -/
def unlink (links : Links H N) (node : N) : Option (Links H N) :=
  match links.pprev node with
  | none => none
  | some slot => some ((links.write slot (links.next node)).setPprev (links.next node) slot)

/-- `hlist_del` leaves the two poison values in the node. -/
def hlistDel (links : Links H N) (node poison1 : N) (poison2 : Slot H N) :
    Option (Links H N) :=
  (links.unlink node).map fun links =>
    { links with
      next := Function.update links.next node (some poison1)
      pprev := Function.update links.pprev node (some poison2) }

theorem read_write_self (links : Links H N) (slot : Slot H N) (value : Option N) :
    (links.write slot value).read slot = value := by
  cases slot <;> exact update_self _ _ _

theorem read_write_of_ne {links : Links H N} {slot other : Slot H N} (hne : other ≠ slot)
    (value : Option N) : (links.write slot value).read other = links.read other := by
  cases slot <;> cases other
  · exact update_of_ne (fun heq => hne (congrArg _ heq)) _ _
  · rfl
  · rfl
  · exact update_of_ne (fun heq => hne (congrArg _ heq)) _ _

@[simp]
theorem pprev_write (links : Links H N) (slot : Slot H N) (value : Option N) :
    (links.write slot value).pprev = links.pprev := by
  cases slot <;> rfl

omit [DecidableEq H] in
@[simp]
theorem read_setPprev (links : Links H N) (node : Option N) (slot : Slot H N) :
    (links.setPprev node slot).read = links.read := by
  funext other
  cases node <;> cases other <;> rfl

omit [DecidableEq H] in
theorem pprev_setPprev_of_ne {links : Links H N} {node : Option N} {other : N}
    (hne : node ≠ some other) (slot : Slot H N) :
    (links.setPprev node slot).pprev other = links.pprev other := by
  cases node with
  | none => rfl
  | some node => exact update_of_ne (fun heq => hne (congrArg _ heq.symm)) _ _

end Operations

/-- From a cell the pointers lead through the nodes to null, and back from each node to the cell
that points to it. -/
inductive Path (links : Links H N) : Slot H N → List N → Prop
  | nil {slot : Slot H N} (hend : links.read slot = none) : Path links slot []
  | cons {slot : Slot H N} {node : N} {nodes : List N} (hread : links.read slot = some node)
      (hpprev : links.pprev node = some slot) (hrest : Path links (.next node) nodes) :
      Path links slot (node :: nodes)

/-- The nodes behind a head. -/
structure Chain (links : Links H N) (head : H) (nodes : List N) : Prop where
  nodup : nodes.Nodup
  path : links.Path (.first head) nodes

section Paths

variable {links other : Links H N} {slot : Slot H N} {nodes front rest : List N} {x : N}

theorem Path.congr (hpath : links.Path slot nodes) (hslot : other.read slot = links.read slot)
    (hnext : ∀ node ∈ nodes, other.read (.next node) = links.read (.next node))
    (hpprev : ∀ node ∈ nodes, other.pprev node = links.pprev node) : other.Path slot nodes := by
  induction hpath with
  | nil hend => exact .nil (hslot.trans hend)
  | cons hread hback _ ih =>
    rw [forall_mem_cons] at hnext hpprev
    exact .cons (hslot.trans hread) (hpprev.1.trans hback) (ih hnext.1 hnext.2 hpprev.2)

theorem Path.unique {others : List N} (hpath : links.Path slot nodes)
    (hother : links.Path slot others) : nodes = others := by
  induction hpath generalizing others with
  | nil hend =>
    cases hother with
    | nil => rfl
    | cons hread => simp [hend] at hread
  | cons hread _ _ ih =>
    cases hother with
    | nil hend => simp [hend] at hread
    | cons hread' _ hrest =>
      obtain rfl := Option.some.inj (hread.symm.trans hread')
      rw [ih hrest]

theorem Path.drop (hpath : links.Path slot (front ++ x :: rest)) :
    links.Path (.next x) rest := by
  induction front generalizing slot with
  | nil =>
    cases hpath with
    | cons _ _ hrest => exact hrest
  | cons node front ih =>
    cases hpath with
    | cons _ _ hrest => exact ih hrest

theorem Path.read_eq (hpath : links.Path slot nodes) : links.read slot = nodes.head? := by
  cases hpath with
  | nil hend => exact hend
  | cons hread => exact hread

theorem Path.next_eq (hpath : links.Path slot (front ++ x :: rest)) :
    links.next x = rest.head? :=
  hpath.drop.read_eq

theorem Path.exists_pprev (hpath : links.Path slot (front ++ x :: rest)) :
    ∃ cell, links.pprev x = some cell ∧
      (cell = slot ∧ front = [] ∨ ∃ w ∈ front, cell = .next w) := by
  induction front generalizing slot with
  | nil =>
    cases hpath with
    | cons _ hback _ => exact ⟨slot, hback, .inl ⟨rfl, rfl⟩⟩
  | cons node front ih =>
    cases hpath with
    | cons _ _ hrest =>
      obtain ⟨cell, hcell, ⟨rfl, -⟩ | ⟨w, hw, rfl⟩⟩ := ih hrest
      · exact ⟨_, hcell, .inr ⟨node, mem_cons_self, rfl⟩⟩
      · exact ⟨_, hcell, .inr ⟨w, mem_cons_of_mem node hw, rfl⟩⟩

end Paths

section Unlinking

variable [DecidableEq H] [DecidableEq N] {links : Links H N} {slot cell : Slot H N}
  {nodes front rest : List N} {x : N}

theorem Path.relink_other (hpath : links.Path slot nodes) {value : Option N}
    (hslot : slot ≠ cell) (hcell : ∀ node ∈ nodes, .next node ≠ cell)
    (hvalue : ∀ node ∈ nodes, value ≠ some node) :
    ((links.write cell value).setPprev value cell).Path slot nodes := by
  refine hpath.congr ?_ (fun node hnode => ?_) (fun node hnode => ?_)
  · rw [read_setPprev, read_write_of_ne hslot]
  · rw [read_setPprev, read_write_of_ne (hcell node hnode)]
  · rw [pprev_setPprev_of_ne (hvalue node hnode), pprev_write]

theorem Path.relink (hpath : links.Path slot (front ++ x :: rest))
    (hnodup : (front ++ x :: rest).Nodup) (hslot : ∀ node ∈ front ++ x :: rest, .next node ≠ slot)
    (hcell : links.pprev x = some cell) :
    ((links.write cell rest.head?).setPprev rest.head? cell).Path slot (front ++ rest) := by
  induction front generalizing slot with
  | nil =>
    cases hpath with
    | cons _ hback hrest =>
      obtain rfl := Option.some.inj (hcell.symm.trans hback)
      have hread : ((links.write cell rest.head?).setPprev rest.head? cell).read cell =
          rest.head? := by
        rw [read_setPprev, read_write_self]
      cases hrest with
      | nil => exact .nil hread
      | @cons _ y rest _ _ hrest =>
        refine .cons hread (update_self _ _ _) ?_
        simp only [nil_append, nodup_cons, forall_mem_cons] at hnodup hslot
        refine hrest.relink_other hslot.2.1 (fun node hnode => hslot.2.2 node hnode) ?_
        grind
  | cons node front ih =>
    have hne : slot ≠ cell := by
      obtain ⟨cell', hcell', ⟨-, hnil⟩ | ⟨w, hw, rfl⟩⟩ := hpath.exists_pprev
      · cases hnil
      grind
    rw [cons_append] at hpath hnodup hslot
    rw [nodup_cons] at hnodup
    cases hpath with
    | cons hread hback hrest =>
      have hother : rest.head? ≠ some node := fun heq =>
        hnodup.1 (mem_append_right _ (mem_cons_of_mem x (mem_of_head? heq)))
      refine .cons ?_ ?_ (ih hrest hnodup.2 fun w hw heq => ?_)
      · rw [read_setPprev, read_write_of_ne hne, hread]
      · rw [pprev_setPprev_of_ne hother, pprev_write, hback]
      · obtain rfl := Slot.next.inj heq
        exact hnodup.1 hw

variable {head other : H}

theorem Chain.unlink (hchain : links.Chain head (front ++ x :: rest)) :
    ∃ links', links.unlink x = some links' ∧ links'.Chain head (front ++ rest) ∧
      (∀ other nodes, other ≠ head → (front ++ x :: rest).Disjoint nodes →
        links.Chain other nodes → links'.Chain other nodes) ∧
      ∀ y, y ∉ front → links'.next y = links.next y := by
  obtain ⟨cell, hcell, hplace⟩ := hchain.path.exists_pprev
  -- The cell that is written belongs to the head or to a node before the deleted one.
  have hfirst {other : H} (hother : other ≠ head) : .first other ≠ cell := by
    grind
  have hnext {y : N} (hy : y ∉ front) : .next y ≠ cell := by
    grind
  refine ⟨(links.write cell rest.head?).setPprev rest.head? cell, ?_, ⟨?_, ?_⟩, ?_, ?_⟩
  · rw [Links.unlink, hcell, hchain.path.next_eq]
  · exact hchain.nodup.sublist (by simp)
  · exact hchain.path.relink hchain.nodup (fun _ _ heq => nomatch heq) hcell
  · intro other nodes hother hdisjoint hnodes
    refine ⟨hnodes.nodup, hnodes.path.relink_other (hfirst hother) (fun node hnode => ?_)
      (fun node hnode heq => ?_)⟩
    · exact hnext fun hmem => hdisjoint (mem_append_left _ hmem) hnode
    · exact hdisjoint (mem_append_right _ (mem_cons_of_mem x (mem_of_head? heq)))
        hnode
  · intro y hy
    change Links.read _ (.next y) = links.read (.next y)
    rw [read_setPprev, read_write_of_ne (hnext hy)]

omit [DecidableEq H] in
theorem Chain.update {value : Option N} (hchain : links.Chain head nodes) (hx : x ∉ nodes) :
    { links with
      next := Function.update links.next x value
      pprev := Function.update links.pprev x (some cell) : Links H N }.Chain head nodes := by
  refine ⟨hchain.nodup, hchain.path.congr rfl (fun node hnode => ?_) (fun node hnode => ?_)⟩
  · exact update_of_ne (ne_of_mem_of_not_mem hnode hx) _ _
  · exact update_of_ne (ne_of_mem_of_not_mem hnode hx) _ _

theorem Chain.hlistDel (hchain : links.Chain head (front ++ x :: rest)) (poison1 : N)
    (poison2 : Slot H N) :
    ∃ links', links.hlistDel x poison1 poison2 = some links' ∧
      links'.Chain head (front ++ rest) ∧
      (∀ other nodes, other ≠ head → (front ++ x :: rest).Disjoint nodes →
        links.Chain other nodes → links'.Chain other nodes) ∧
      ∀ y, y ∉ front ++ x :: rest → links'.next y = links.next y := by
  obtain ⟨links', hunlink, hhead, hothers, hnext⟩ := hchain.unlink
  have hx : x ∉ front ++ rest :=
    (nodup_cons.mp (nodup_middle.mp hchain.nodup)).1
  refine ⟨_, by rw [Links.hlistDel, hunlink, Option.map_some], hhead.update hx, ?_, ?_⟩
  · intro other nodes hother hdisjoint hnodes
    exact (hothers other nodes hother hdisjoint hnodes).update (hdisjoint (by simp))
  grind

end Unlinking

end Links

end ChainLinks
