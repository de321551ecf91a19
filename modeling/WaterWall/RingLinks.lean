/-
Circular doubly linked lists: two pointers in each node, a head that is a node too,
and the operations of list.h that set them.  `Ring links head nodes` says that the
pointers lead from the head through the nodes and back, in both directions.  All
proofs go through a ring with a gap, which every operation only closes anew.
-/
import Mathlib.Data.List.Chain
import Mathlib.Data.List.Nodup

namespace RingLinks

open List Function

universe u

variable {N : Type u}

/-- `next` and `prev` of all nodes. -/
structure Links (N : Type u) where
  (next prev : N → N)

namespace Links

section Operations

variable [DecidableEq N]

/-- `__list_del(prev, next)`: the two become neighbours. -/
def link (links : Links N) (prev next : N) : Links N where
  next := Function.update links.next prev next
  prev := Function.update links.prev next prev

/-- `__list_add(new, prev, next)`. -/
def insert (links : Links N) (new prev next : N) : Links N where
  next := Function.update (Function.update links.next new next) prev new
  prev := Function.update (Function.update links.prev next new) new prev

/-- `INIT_LIST_HEAD`. -/
def initListHead (links : Links N) (node : N) : Links N where
  next := Function.update links.next node node
  prev := Function.update links.prev node node

def listDelInit (links : Links N) (entry : N) : Links N :=
  (links.link (links.prev entry) (links.next entry)).initListHead entry

/-- `list_del` leaves the two poison values in the node. -/
def listDel (links : Links N) (entry poison1 poison2 : N) : Links N :=
  let links := links.link (links.prev entry) (links.next entry)
  { next := Function.update links.next entry poison1
    prev := Function.update links.prev entry poison2 }

def listAddTail (links : Links N) (new head : N) : Links N :=
  links.insert new (links.prev head) head

def listMoveTail (links : Links N) (entry head : N) : Links N :=
  (links.link (links.prev entry) (links.next entry)).listAddTail entry head

end Operations

/-- `right` follows `left`. -/
def Linked (links : Links N) (left right : N) : Prop :=
  links.next left = right ∧ links.prev right = left

/-- A node that is in no list. -/
def Alone (links : Links N) (node : N) : Prop :=
  links.next node = node ∧ links.prev node = node

/-- The pointers lead from the head through the nodes and back to it. -/
structure Ring (links : Links N) (head : N) (nodes : List N) : Prop where
  nodup : (head :: nodes).Nodup
  chain : (head :: nodes ++ [head]).IsChain links.Linked

/-- A ring that is open between `left` and `right`. -/
structure Gap (links : Links N) (head : N) (left right : List N) : Prop where
  nodup : (head :: (left ++ right)).Nodup
  chain_left : (head :: left).IsChain links.Linked
  chain_right : (right ++ [head]).IsChain links.Linked

section Pieces

variable {links other : Links N} {head x : N} {nodes left right : List N}

theorem exists_front (head : N) (left : List N) :
    ∃ front, head :: left = front ++ [left.getLastD head] := by
  refine ⟨(head :: left).dropLast, ?_⟩
  have hsplit := dropLast_append_getLast (cons_ne_nil head left)
  rw [getLast_eq_getLastD] at hsplit
  exact hsplit.symm

theorem exists_rest (head : N) (right : List N) :
    ∃ rest, right ++ [head] = right.headD head :: rest := by
  cases right with
  | nil => exact ⟨[], rfl⟩
  | cons x right => exact ⟨right ++ [head], rfl⟩

theorem getLastD_mem (head : N) (left : List N) : left.getLastD head ∈ head :: left := by
  grind

theorem headD_mem (head : N) (right : List N) : right.headD head ∈ right ++ [head] := by
  obtain ⟨rest, hrest⟩ := exists_rest head right
  rw [hrest]
  exact mem_cons_self

theorem last_mem (head : N) (left right : List N) :
    left.getLastD head ∈ head :: (left ++ right) := by
  rw [← cons_append]
  exact mem_append_left right (getLastD_mem head left)

theorem first_mem (head : N) (left right : List N) :
    right.headD head ∈ head :: (left ++ right) := by
  have hfirst := headD_mem head right
  simp only [mem_cons, mem_append] at hfirst ⊢
  tauto

theorem getLastD_append_cons (front rest : List N) (x head : N) :
    (front ++ x :: rest).getLastD head = rest.getLastD x := by
  rw [getLastD_eq_getLast?, List.getLast?_append_cons, ← getLastD_eq_getLast?,
    getLastD_cons]

theorem ring_iff_gap : links.Ring head (left ++ right) ↔
    links.Gap head left right ∧ links.Linked (left.getLastD head) (right.headD head) := by
  obtain ⟨front, hfront⟩ := exists_front head left
  obtain ⟨rest, hrest⟩ := exists_rest head right
  have hchain : (head :: (left ++ right) ++ [head]).IsChain links.Linked ↔
      (head :: left).IsChain links.Linked ∧
        links.Linked (left.getLastD head) (right.headD head) ∧
        (right ++ [head]).IsChain links.Linked := by
    rw [show head :: (left ++ right) ++ [head] = (head :: left) ++ (right ++ [head]) by simp,
      hrest, hfront, append_assoc]
    exact isChain_append_cons_cons
  constructor
  · rintro ⟨hnodup, hring⟩
    obtain ⟨hleft, hlinked, hright⟩ := hchain.mp hring
    exact ⟨⟨hnodup, hleft, hright⟩, hlinked⟩
  · rintro ⟨⟨hnodup, hleft, hright⟩, hlinked⟩
    exact ⟨hnodup, hchain.mpr ⟨hleft, hlinked, hright⟩⟩

theorem isChain_congr (hnext : ∀ node ∈ nodes.dropLast, other.next node = links.next node)
    (hprev : ∀ node ∈ nodes.tail, other.prev node = links.prev node)
    (hchain : nodes.IsChain links.Linked) : nodes.IsChain other.Linked := by
  induction hchain with
  | nil => exact .nil
  | singleton => exact .singleton _
  | @cons_cons a b rest hab _ ih =>
    rw [dropLast_cons_of_ne_nil (cons_ne_nil b rest), forall_mem_cons] at hnext
    rw [tail_cons, forall_mem_cons] at hprev
    exact .cons_cons ⟨hnext.1.trans hab.1, hprev.1.trans hab.2⟩ (ih hnext.2 hprev.2)

/-- What may change in a ring with a gap: `next` before the gap, `prev` behind it, and all
pointers of other nodes. -/
theorem Gap.congr (hgap : links.Gap head left right)
    (hnext : ∀ node ∈ head :: (left ++ right), node ≠ left.getLastD head →
      other.next node = links.next node)
    (hprev : ∀ node ∈ head :: (left ++ right), node ≠ right.headD head →
      other.prev node = links.prev node) :
    other.Gap head left right := by
  obtain ⟨front, hfront⟩ := exists_front head left
  obtain ⟨rest, hrest⟩ := exists_rest head right
  have hnodup := hgap.nodup
  have hleft : (head :: left).Nodup := hnodup.sublist (by simp)
  have hright : (right ++ [head]).Nodup :=
    (perm_append_singleton head right).nodup_iff.mpr (hnodup.sublist (by simp))
  have hlast := getLastD_mem head left
  have hfirst := headD_mem head right
  refine ⟨hnodup, isChain_congr (fun node hnode => ?_) (fun node hnode => ?_) hgap.chain_left,
    isChain_congr (fun node hnode => ?_) (fun node hnode => ?_) hgap.chain_right⟩
  · rw [hfront, dropLast_concat] at hnode
    grind
  · rw [tail_cons] at hnode
    grind
  · rw [dropLast_concat] at hnode
    grind
  · rw [hrest, tail_cons] at hnode
    refine hprev node ?_ fun hsame => ?_
    · have hmem : node ∈ right ++ [head] := hrest ▸ mem_cons_of_mem _ hnode
      grind
    · rw [hrest, nodup_cons] at hright
      exact hright.1 (hsame ▸ hnode)

theorem Ring.congr (hring : links.Ring head nodes)
    (hnext : ∀ node ∈ head :: nodes, other.next node = links.next node)
    (hprev : ∀ node ∈ head :: nodes, other.prev node = links.prev node) :
    other.Ring head nodes := by
  refine ⟨hring.nodup, isChain_congr (fun node hnode => ?_) (fun node hnode => ?_) hring.chain⟩
  · rw [dropLast_concat] at hnode
    exact hnext node hnode
  grind

theorem Ring.gap (hring : links.Ring head (left ++ x :: right)) : links.Gap head left right := by
  have hleft := (ring_iff_gap.mp hring).1
  rw [append_cons] at hring
  have hright := (ring_iff_gap.mp hring).1
  exact ⟨hleft.nodup.sublist (by simp), hleft.chain_left, hright.chain_right⟩

theorem Ring.not_mem (hring : links.Ring head (left ++ x :: right)) :
    x ∉ head :: (left ++ right) := by
  have hnodup := hring.nodup
  rw [← cons_append, nodup_middle, nodup_cons] at hnodup
  exact hnodup.1

theorem Ring.prev_eq (hring : links.Ring head (left ++ x :: right)) :
    links.prev x = left.getLastD head :=
  (ring_iff_gap.mp hring).2.2

theorem Ring.next_eq (hring : links.Ring head (left ++ x :: right)) :
    links.next x = right.headD head := by
  rw [append_cons] at hring
  have hlinked := (ring_iff_gap.mp hring).2
  rw [getLastD_concat] at hlinked
  exact hlinked.1

theorem Ring.next_last (hring : links.Ring head (left ++ right)) :
    links.next (left.getLastD head) = right.headD head :=
  (ring_iff_gap.mp hring).2.1

theorem Ring.prev_first (hring : links.Ring head (left ++ right)) :
    links.prev (right.headD head) = left.getLastD head :=
  (ring_iff_gap.mp hring).2.2

theorem eq_of_isChain {start : N} {nodes others : List N}
    (hnodes : (start :: nodes ++ [head]).IsChain links.Linked) (hfirst : head ∉ nodes)
    (hothers : (start :: others ++ [head]).IsChain links.Linked) (hsecond : head ∉ others) :
    nodes = others := by
  induction nodes generalizing start others with
  | nil =>
    cases others with
    | nil => rfl
    | cons y others =>
      have hhead := (isChain_cons_cons.mp hnodes).1.1
      have hy := (isChain_cons_cons.mp hothers).1.1
      exact absurd (hhead.symm.trans hy) fun heq => hsecond (heq ▸ mem_cons_self)
  | cons x nodes ih =>
    obtain ⟨hx, hnodes⟩ := isChain_cons_cons.mp hnodes
    cases others with
    | nil =>
      have hhead := (isChain_cons_cons.mp hothers).1.1
      exact absurd (hhead.symm.trans hx.1) fun heq => hfirst (heq ▸ mem_cons_self)
    | cons y others =>
      obtain ⟨hy, hothers⟩ := isChain_cons_cons.mp hothers
      obtain rfl : x = y := hx.1.symm.trans hy.1
      rw [ih hnodes (fun hmem => hfirst (mem_cons_of_mem x hmem)) hothers
        fun hmem => hsecond (mem_cons_of_mem x hmem)]

theorem Ring.unique {others : List N} (hring : links.Ring head nodes)
    (hother : links.Ring head others) : nodes = others :=
  eq_of_isChain hring.chain (nodup_cons.mp hring.nodup).1 hother.chain
    (nodup_cons.mp hother.nodup).1

end Pieces

section Changes

variable [DecidableEq N] {links : Links N} {head x : N} {left right : List N}

theorem Gap.link (hgap : links.Gap head left right) :
    (links.link (left.getLastD head) (right.headD head)).Ring head (left ++ right) := by
  rw [ring_iff_gap]
  refine ⟨hgap.congr (fun node _ hne => ?_) (fun node _ hne => ?_), ?_, ?_⟩
  · exact update_of_ne hne _ _
  · exact update_of_ne hne _ _
  · exact update_self _ _ _
  · exact update_self _ _ _

theorem Gap.insert (hgap : links.Gap head left right) (hnew : x ∉ head :: (left ++ right)) :
    (links.insert x (left.getLastD head) (right.headD head)).Ring head (left ++ x :: right) := by
  have hother {node : N} (hnode : node ∈ head :: (left ++ right)) : node ≠ x := by
    rintro rfl
    exact hnew hnode
  have hlast : left.getLastD head ≠ x := hother (last_mem head left right)
  have hfirst : right.headD head ≠ x := hother (first_mem head left right)
  have hkept : (links.insert x (left.getLastD head) (right.headD head)).Gap head left right := by
    refine hgap.congr (fun node hnode hne => ?_) (fun node hnode hne => ?_)
    · exact (update_of_ne hne _ _).trans (update_of_ne (hother hnode) _ _)
    · exact (update_of_ne (hother hnode) _ _).trans (update_of_ne hne _ _)
  refine ⟨?_, ?_⟩
  · rw [← cons_append, nodup_middle, nodup_cons]
    exact ⟨hnew, hgap.nodup⟩
  · obtain ⟨front, hfront⟩ := exists_front head left
    obtain ⟨rest, hrest⟩ := exists_rest head right
    have hleft := hkept.chain_left
    have hright := hkept.chain_right
    rw [show head :: (left ++ x :: right) ++ [head] = (head :: left) ++ x :: (right ++ [head])
      by simp]
    rw [hfront] at hleft ⊢
    rw [hrest] at hright ⊢
    rw [append_assoc]
    refine isChain_append_cons_cons.mpr ⟨hleft, ⟨?_, ?_⟩, .cons_cons ⟨?_, ?_⟩ hright⟩
    · exact update_self _ _ _
    · exact update_self _ _ _
    · exact (update_of_ne (Ne.symm hlast) _ _).trans (update_self _ _ _)
    · exact (update_of_ne hfirst _ _).trans (update_self _ _ _)

theorem Ring.listDelInit (hring : links.Ring head (left ++ x :: right)) :
    (links.listDelInit x).Ring head (left ++ right) ∧ (links.listDelInit x).Alone x := by
  have hnew := hring.not_mem
  refine ⟨?_, update_self _ _ _, update_self _ _ _⟩
  rw [Links.listDelInit, hring.prev_eq, hring.next_eq]
  have hother {node : N} (hnode : node ∈ head :: (left ++ right)) : node ≠ x := by
    rintro rfl
    exact hnew hnode
  refine hring.gap.link.congr (fun node hnode => ?_) (fun node hnode => ?_)
  · exact update_of_ne (hother hnode) _ _
  · exact update_of_ne (hother hnode) _ _

theorem Ring.listAddTail (hring : links.Ring head (left ++ right))
    (hnew : x ∉ head :: (left ++ right)) :
    (links.listAddTail x (right.headD head)).Ring head (left ++ x :: right) := by
  rw [Links.listAddTail, hring.prev_first]
  exact (ring_iff_gap.mp hring).1.insert hnew

theorem Ring.listMoveTail (hring : links.Ring head (left ++ right))
    (hnew : x ∉ head :: (left ++ right)) (halone : links.Alone x) :
    (links.listMoveTail x (right.headD head)).Ring head (left ++ x :: right) := by
  have hsame : links.link (links.prev x) (links.next x) = links := by
    obtain ⟨hnext, hprev⟩ := halone
    rw [hnext, hprev, Links.link]
    congr 1
    · exact update_eq_self_iff.mpr hnext.symm
    · exact update_eq_self_iff.mpr hprev.symm
  rw [Links.listMoveTail, hsame]
  exact hring.listAddTail hnew

theorem Ring.link_other {nodes : List N} {a b : N} (hring : links.Ring head nodes)
    (ha : a ∉ head :: nodes) (hb : b ∉ head :: nodes) : (links.link a b).Ring head nodes := by
  refine hring.congr (fun node hnode => ?_) (fun node hnode => ?_)
  · exact update_of_ne (ne_of_mem_of_not_mem hnode ha) _ _
  · exact update_of_ne (ne_of_mem_of_not_mem hnode hb) _ _

theorem Ring.insert_other {nodes : List N} {a b : N} (hring : links.Ring head nodes)
    (hx : x ∉ head :: nodes) (ha : a ∉ head :: nodes) (hb : b ∉ head :: nodes) :
    (links.insert x a b).Ring head nodes := by
  refine hring.congr (fun node hnode => ?_) (fun node hnode => ?_)
  · exact (update_of_ne (ne_of_mem_of_not_mem hnode ha) _ _).trans
      (update_of_ne (ne_of_mem_of_not_mem hnode hx) _ _)
  · exact (update_of_ne (ne_of_mem_of_not_mem hnode hx) _ _).trans
      (update_of_ne (ne_of_mem_of_not_mem hnode hb) _ _)

theorem Ring.listDel (hring : links.Ring head (left ++ x :: right)) (poison1 poison2 : N) :
    (links.listDel x poison1 poison2).Ring head (left ++ right) := by
  have hx := hring.not_mem
  rw [Links.listDel, hring.prev_eq, hring.next_eq]
  refine hring.gap.link.congr (fun node hnode => ?_) (fun node hnode => ?_)
  · exact update_of_ne (ne_of_mem_of_not_mem hnode hx) _ _
  · exact update_of_ne (ne_of_mem_of_not_mem hnode hx) _ _

theorem Ring.listDel_other {other : N} {nodes : List N}
    (hring : links.Ring head (left ++ x :: right)) (hother : links.Ring other nodes)
    (hdisjoint : (head :: (left ++ x :: right)).Disjoint (other :: nodes))
    (poison1 poison2 : N) : (links.listDel x poison1 poison2).Ring other nodes := by
  have hkept : head :: (left ++ right) ⊆ head :: (left ++ x :: right) :=
    List.Sublist.subset (by simp)
  have hx : x ∉ other :: nodes := hdisjoint (by simp)
  have hlinked := hother.link_other (hdisjoint (hkept (last_mem head left right)))
    (hdisjoint (hkept (first_mem head left right)))
  rw [Links.listDel, hring.prev_eq, hring.next_eq]
  refine hlinked.congr (fun node hnode => ?_) (fun node hnode => ?_)
  · exact update_of_ne (ne_of_mem_of_not_mem hnode hx) _ _
  · exact update_of_ne (ne_of_mem_of_not_mem hnode hx) _ _

theorem Ring.moves {source : N} {front rest : List N}
    (hsource : links.Ring source (front ++ x :: rest)) (hring : links.Ring head (left ++ right))
    (hdisjoint : (source :: (front ++ x :: rest)).Disjoint (head :: (left ++ right))) :
    (links.listMoveTail x (right.headD head)).Ring source (front ++ rest) ∧
      (links.listMoveTail x (right.headD head)).Ring head (left ++ x :: right) := by
  have hkept : source :: (front ++ rest) ⊆ source :: (front ++ x :: rest) :=
    List.Sublist.subset (by simp)
  have hprev := hdisjoint (hkept (last_mem source front rest))
  have hnext := hdisjoint (hkept (first_mem source front rest))
  have hlinked := hring.link_other hprev hnext
  rw [Links.listMoveTail, hsource.prev_eq, hsource.next_eq]
  refine ⟨?_, hlinked.listAddTail (hdisjoint (by simp))⟩
  rw [Links.listAddTail, hlinked.prev_first]
  refine hsource.gap.link.insert_other hsource.not_mem ?_ ?_
  · exact fun hmem => hdisjoint (hkept hmem) (last_mem head left right)
  · exact fun hmem => hdisjoint (hkept hmem) (first_mem head left right)

end Changes

end Links

end RingLinks
