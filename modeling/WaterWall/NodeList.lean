/-
Linked nodes that are known by their addresses and are taken off their list one by one.  A
node that is not on the list has been freed, and taking it off again is a fault.
-/
import Mathlib

namespace NodeList

open List

universe u

/-- A list of nodes, each with its address. -/
abbrev Nodes (α : Type u) := List (Nat × α)

variable {α : Type u}

/-- A node is unlinked and freed. -/
def delete (nodes : Nodes α) (address : Nat) : Option (Nodes α) :=
  if address ∈ nodes.map Prod.fst then some (nodes.filter fun node => node.1 ≠ address)
  else none

def deleteAll (nodes : Nodes α) (addresses : List Nat) : Option (Nodes α) :=
  addresses.foldlM delete nodes

variable {nodes : Nodes α} {addresses : List Nat}

theorem delete_append {front rest : Nodes α} {node : Nat × α}
    (hnodup : ((front ++ node :: rest).map Prod.fst).Nodup) :
    delete (front ++ node :: rest) node.1 = some (front ++ rest) := by
  rw [map_append, map_cons, nodup_middle, nodup_cons,
    ← map_append] at hnodup
  have hothers : ∀ other ∈ front ++ rest, other.1 ≠ node.1 := by
    grind
  have hfilter : (front ++ rest).filter (fun other => other.1 ≠ node.1) = front ++ rest := by
    rw [filter_eq_self]
    intro other hother
    exact decide_eq_true (hothers other hother)
  rw [delete, if_pos (by simp)]
  rw [filter_append] at hfilter
  rw [filter_append, filter_cons_of_neg (by simp), hfilter]

theorem deleteAll_eq (haddresses : addresses.Nodup)
    (hmem : ∀ address ∈ addresses, address ∈ nodes.map Prod.fst) :
    deleteAll nodes addresses = some (nodes.filter fun node => node.1 ∉ addresses) := by
  induction addresses generalizing nodes with
  | nil => simp [deleteAll]
  | cons address addresses ih =>
    rw [nodup_cons] at haddresses
    rw [forall_mem_cons] at hmem
    have hstill : ∀ other ∈ addresses,
        other ∈ (nodes.filter fun node => node.1 ≠ address).map Prod.fst := by
      intro other hother
      obtain ⟨node, hnode, hfst⟩ := mem_map.mp (hmem.2 other hother)
      grind
    have hfirst : delete nodes address = some (nodes.filter fun node => node.1 ≠ address) :=
      if_pos hmem.1
    rw [deleteAll, foldlM_cons, hfirst]
    change deleteAll _ addresses = _
    rw [ih haddresses.2 hstill, filter_filter]
    grind

theorem node_of_address {node other : Nat × α} (hnodup : (nodes.map Prod.fst).Nodup)
    (hnode : node ∈ nodes) (hother : other ∈ nodes) (hsame : node.1 = other.1) :
    node = other :=
  inj_on_of_nodup_map hnodup hnode hother hsame

theorem deleteAll_filter (hnodup : (nodes.map Prod.fst).Nodup) (drop : Nat × α → Bool) :
    deleteAll nodes ((nodes.filter drop).map Prod.fst) =
      some (nodes.filter fun node => !drop node) := by
  rw [deleteAll_eq]
  · congr 1
    apply filter_congr
    intro node hnode
    have hiff : node.1 ∈ (nodes.filter drop).map Prod.fst ↔ drop node = true := by
      rw [mem_map]
      grind [node_of_address]
    simp only [hiff, Bool.not_eq_true, Bool.decide_eq_false]
  · exact hnodup.sublist (filter_sublist.map _)
  grind

end NodeList
