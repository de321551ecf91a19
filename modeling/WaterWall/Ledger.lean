/-
Resources that are given out once each and come back: the ones given out so far are
numbered, and what has come back together with what is still held is all of them.
-/
import Mathlib.Algebra.Order.Group.Multiset
import Mathlib.Data.Multiset.Range
import Mathlib.Tactic.Abel

/-- `next` resources have been given out. -/
structure Ledger where
  next : Nat
  released : Multiset Nat
  deriving DecidableEq

namespace Ledger

def empty : Ledger := ⟨0, 0⟩

/-- The resource `ledger.next` is given out. -/
def acquire (ledger : Ledger) : Ledger :=
  { ledger with next := ledger.next + 1 }

/-- The resource of a pointer, none for the null pointer. -/
def owned : Option Nat → Multiset Nat
  | none => 0
  | some id => {id}

def release (ledger : Ledger) (ptr : Option Nat) : Ledger :=
  { ledger with released := owned ptr + ledger.released }

/-- Each resource has come back once or is held once. -/
def Settled (ledger : Ledger) (held : Multiset Nat) : Prop :=
  ledger.released + held = Multiset.range ledger.next

variable {ledger : Ledger} {held : Multiset Nat}

theorem settled_empty : empty.Settled 0 := rfl

theorem Settled.acquire (hsettled : ledger.Settled held) :
    ledger.acquire.Settled ({ledger.next} + held) := by
  change ledger.released + ({ledger.next} + held) = Multiset.range (ledger.next + 1)
  rw [Multiset.range_succ, ← hsettled, ← Multiset.singleton_add]
  abel

theorem Settled.release {ptr : Option Nat} (hsettled : ledger.Settled (owned ptr + held)) :
    (ledger.release ptr).Settled held := by
  change owned ptr + ledger.released + held = Multiset.range ledger.next
  rw [← hsettled]
  abel

theorem Settled.lt_next (hsettled : ledger.Settled held) {id : Nat} (hid : id ∈ held) :
    id < ledger.next := by
  rw [← Multiset.mem_range, ← hsettled]
  exact Multiset.mem_add.mpr (.inr hid)

theorem Settled.count_add (hsettled : ledger.Settled held) {id : Nat} (hid : id < ledger.next) :
    ledger.released.count id + held.count id = 1 := by
  rw [← Multiset.count_add, hsettled]
  exact Multiset.count_eq_one_of_mem (Multiset.nodup_range _) (Multiset.mem_range.mpr hid)

/-- Between two moments nothing that was held got away, except for the new ones among
`lost`, of which `lostBefore` were lost already. -/
structure Kept (before after : Ledger) (lostBefore lost held : Multiset Nat) : Prop where
  settled : after.Settled (held + lost)
  grows : before.next ≤ after.next
  fresh : ∃ more, lost = more + lostBefore ∧ ∀ id ∈ more, before.next ≤ id

section Kept

variable {before after : Ledger} {lostBefore lost : Multiset Nat}

theorem Settled.kept (hsettled : before.Settled (held + lost)) :
    Kept before before lost lost held where
  settled := hsettled
  grows := le_rfl
  fresh := ⟨0, (zero_add lost).symm, fun _ hid => absurd hid (Multiset.notMem_zero _)⟩

theorem Kept.acquire (hkept : Kept before after lostBefore lost held) :
    Kept before after.acquire lostBefore lost ({after.next} + held) where
  settled := by
    rw [add_assoc]
    exact hkept.settled.acquire
  grows := hkept.grows.trans (Nat.le_succ _)
  fresh := hkept.fresh

theorem Kept.release {ptr : Option Nat}
    (hkept : Kept before after lostBefore lost (owned ptr + held)) :
    Kept before (after.release ptr) lostBefore lost held where
  settled := by
    have hsettled := hkept.settled
    rw [add_assoc] at hsettled
    exact hsettled.release
  grows := hkept.grows
  fresh := hkept.fresh

theorem Kept.lose {id : Nat} (hkept : Kept before after lostBefore lost ({id} + held))
    (hid : before.next ≤ id) : Kept before after lostBefore ({id} + lost) held where
  settled := by
    have hsettled := hkept.settled
    rwa [add_comm {id} held, add_assoc] at hsettled
  grows := hkept.grows
  fresh := by
    obtain ⟨more, hlost, hmore⟩ := hkept.fresh
    refine ⟨{id} + more, by rw [hlost, add_assoc], ?_⟩
    simp_all

/-- The resources given out meanwhile have come back once each, except for those in a pool,
just when none of them got lost. -/
theorem Kept.returned_iff {others poolBefore pool : Multiset Nat}
    (hbefore : before.Settled (others + poolBefore + lostBefore))
    (hkept : Kept before after lostBefore lost (others + pool)) :
    (∀ id, before.next ≤ id → id < after.next →
      after.released.count id = if id ∈ pool then 0 else 1) ↔ lost = lostBefore := by
  have hcount : ∀ id, id < after.next → after.released.count id +
      (others.count id + pool.count id + lost.count id) = 1 := by
    intro id hid
    have hone := hkept.settled.count_add hid
    rwa [Multiset.count_add, Multiset.count_add] at hone
  have hold : ∀ id ∈ others + poolBefore + lostBefore, id < before.next :=
    fun id hid => hbefore.lt_next hid
  obtain ⟨more, hlost, hmore⟩ := hkept.fresh
  constructor
  · intro hreturned
    rw [hlost]
    suffices hnone : more = 0 by rw [hnone, zero_add]
    apply Multiset.eq_zero_of_forall_notMem
    intro id hid
    have hin : id ∈ lost := hlost ▸ Multiset.mem_add.mpr (.inl hid)
    have hnext : id < after.next :=
      hkept.settled.lt_next (Multiset.mem_add.mpr (.inr hin))
    have hone := hcount id hnext
    have hpos := Multiset.count_pos.mpr hin
    have hzero : id ∉ pool := by
      rw [← Multiset.count_eq_zero]
      omega
    have hback := hreturned id (hmore id hid) hnext
    rw [if_neg hzero] at hback
    omega
  · intro hsame id hid hnext
    have hothers : others.count id = 0 := by
      rw [Multiset.count_eq_zero]
      intro hin
      have := hold id (Multiset.mem_add.mpr (.inl (Multiset.mem_add.mpr (.inl hin))))
      omega
    have hnotLost : lost.count id = 0 := by
      rw [Multiset.count_eq_zero, hsame]
      intro hin
      have := hold id (Multiset.mem_add.mpr (.inr hin))
      omega
    have hone := hcount id hnext
    grind [Multiset.count_eq_zero]

end Kept

end Ledger
