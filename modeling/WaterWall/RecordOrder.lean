/-
list_commen_compare_fun of hash.c, with which chat messages and detail records are
sorted by time.  The times are 64 bits wide and without sign, their difference is
returned as a signed number of 32 bits.  On times that are less than 2 ^ 31 apart its
sign is that of the difference, so the sort orders by time; two times that are further
apart compare the wrong way round, and two that are 2 ^ 31 apart compare as smaller
both ways, on which the sort swaps the two nodes without end.
-/
import WaterWall.ListSort
import Mathlib

namespace WaterWall.RecordOrder

open RingLinks List

/-- The fields by which the three kinds of nodes are compared, by the address of the node. -/
structure Records where
  (qqTime detailTime : Nat → UInt64)
  gid : Nat → Int32

/-- The kinds of nodes that have a time. -/
inductive SortType where
  | qqWkMsg
  | detailWkAct

namespace SortType

/-- `LIST_QQ_WK_MSG_SORT` and `LIST_DETAIL_WK_ACT_SORT`. -/
def code : SortType → Int32
  | qqWkMsg => 0
  | detailWkAct => 1

def time (records : Records) : SortType → Nat → UInt64
  | qqWkMsg => records.qqTime
  | detailWkAct => records.detailTime

end SortType

/-- The macro at a key of 64 bits: the difference is cut to what `return_val` holds. -/
def listCommenCompare (one two : UInt64) : Int32 :=
  (one - two).toUInt32.toInt32

def listCommenCompareFun (records : Records) (a b : Nat) (compareType : Int32) : Int32 :=
  match compareType with
  | 0 => listCommenCompare (records.qqTime a) (records.qqTime b)
  | 1 => listCommenCompare (records.detailTime a) (records.detailTime b)
  | 2 => records.gid a - records.gid b
  | _ => 0

theorem listCommenCompareFun_code (records : Records) (kind : SortType) (a b : Nat) :
    listCommenCompareFun records a b kind.code =
      listCommenCompare (kind.time records a) (kind.time records b) := by
  cases kind <;> rfl

/-- All lists of records whose times are among the given ones are sorted by time. -/
def SortsByTime (times : Set Nat) : Prop :=
  ∀ (records : Records) (kind : SortType) (head : Nat) (nodes : List Nat) (links : Links Nat),
    links.Ring head nodes → (∀ x ∈ nodes, (kind.time records x).toNat ∈ times) →
    ∃ links' sorted, (∀ fuel, 2 * nodes.length < fuel →
        listQuickSort (listCommenCompareFun records) kind.code head fuel (links.next head)
          (links.prev head) links = some links') ∧
      links'.Ring head sorted ∧ sorted.Perm nodes ∧
      sorted.Pairwise fun x y => kind.time records x ≤ kind.time records y

section Compare

variable {one two : UInt64}

theorem listCommenCompare_toInt (one two : UInt64) : (listCommenCompare one two).toInt =
    Int.bmod ((one.toNat : Int) - two.toNat) (2 ^ 32) := by
  have hwrap : ((one - two).toUInt32.toBitVec.toNat : Int) =
      ((one.toNat : Int) - two.toNat) % 2 ^ 32 := by
    change ((one - two).toUInt32.toNat : Int) = _
    rw [UInt64.toNat_toUInt32, UInt64.toNat_sub]
    have hlt := two.toNat_lt
    omega
  change (one - two).toUInt32.toBitVec.toInt = _
  rw [BitVec.toInt_eq_toNat_bmod, hwrap]
  exact Int.emod_bmod _ _

theorem listCommenCompare_near (hone : one.toNat < two.toNat + 2 ^ 31)
    (htwo : two.toNat < one.toNat + 2 ^ 31) :
    (listCommenCompare one two).toInt = (one.toNat : Int) - two.toNat := by
  rw [listCommenCompare_toInt]
  apply Int.bmod_eq_of_le <;> omega

theorem listCommenCompare_far (hfar : two.toNat + 2 ^ 31 ≤ one.toNat)
    (hone : one.toNat < 2 ^ 32) : listCommenCompare one two < 0 := by
  rw [Int32.lt_iff_toInt_lt, listCommenCompare_toInt, Int32.toInt_zero, Int.bmod_def]
  split <;> omega

end Compare

theorem signOrder_of_near {records : Records} {kind : SortType} {nodes : List Nat}
    (hnear : ∀ x ∈ nodes, ∀ y ∈ nodes,
      (kind.time records x).toNat < (kind.time records y).toNat + 2 ^ 31) :
    SignOrder (fun x y => listCommenCompareFun records x y kind.code) nodes := by
  have hcompare (x) (hx : x ∈ nodes) (y) (hy : y ∈ nodes) :
      (listCommenCompareFun records x y kind.code).toInt =
        ((kind.time records x).toNat : Int) - (kind.time records y).toNat := by
    rw [listCommenCompareFun_code]
    exact listCommenCompare_near (hnear x hx y hy) (hnear y hy x hx)
  constructor
  · grind [Int32.lt_iff_toInt_lt]
  grind [Int32.le_iff_toInt_le]

section Pair

variable {compareFun : Nat → Nat → Int32 → Int32} {compareFunType : Int32} {head a b : Nat}
  {links result : Links Nat} {fuel : Nat}

theorem listGetPartion_pair (hring : links.Ring head [a, b]) :
    ∃ links' less more, listGetPartion compareFun compareFunType head (fuel + 2) a b links =
        some (links', (less ++ [a]).headD head, more.getLastD a, a) ∧
      links'.Ring head (less ++ a :: more) ∧
      (compareFun b a compareFunType < 0 ∧ less = [b] ∧ more = [] ∨
        ¬ compareFun b a compareFunType < 0 ∧ less = [] ∧ more = [b]) := by
  obtain ⟨links', less, more, hpartion, hring', hparted, hperm, -⟩ :=
    @listGetPartion_spec Nat _ compareFun compareFunType head a b [] [] [b] links (fuel + 2)
      hring rfl (.inl rfl) (by simp)
  refine ⟨links', less, more, hpartion, by simpa using hring', ?_⟩
  obtain ⟨rfl, rfl⟩ | ⟨rfl, rfl⟩ := append_eq_singleton_iff.mp (perm_singleton.mp hperm)
  · exact .inr ⟨hparted.more b mem_cons_self, rfl, rfl⟩
  · exact .inl ⟨hparted.less b mem_cons_self, rfl, rfl⟩

theorem listQuickSort_pair_kept (hring : links.Ring head [a, b])
    (hle : ¬ compareFun b a compareFunType < 0)
    (hsort : listQuickSort compareFun compareFunType head (fuel + 2) a b links = some result) :
    result.Ring head [a, b] := by
  have hne : a ≠ b := (@nodup_of_ring Nat links head a b [] [] [] hring).1
  obtain ⟨links', less, more, hpartion, hring', ⟨hlt, -⟩ | ⟨-, rfl, rfl⟩⟩ :=
    @listGetPartion_pair compareFun compareFunType head a b links fuel hring
  · exact absurd hlt hle
  · have hnext : links'.next a = b := @Links.Ring.next_eq Nat links' head a [] [b] hring'
    rw [listQuickSort, if_pos hne, hpartion] at hsort
    obtain rfl : links' = result := by
      simpa [hnext] using hsort
    exact hring'

/-- Two nodes of which the second is smaller are swapped if the sort ends, and it ends only if
the first one is not smaller as well. -/
theorem listQuickSort_pair_swapped (hring : links.Ring head [a, b])
    (hlt : compareFun b a compareFunType < 0)
    (hsort : listQuickSort compareFun compareFunType head fuel a b links = some result) :
    ¬ compareFun a b compareFunType < 0 ∧ result.Ring head [b, a] := by
  induction fuel generalizing a b links result with
  | zero => cases hsort
  | succ fuel ih =>
    have hne : a ≠ b := (@nodup_of_ring Nat links head a b [] [] [] hring).1
    obtain ⟨links', less, more, hpartion, hring', ⟨-, rfl, rfl⟩ | ⟨hle, -⟩⟩ :=
      @listGetPartion_pair compareFun compareFunType head a b links fuel hring
    · rw [listQuickSort, if_pos hne] at hsort
      cases hfound : listGetPartion compareFun compareFunType head (fuel + 1) a b links with
      | none =>
        rw [hfound] at hsort
        cases hsort
      | some found =>
        obtain rfl := Option.some.inj
          ((listGetPartion_mono (Nat.le_succ _) hfound).symm.trans hpartion)
        rw [hfound] at hsort
        simp only [cons_append, nil_append, headD_cons, getLastD_nil,
          ne_eq, hne.symm, not_false_eq_true, if_true] at hsort
        cases hleft : listQuickSort compareFun compareFunType head fuel b a links' with
        | none =>
          rw [hleft] at hsort
          cases hsort
        | some sorted =>
          rw [hleft] at hsort
          have hback : ¬ compareFun a b compareFunType < 0 := fun hback =>
            (ih hring' hback hleft).1 hlt
          have hkept := listQuickSort_pair_kept hring' hback
            (listQuickSort_mono (Nat.le_add_right fuel 2) hleft)
          have hnext : sorted.next a = head :=
            @Links.Ring.next_eq Nat sorted head a [b] [] hkept
          grind
    · exact absurd hlt hle

end Pair

/-- The head 0 and the nodes 1 and 2. -/
def pairLinks : Links Nat where
  next
    | 0 => 1
    | 1 => 2
    | _ => 0
  prev
    | 0 => 2
    | 2 => 1
    | _ => 0

theorem pairLinks_ring : pairLinks.Ring 0 [1, 2] where
  nodup := by decide
  chain := .cons_cons ⟨rfl, rfl⟩ (.cons_cons ⟨rfl, rfl⟩ (.cons_cons ⟨rfl, rfl⟩ (.singleton 0)))

/-- Two messages, the earlier one first. -/
def pairRecords (first second : UInt64) : Records where
  qqTime x := if x = 1 then first else second
  detailTime _ := 0
  gid _ := 0

theorem near_of_sortsByTime {times : Set Nat} (hbound : ∀ t ∈ times, t < 2 ^ 32)
    (hsorts : SortsByTime times) {s t : Nat} (hs : s ∈ times) (ht : t ∈ times) :
    s < t + 2 ^ 31 := by
  have hsize {n : Nat} (hn : n ∈ times) : (UInt64.ofNat n).toNat = n :=
    UInt64.toNat_ofNat_of_lt' (lt_trans (hbound n hn) (by decide))
  by_contra hfar
  have hearlier : (pairRecords (.ofNat t) (.ofNat s)).qqTime 1 = .ofNat t := rfl
  have hlater : (pairRecords (.ofNat t) (.ofNat s)).qqTime 2 = .ofNat s := rfl
  obtain ⟨links', sorted, hsort, hring, -, hsorted⟩ :=
    hsorts (pairRecords (.ofNat t) (.ofNat s)) .qqWkMsg 0 [1, 2] pairLinks pairLinks_ring (by
      simp [SortType.time, hearlier, hlater, hsize hs, hsize ht, hs, ht])
  have hlt : listCommenCompareFun (pairRecords (.ofNat t) (.ofNat s)) 2 1 SortType.qqWkMsg.code <
      0 := by
    rw [listCommenCompareFun_code]
    refine listCommenCompare_far ?_ ?_
    · rw [SortType.time, hearlier, hlater, hsize hs, hsize ht]
      exact not_lt.mp hfar
    · rw [SortType.time, hlater, hsize hs]
      exact hbound s hs
  have hswapped := (listQuickSort_pair_swapped pairLinks_ring hlt (hsort 5 (by decide))).2
  rw [hring.unique hswapped] at hsorted
  have hle := rel_of_pairwise_cons hsorted (mem_cons_self)
  rw [SortType.time, hearlier, hlater, UInt64.le_iff_toNat_le, hsize hs, hsize ht] at hle
  omega

namespace RecordWitness

end RecordWitness

end WaterWall.RecordOrder
