/-
sort_list_to_new_list of hash.h, which takes the nodes of one circular list in turn
and moves each to its place in another.  The walk over the first list keeps the next
node before the move; the walk over the second one is left after it.  The new list is
the insertion sort of the nodes, last node first, and so has the keys in the order in
which list_quick_sort leaves them.
-/
import WaterWall.ListSort

namespace WaterWall

open RingLinks List

universe u

namespace InsertionMove

variable {N : Type u} [DecidableEq N] (key : N → UInt32)

section Moving

variable (newList : N)

/-- The walk over the new list for one node, with a bound on its rounds, and `move_flag`. -/
def placeLoop (src : N) : Nat → N → Links N → Option (Links N × Bool)
  | 0, _, _ => none
  | fuel + 1, sort, links =>
    if sort ≠ newList then
      if key src ≤ key sort then some (links.listMoveTail src sort, true)
      else placeLoop src fuel (links.next sort) links
    else some (links, false)

/-- The body of the loop over the source list. -/
def place (fuel : Nat) (src : N) (links : Links N) : Option (Links N) :=
  match placeLoop key newList src fuel (links.next newList) links with
  | none => none
  | some (links, moveFlag) =>
    if moveFlag = false then some (links.listMoveTail src newList) else some links

/-- The walk over the source list: `pos` and the node that was behind it. -/
def moveLoop (srcList : N) (rounds : Nat) : Nat → N → N → Links N → Option (Links N)
  | 0, _, _, _ => none
  | fuel + 1, pos, tempPos, links =>
    if pos ≠ srcList then
      match place key newList rounds pos links with
      | none => none
      | some links => moveLoop srcList rounds fuel tempPos (links.next tempPos) links
    else some links

end Moving

def sortListToNewList (srcList newList : N) (fuel : Nat) (links : Links N) : Option (Links N) :=
  moveLoop key newList srcList fuel fuel (links.next srcList) (links.next (links.next srcList))
    links

/-- The order of the new list. -/
def KeyLe (x y : N) : Prop :=
  key x ≤ key y

instance : DecidableRel (KeyLe key) := fun x y =>
  inferInstanceAs (Decidable (key x ≤ key y))

instance : Std.Total (KeyLe key) :=
  ⟨fun x y => UInt32.le_total (key x) (key y)⟩

instance : IsTrans N (KeyLe key) :=
  ⟨fun _ _ _ => UInt32.le_trans⟩

section Place

variable {key} {srcList newList x : N} {todo placed : List N} {links : Links N}

theorem placeLoop_spec {passed : List N} (hsource : links.Ring srcList (x :: todo))
    (hring : links.Ring newList (passed ++ placed))
    (hdisjoint : (srcList :: x :: todo).Disjoint (newList :: (passed ++ placed))) :
    ∃ links' moveFlag, (∀ fuel, placed.length < fuel →
        placeLoop key newList x fuel (placed.headD newList) links = some (links', moveFlag)) ∧
      let links' := if moveFlag = false then links'.listMoveTail x newList else links'
      links'.Ring srcList todo ∧
        links'.Ring newList (passed ++ placed.orderedInsert (KeyLe key) x) := by
  induction placed generalizing passed with
  | nil =>
    refine ⟨links, false, fun fuel hfuel => ?_, ?_⟩
    · obtain ⟨fuel, rfl⟩ : ∃ n, fuel = n + 1 := ⟨fuel - 1, by simp at hfuel; omega⟩
      simp [placeLoop]
    · exact @Links.Ring.moves N _ links newList x passed [] srcList [] todo hsource hring
        hdisjoint
  | cons sort placed ih =>
    have hne : sort ≠ newList := by
      rintro rfl
      have hnodup := hring.nodup
      simp at hnodup
    by_cases hle : key x ≤ key sort
    · rw [orderedInsert_cons_of_le _ placed hle]
      refine ⟨links.listMoveTail x sort, true, fun fuel hfuel => ?_, ?_⟩
      · obtain ⟨fuel, rfl⟩ : ∃ n, fuel = n + 1 := ⟨fuel - 1, by simp at hfuel; omega⟩
        rw [headD_cons, placeLoop, if_pos hne, if_pos hle]
      · exact @Links.Ring.moves N _ links newList x passed (sort :: placed) srcList [] todo
          hsource hring hdisjoint
    · have hnext : links.next sort = placed.headD newList := hring.next_eq
      rw [append_cons] at hring hdisjoint
      rw [orderedInsert_of_not_le _ placed hle, append_cons]
      obtain ⟨links', moveFlag, hloop, hrings⟩ := ih hring hdisjoint
      refine ⟨links', moveFlag, fun fuel hfuel => ?_, hrings⟩
      obtain ⟨fuel, rfl⟩ : ∃ n, fuel = n + 1 := ⟨fuel - 1, by simp at hfuel; omega⟩
      rw [headD_cons, placeLoop, if_pos hne, if_neg hle, hnext]
      exact hloop fuel (by simpa using hfuel)

theorem place_spec (hsource : links.Ring srcList (x :: todo)) (hring : links.Ring newList placed)
    (hdisjoint : (srcList :: x :: todo).Disjoint (newList :: placed)) :
    ∃ links', (∀ fuel, placed.length < fuel → place key newList fuel x links = some links') ∧
      links'.Ring srcList todo ∧
      links'.Ring newList (placed.orderedInsert (KeyLe key) x) := by
  obtain ⟨links', moveFlag, hloop, hrings⟩ :=
    @placeLoop_spec N _ key srcList newList x todo placed links [] hsource hring hdisjoint
  have hfirst : links.next newList = placed.headD newList :=
    @Links.Ring.next_last N links newList [] placed hring
  refine ⟨if moveFlag = false then links'.listMoveTail x newList else links',
    fun fuel hfuel => ?_, hrings⟩
  rw [place, hfirst, hloop fuel hfuel]
  cases moveFlag <;> rfl

theorem moveLoop_spec (hsource : links.Ring srcList todo) (hring : links.Ring newList placed)
    (hdisjoint : (srcList :: todo).Disjoint (newList :: placed)) :
    ∃ links', (∀ rounds fuel, placed.length + todo.length ≤ rounds → todo.length < fuel →
        moveLoop key newList srcList rounds fuel (todo.headD srcList)
          (links.next (todo.headD srcList)) links = some links') ∧
      links'.Ring srcList [] ∧
      links'.Ring newList (todo.foldl (fun placed x => placed.orderedInsert (KeyLe key) x)
        placed) := by
  induction todo generalizing placed links with
  | nil =>
    refine ⟨links, fun rounds fuel _ hfuel => ?_, hsource, hring⟩
    obtain ⟨fuel, rfl⟩ : ∃ n, fuel = n + 1 := ⟨fuel - 1, by simp at hfuel; omega⟩
    simp [moveLoop]
  | cons x todo ih =>
    have hx : x ∉ srcList :: todo := @Links.Ring.not_mem N links srcList x [] todo hsource
    have hne : x ≠ srcList := by
      rintro rfl
      exact hx mem_cons_self
    have hnext : links.next x = todo.headD srcList :=
      @Links.Ring.next_eq N links srcList x [] todo hsource
    obtain ⟨links', hplace, hsource', hring'⟩ :=
      @place_spec N _ key srcList newList x todo placed links hsource hring hdisjoint
    have hplaced := perm_orderedInsert (KeyLe key) x placed
    have hdisjoint' : (srcList :: todo).Disjoint
        (newList :: placed.orderedInsert (KeyLe key) x) := by
      have hsub : srcList :: todo ⊆ srcList :: x :: todo := List.Sublist.subset (by simp)
      intro node hnode hmem
      rw [mem_cons, hplaced.mem_iff, mem_cons] at hmem
      obtain rfl | rfl | hmem := hmem
      · exact hdisjoint (hsub hnode) mem_cons_self
      · exact hx hnode
      · exact hdisjoint (hsub hnode) (mem_cons_of_mem _ hmem)
    obtain ⟨links'', hloop, hsource'', hring''⟩ := ih hsource' hring' hdisjoint'
    refine ⟨links'', fun rounds fuel hrounds hfuel => ?_, hsource'', hring''⟩
    obtain ⟨fuel, rfl⟩ : ∃ n, fuel = n + 1 := ⟨fuel - 1, by simp at hfuel; omega⟩
    rw [length_cons] at hrounds hfuel
    rw [headD_cons, moveLoop, if_pos hne, hplace rounds (by omega), hnext]
    grind [List.Perm.length_eq, length_cons]

omit [DecidableEq N] in
theorem disjoint_of_empty {nodes : List N} (hsource : links.Ring srcList nodes)
    (hnew : links.Ring newList []) : nodes = [] ∨ (srcList :: nodes).Disjoint [newList] := by
  by_cases hmem : newList ∈ srcList :: nodes
  · left
    obtain rfl | hmem := mem_cons.mp hmem
    · exact hsource.unique hnew
    · obtain ⟨left, right, rfl⟩ := append_of_mem hmem
      have hself : links.next newList = newList :=
        @Links.Ring.next_last N links newList [] [] hnew
      have hfirst := Links.first_mem srcList left right
      rw [← hsource.next_eq, hself] at hfirst
      exact absurd hfirst hsource.not_mem
  · right
    simpa [disjoint_singleton] using hmem

theorem sortListToNewList_spec {nodes : List N} (hsource : links.Ring srcList nodes)
    (hnew : links.Ring newList []) :
    ∃ links', (∀ fuel, nodes.length < fuel →
        sortListToNewList key srcList newList fuel links = some links') ∧
      links'.Ring srcList [] ∧
      links'.Ring newList (nodes.reverse.insertionSort (KeyLe key)) := by
  have hfirst : links.next srcList = nodes.headD srcList :=
    @Links.Ring.next_last N links srcList [] nodes hsource
  obtain rfl | hdisjoint := disjoint_of_empty hsource hnew
  · refine ⟨links, fun fuel hfuel => ?_, hsource, hnew⟩
    obtain ⟨fuel, rfl⟩ : ∃ n, fuel = n + 1 := ⟨fuel - 1, by simp at hfuel; omega⟩
    simp [sortListToNewList, moveLoop, hfirst]
  · obtain ⟨links', hloop, hsource', hring'⟩ :=
      @moveLoop_spec N _ key srcList newList nodes [] links hsource hnew hdisjoint
    refine ⟨links', fun fuel hfuel => ?_, hsource', ?_⟩
    · rw [sortListToNewList, hfirst]
      exact hloop fuel fuel (by simpa using hfuel.le) hfuel
    · rw [List.insertionSort, foldr_reverse]
      exact hring'

end Place

/-- The sign of the comparison is the sign of the difference of the keys. -/
def ComparesKeys (key : N → UInt32) (compare : N → N → Int32) (nodes : List N) : Prop :=
  ∀ x ∈ nodes, ∀ y ∈ nodes,
    (compare x y).toInt.sign = ((key x).toNat - (key y).toNat : Int).sign

section Keys

variable {key} {compare : N → N → Int32} {nodes sorted others : List N} {x y : N}

omit [DecidableEq N]

theorem ComparesKeys.lt_iff (hkeys : ComparesKeys key compare nodes) (hx : x ∈ nodes)
    (hy : y ∈ nodes) : compare x y < 0 ↔ key x < key y := by
  rw [Int32.lt_iff_toInt_lt, Int32.toInt_zero, ← Int.sign_neg_iff, hkeys x hx y hy,
    Int.sign_neg_iff, UInt32.lt_iff_toNat_lt]
  omega

theorem ComparesKeys.le_iff (hkeys : ComparesKeys key compare nodes) (hx : x ∈ nodes)
    (hy : y ∈ nodes) : compare x y ≤ 0 ↔ key x ≤ key y := by
  have hpos : 0 < compare x y ↔ key y < key x := by
    rw [Int32.lt_iff_toInt_lt, Int32.toInt_zero, ← Int.sign_pos_iff, hkeys x hx y hy,
      Int.sign_pos_iff, UInt32.lt_iff_toNat_lt]
    omega
  rw [← Int32.not_lt, hpos, UInt32.not_lt]

theorem ComparesKeys.signOrder (hkeys : ComparesKeys key compare nodes) :
    SignOrder compare nodes := by
  constructor
  · intro x hx y hy
    rw [hkeys.lt_iff hx hy, ← Int32.not_le, hkeys.le_iff hy hx, UInt32.not_le]
  · intro x hx y hy z hz hxy hyz
    rw [hkeys.le_iff hx hy] at hxy
    rw [hkeys.le_iff hy hz] at hyz
    rw [hkeys.le_iff hx hz]
    exact UInt32.le_trans hxy hyz

theorem keys_unique (hperm : sorted.Perm others) (hsorted : sorted.Pairwise (KeyLe key))
    (hothers : others.Pairwise (KeyLe key)) : sorted.map key = others.map key := by
  refine (hperm.map key).eq_of_pairwise (fun _ _ _ _ => UInt32.le_antisymm) ?_ ?_
  · exact pairwise_map.mpr hsorted
  · exact pairwise_map.mpr hothers

end Keys

/-- The nodes of a list are moved into an empty one in the order of their keys, and the keys
are then as after the quick sort of the list. -/
theorem sortListToNewList_sorts (key : N → UInt32) (srcList newList : N) (nodes : List N)
    (links : Links N) (hsource : links.Ring srcList nodes) (hnew : links.Ring newList []) :
    ∃ links' sorted,
      (∀ fuel, nodes.length < fuel →
        sortListToNewList key srcList newList fuel links = some links') ∧
      links'.Ring srcList [] ∧ links'.Ring newList sorted ∧ sorted.Perm nodes ∧
      (sorted.map key).Pairwise (· ≤ ·) ∧
      ∀ compareFun compareFunType,
        ComparesKeys key (fun x y => compareFun x y compareFunType) nodes →
        ∃ quickLinks quick,
          (∀ fuel, 2 * nodes.length < fuel → listQuickSort compareFun compareFunType srcList fuel
            (links.next srcList) (links.prev srcList) links = some quickLinks) ∧
          quickLinks.Ring srcList quick ∧ quick.map key = sorted.map key := by
  obtain ⟨links', hmove, hsource', hring'⟩ := sortListToNewList_spec hsource hnew
  have hperm := (perm_insertionSort (KeyLe key) nodes.reverse).trans nodes.reverse_perm
  have hsorted := pairwise_insertionSort (KeyLe key) nodes.reverse
  refine ⟨links', _, hmove, hsource', hring', hperm, pairwise_map.mpr hsorted, ?_⟩
  intro compareFun compareFunType hkeys
  obtain ⟨quickLinks, quick, hquick, hring, hquickPerm, hquickSorted⟩ :=
    listQuickSort_whole hsource hkeys.signOrder
  refine ⟨quickLinks, quick, hquick, hring, keys_unique (hquickPerm.trans hperm.symm) ?_ hsorted⟩
  refine hquickSorted.imp_of_mem fun hx hy hle => ?_
  exact (hkeys.le_iff (hquickPerm.mem_iff.mp hx) (hquickPerm.mem_iff.mp hy)).mp hle

namespace MoveWitness

/-- The nodes 2, 3 and 1 behind the head 0, and the empty list 4. -/
def links : Links Nat where
  next
    | 0 => 2
    | 2 => 3
    | 3 => 1
    | 4 => 4
    | _ => 0
  prev
    | 0 => 1
    | 1 => 3
    | 3 => 2
    | 4 => 4
    | _ => 0

theorem links_source : links.Ring 0 [2, 3, 1] where
  nodup := by decide
  chain := .cons_cons ⟨rfl, rfl⟩ (.cons_cons ⟨rfl, rfl⟩ (.cons_cons ⟨rfl, rfl⟩
    (.cons_cons ⟨rfl, rfl⟩ (.singleton 0))))

theorem links_new : links.Ring 4 [] where
  nodup := by decide
  chain := .cons_cons ⟨rfl, rfl⟩ (.singleton 4)

theorem comparesKeys_three : ComparesKeys (fun x : Nat => x.toUInt32)
    (fun x y => SortWitness.compareFun x y 0) [2, 3, 1] := by
  unfold ComparesKeys
  decide

theorem sorts_three : ∃ links' sorted quickLinks quick,
    (∀ fuel, 3 < fuel → sortListToNewList (fun x : Nat => x.toUInt32) 0 4 fuel links =
      some links') ∧
    links'.Ring 0 [] ∧ links'.Ring 4 sorted ∧ sorted.Perm [2, 3, 1] ∧
    (sorted.map fun x => x.toUInt32).Pairwise (· ≤ ·) ∧
    (∀ fuel, 6 < fuel → listQuickSort SortWitness.compareFun 0 0 fuel 2 1 links =
      some quickLinks) ∧
    quickLinks.Ring 0 quick ∧
    (quick.map fun x => x.toUInt32) = sorted.map fun x => x.toUInt32 := by
  obtain ⟨links', sorted, hmove, hsource, hring, hperm, hsorted, hquick⟩ :=
    sortListToNewList_sorts (fun x : Nat => x.toUInt32) 0 4 [2, 3, 1] links links_source links_new
  obtain ⟨quickLinks, quick, hsort, hquickRing, hkeys⟩ :=
    hquick SortWitness.compareFun 0 comparesKeys_three
  exact ⟨links', sorted, quickLinks, quick, hmove, hsource, hring, hperm, hsorted, hsort,
    hquickRing, hkeys⟩

end MoveWitness

end InsertionMove

end WaterWall
