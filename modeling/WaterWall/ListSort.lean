/-
list_swap, list_get_partion and list_quick_sort of hash.c, which sort a circular
list by moving its nodes.  The partition takes the first node of a range as pivot
and looks for the end of the range by the node that was last; that node may be
moved only where the list ends too, since the walk then stops at the head.  So
every range is one that ends the list or one that ends in a greatest node, and the
left range, which includes the pivot, is of the second kind.
-/
import WaterWall.RingLinks
import Mathlib.Data.List.Sort

namespace WaterWall

open RingLinks List

universe u

variable {N : Type u} [DecidableEq N]

def listSwap (links : Links N) (a b : N) : Links N :=
  if a ≠ b then
    let pos := if b ≠ links.next b then some (links.next b) else none
    if a = links.next b then (links.listDelInit a).listMoveTail a b
    else if a = links.prev b then
      let links := links.listDelInit a
      links.listMoveTail a (links.next b)
    else
      let links := links.listDelInit b
      let links := links.listMoveTail b (links.next a)
      match pos with
      | some pos => (links.listDelInit a).listMoveTail a pos
      | none => links.listDelInit a
  else links

section Partion

variable (compareFun : N → N → Int32 → Int32) (compareFunType : Int32) (head : N)

/-- The loop of list_get_partion, with a bound on its rounds. -/
def partionLoop (beginAt endAt : N) : Nat → Links N → N → N → Option (Links N × N × N)
  | 0, _, _, _ => none
  | fuel + 1, links, p, q =>
    if links.prev q ≠ endAt ∧ q ≠ head then
      if compareFun q beginAt compareFunType < 0 then
        let p := links.next p
        if p ≠ q then
          let qNext := links.next q
          let pPrev := links.prev p
          let links := listSwap links p q
          partionLoop beginAt endAt fuel links (links.next pPrev) qNext
        else partionLoop beginAt endAt fuel links p (links.next q)
      else partionLoop beginAt endAt fuel links p (links.next q)
    else some (links, p, q)

/-- The links, what `*begin` and `*end` become, and the pivot that is returned. -/
def listGetPartion (fuel : Nat) (beginAt endAt : N) (links : Links N) :
    Option (Links N × N × N × N) :=
  match partionLoop compareFun compareFunType head beginAt endAt fuel links beginAt
      (links.next beginAt) with
  | none => none
  | some (links, p, q) =>
    let links := if p ≠ beginAt then listSwap links p beginAt else links
    some (links, p, links.prev q, beginAt)

/-- The sort, with a bound on the depth of its calls and the rounds of its loops. -/
def listQuickSort : Nat → N → N → Links N → Option (Links N)
  | 0, _, _, _ => none
  | fuel + 1, beginAt, endAt, links =>
    if beginAt ≠ endAt then
      match listGetPartion compareFun compareFunType head (fuel + 1) beginAt endAt links with
      | none => none
      | some (links, beginAt, endAt, partion) =>
        match if beginAt ≠ partion then listQuickSort fuel beginAt partion links
          else some links with
        | none => none
        | some links =>
          if links.next partion ≠ endAt ∧ links.next partion ≠ head then
            listQuickSort fuel (links.next partion) endAt links
          else some links
    else some links

end Partion

section Swap

variable {links : Links N} {head a b : N} {front mid rest : List N}

omit [DecidableEq N] in
theorem nodup_of_ring (hring : links.Ring head (front ++ a :: (mid ++ b :: rest))) :
    a ≠ b ∧ a ∉ mid ∧ b ∉ mid ∧ a ∉ rest ∧ b ∉ rest ∧ a ≠ head ∧ b ≠ head ∧ a ∉ front ∧
      b ∉ front := by
  have hnodup := hring.nodup
  simp only [nodup_cons, nodup_append, mem_append, mem_cons] at hnodup
  grind

theorem ring_listSwap (hring : links.Ring head (front ++ a :: (mid ++ b :: rest))) :
    (listSwap links a b).Ring head (front ++ b :: (mid ++ a :: rest)) := by
  obtain ⟨hab, hamid, hbmid, harest, hbrest, hahead, hbhead, hafront, hbfront⟩ :=
    nodup_of_ring hring
  have hringB : links.Ring head ((front ++ a :: mid) ++ b :: rest) := by
    simpa using hring
  have hnext : links.next b = rest.headD head := hringB.next_eq
  have hprev : links.prev b = mid.getLastD a := by
    rw [hringB.prev_eq, Links.getLastD_append_cons]
  have hfirst := Links.headD_mem head rest
  have hanext : a ≠ links.next b := by
    rw [hnext]
    rintro heq
    rw [← heq] at hfirst
    simp [harest, hahead] at hfirst
  have hbnext : b ≠ links.next b := by
    rw [hnext]
    rintro heq
    rw [← heq] at hfirst
    simp [hbrest, hbhead] at hfirst
  rw [listSwap, if_pos hab, if_pos hbnext, if_neg hanext, hprev]
  cases mid with
  | nil =>
    -- Neighbours: only the first node is moved.
    rw [getLastD_nil, if_pos rfl]
    obtain ⟨hdel, halone⟩ := hring.listDelInit
    have hdel' : (links.listDelInit a).Ring head ((front ++ [b]) ++ rest) := by
      simpa using hdel
    have hmoved := hdel'.listMoveTail (by simpa using hring.not_mem) halone
    have hnext' : (links.listDelInit a).next b = rest.headD head := hdel.next_eq
    simpa [hnext'] using hmoved
  | cons m mid =>
    have hne : a ≠ (m :: mid).getLastD a := by
      grind
    rw [if_neg hne]
    -- The second node goes behind the first, then the first to where the second was.
    obtain ⟨hdelB, haloneB⟩ := hringB.listDelInit
    have hdelB' : (links.listDelInit b).Ring head ((front ++ [a]) ++ (m :: mid ++ rest)) := by
      simpa using hdelB
    have hnextA : (links.listDelInit b).next a = (m :: mid ++ rest).headD head := by
      grind [Links.Ring.next_eq]
    have hmovedB := hdelB'.listMoveTail (by simpa using hringB.not_mem) haloneB
    rw [← hnextA] at hmovedB
    have hat : ((links.listDelInit b).listMoveTail b ((links.listDelInit b).next a)).Ring head
        (front ++ a :: (b :: (m :: mid ++ rest))) := by
      simpa using hmovedB
    obtain ⟨hdelA, haloneA⟩ := hat.listDelInit
    have hdelA' : (((links.listDelInit b).listMoveTail b
        ((links.listDelInit b).next a)).listDelInit a).Ring head
          ((front ++ b :: m :: mid) ++ rest) := by
      simpa using hdelA
    have hmovedA := hdelA'.listMoveTail (by simpa using hat.not_mem) haloneA
    simpa [hnext] using hmovedA

theorem ring_listSwap_symm (hring : links.Ring head (front ++ b :: (mid ++ a :: rest))) :
    (listSwap links a b).Ring head (front ++ a :: (mid ++ b :: rest)) := by
  obtain ⟨hba, hbmid, hamid, hbrest, harest, hbhead, hahead, hbfront, hafront⟩ :=
    nodup_of_ring hring
  have hringA : links.Ring head ((front ++ b :: mid) ++ a :: rest) := by
    simpa using hring
  have hnext : links.next b = (mid ++ a :: rest).headD head := hring.next_eq
  have hbnext : b ≠ links.next b := by
    rw [hnext]
    cases mid with
    | nil => exact hba
    | cons m mid =>
      rintro rfl
      exact hbmid mem_cons_self
  rw [listSwap, if_pos (Ne.symm hba), if_pos hbnext]
  cases mid with
  | nil =>
    rw [hnext, nil_append, headD_cons, if_pos rfl]
    obtain ⟨hdel, halone⟩ := hringA.listDelInit
    have hdel' : (links.listDelInit a).Ring head (front ++ b :: rest) := by
      simpa using hdel
    exact hdel'.listMoveTail (by simpa using hringA.not_mem) halone
  | cons m mid =>
    have hanext : a ≠ links.next b := by
      rw [hnext]
      rintro rfl
      exact hamid mem_cons_self
    have haprev : a ≠ links.prev b := by
      rw [hring.prev_eq]
      grind
    rw [if_neg hanext, if_neg haprev, hnext, cons_append, headD_cons]
    obtain ⟨hdelB, haloneB⟩ := hring.listDelInit
    have hdelB' : (links.listDelInit b).Ring head ((front ++ m :: mid ++ [a]) ++ rest) := by
      simpa using hdelB
    have hnextA : (links.listDelInit b).next a = rest.headD head := by
      grind [Links.Ring.next_eq]
    have hmovedB := hdelB'.listMoveTail (by simpa using hring.not_mem) haloneB
    rw [← hnextA] at hmovedB
    have hat : ((links.listDelInit b).listMoveTail b ((links.listDelInit b).next a)).Ring head
        ((front ++ m :: mid) ++ a :: b :: rest) := by
      simpa using hmovedB
    obtain ⟨hdelA, haloneA⟩ := hat.listDelInit
    have hdelA' : (((links.listDelInit b).listMoveTail b
        ((links.listDelInit b).next a)).listDelInit a).Ring head
          (front ++ (m :: mid ++ b :: rest)) := by
      simpa using hdelA
    exact hdelA'.listMoveTail (by simpa using hat.not_mem) haloneA

end Swap

section Loop

variable {compareFun : N → N → Int32 → Int32} {compareFunType : Int32} {head pivot endAt : N}

/-- The nodes that the loop has sorted out: less than the pivot, and not less. -/
structure Parted (compareFun : N → N → Int32 → Int32) (compareFunType : Int32) (pivot : N)
    (less more : List N) : Prop where
  less : ∀ x ∈ less, compareFun x pivot compareFunType < 0
  more : ∀ x ∈ more, ¬ compareFun x pivot compareFunType < 0

/-- The loop from a state in which `less` and `more` are sorted out and `todo` is left of the
range; `endAt` is the last node of it, also when it is sorted out unless the list ends there. -/
theorem partionLoop_spec {front rest : List N} (hkept : rest = [] ∨
      ¬ compareFun endAt pivot compareFunType < 0) {fuel : Nat} {links : Links N}
    {less more todo : List N} (hring : links.Ring head
      (front ++ pivot :: (less ++ (more ++ (todo ++ rest)))))
    (hparted : Parted compareFun compareFunType pivot less more)
    (hend : todo.getLast? = some endAt ∨ todo = [] ∧ (rest = [] ∨ more.getLast? = some endAt))
    (hfuel : todo.length < fuel) :
    ∃ links' less' more', partionLoop compareFun compareFunType head pivot endAt fuel links
        (less.getLastD pivot) ((todo ++ rest).headD head) =
          some (links', less'.getLastD pivot, rest.headD head) ∧
      links'.Ring head (front ++ pivot :: (less' ++ (more' ++ rest))) ∧
      Parted compareFun compareFunType pivot less' more' ∧
      (less' ++ more').Perm (less ++ (more ++ todo)) ∧
      (rest = [] ∨ more'.getLast? = some endAt) := by
  induction todo generalizing fuel links less more with
  | nil =>
    obtain ⟨fuel, rfl⟩ : ∃ n, fuel = n + 1 := ⟨fuel - 1, by simp at hfuel; omega⟩
    have hstop : rest = [] ∨ more.getLast? = some endAt := by
      simpa using hend
    refine ⟨links, less, more, ?_, hring, hparted, by simp, hstop⟩
    rw [partionLoop, if_neg]
    · rfl
    · rintro ⟨hprev, hhead⟩
      obtain rfl | hlast := hstop
      · exact hhead rfl
      · have hat : links.Ring head ((front ++ pivot :: (less ++ more)) ++ rest) := by
          simpa using hring
        apply hprev
        rw [nil_append, hat.prev_first, Links.getLastD_append_cons,
          getLastD_eq_getLast?, List.getLast?_append, hlast]
        rfl
  | cons q todo ih =>
    obtain ⟨fuel, rfl⟩ : ∃ n, fuel = n + 1 := ⟨fuel - 1, by simp at hfuel; omega⟩
    rw [length_cons] at hfuel
    have hringQ : links.Ring head ((front ++ pivot :: (less ++ more)) ++ q :: (todo ++ rest)) := by
      simpa using hring
    have hlast : (q :: todo).getLast? = some endAt := by
      simpa using hend
    have hmem : endAt ∈ q :: todo := mem_of_getLast? hlast
    have hnodup := hringQ.nodup
    -- The walk goes on: the node before `q` is not the last one, and `q` is not the head.
    have hprev : links.prev q ≠ endAt := by
      rw [hringQ.prev_eq, Links.getLastD_append_cons]
      intro heq
      have hbefore := Links.getLastD_mem pivot (less ++ more)
      rw [heq] at hbefore
      refine (nodup_append.mp hnodup.of_cons).2.2 endAt (by simp_all) endAt ?_ rfl
      rw [← cons_append]
      exact mem_append_left _ hmem
    have hhead : q ≠ head := by
      rintro rfl
      exact (nodup_cons.mp hnodup).1 (by simp)
    have hnextQ : links.next q = (todo ++ rest).headD head := hringQ.next_eq
    rw [cons_append, headD_cons, partionLoop, if_pos ⟨hprev, hhead⟩]
    by_cases hcompare : compareFun q pivot compareFunType < 0
    · have hless : ∀ more, (∀ x ∈ more, ¬ compareFun x pivot compareFunType < 0) →
          Parted compareFun compareFunType pivot (less ++ [q]) more := by
        refine fun more hmore => ⟨?_, hmore⟩
        rw [forall_mem_append, forall_mem_singleton]
        exact ⟨hparted.less, hcompare⟩
      -- A last node that is moved is the last one of the list.
      have hend' : ∀ more : List N, todo.getLast? = some endAt ∨
          todo = [] ∧ (rest = [] ∨ more.getLast? = some endAt) := by
        intro more
        cases todo with
        | nil =>
          grind
        | cons x todo => exact .inl hlast
      have hringP : links.Ring head ((front ++ pivot :: less) ++
          (more ++ q :: (todo ++ rest))) := by
        simpa using hring
      have hnextP : links.next (less.getLastD pivot) =
          (more ++ q :: (todo ++ rest)).headD head := by
        rw [← hringP.next_last, Links.getLastD_append_cons]
      rw [if_pos hcompare, hnextP]
      cases more with
      | nil =>
        rw [nil_append, headD_cons, if_neg (not_not_intro rfl), hnextQ]
        obtain ⟨links', less', more', hloop, hring', hparted', hperm, hstop⟩ :=
          @ih fuel links (less ++ [q]) [] (by simpa using hring) (hless [] (by simp))
            (hend' []) (by omega)
        rw [getLastD_concat] at hloop
        exact ⟨links', less', more', hloop, hring', hparted', by simpa using hperm, hstop⟩
      | cons g more =>
        have hgq : g ≠ q := by
          rintro rfl
          exact hparted.more g mem_cons_self hcompare
        have hringG : links.Ring head ((front ++ pivot :: less) ++
            g :: (more ++ q :: (todo ++ rest))) := by
          simpa using hring
        have hswap := ring_listSwap hringG
        have hnextP' : (listSwap links g q).next (less.getLastD pivot) = q := by
          have hlinked := hswap.next_last
          rwa [Links.getLastD_append_cons, headD_cons] at hlinked
        rw [cons_append, headD_cons, if_pos hgq, hringG.prev_eq,
          Links.getLastD_append_cons]
        simp only [hnextP', hnextQ]
        obtain ⟨links', less', more', hloop, hring', hparted', hperm, hstop⟩ :=
          @ih fuel _ (less ++ [q]) (more ++ [g]) (by simpa using hswap)
            (hless _ fun x hx => hparted.more x (by simpa [or_comm] using hx)) (hend' _)
            (by omega)
        rw [getLastD_concat] at hloop
        refine ⟨links', less', more', hloop, hring', hparted', hperm.trans ?_, hstop⟩
        have hmoved : (q :: (more ++ g :: todo)).Perm (g :: (more ++ q :: todo)) :=
          (perm_middle.cons q).trans
            ((List.Perm.swap g q _).trans (perm_middle.symm.cons g))
        simpa using hmoved.append_left less
    · rw [if_neg hcompare, hnextQ]
      have hend' : todo.getLast? = some endAt ∨
          todo = [] ∧ (rest = [] ∨ (more ++ [q]).getLast? = some endAt) := by
        cases todo with
        | nil => exact .inr ⟨rfl, .inr (by simpa using hlast)⟩
        | cons x todo => exact .inl hlast
      have hparted' : Parted compareFun compareFunType pivot less (more ++ [q]) := by
        refine ⟨hparted.less, ?_⟩
        rw [forall_mem_append, forall_mem_singleton]
        exact ⟨hparted.more, hcompare⟩
      obtain ⟨links', less', more', hloop, hring', hparted', hperm, hstop⟩ :=
        @ih fuel links less (more ++ [q]) (by simpa using hring) hparted' hend' (by omega)
      exact ⟨links', less', more', hloop, hring', hparted', by simpa using hperm, hstop⟩

theorem listGetPartion_spec {front rest todo : List N} {links : Links N} {fuel : Nat}
    (hring : links.Ring head (front ++ pivot :: (todo ++ rest)))
    (hlast : todo.getLast? = some endAt)
    (hkept : rest = [] ∨ ¬ compareFun endAt pivot compareFunType < 0)
    (hfuel : todo.length < fuel) :
    ∃ links' less more, listGetPartion compareFun compareFunType head fuel pivot endAt links =
        some (links', (less ++ [pivot]).headD head, more.getLastD pivot, pivot) ∧
      links'.Ring head (front ++ (less ++ pivot :: (more ++ rest))) ∧
      Parted compareFun compareFunType pivot less more ∧ (less ++ more).Perm todo ∧
      (rest = [] ∨ more.getLast? = some endAt) := by
  obtain ⟨links', less, more, hloop, hring', hparted, hperm, hstop⟩ :=
    @partionLoop_spec N _ compareFun compareFunType head pivot endAt front rest hkept fuel links
      [] [] todo hring ⟨by simp, by simp⟩ (.inl hlast) hfuel
  rw [listGetPartion, hring.next_eq]
  rw [getLastD_nil] at hloop
  rw [hloop]
  obtain rfl | ⟨init, p, hconcat⟩ := eq_nil_or_concat less
  · have hat : links'.Ring head ((front ++ pivot :: more) ++ rest) := by
      simpa using hring'
    have hprev : links'.prev (rest.headD head) = more.getLastD pivot := by
      rw [hat.prev_first, Links.getLastD_append_cons]
    refine ⟨links', [], more, ?_, by simpa using hring', hparted, by simpa using hperm, hstop⟩
    grind
  · rw [concat_eq_append] at hconcat
    subst hconcat
    have hat : links'.Ring head (front ++ pivot :: (init ++ p :: (more ++ rest))) := by
      simpa using hring'
    have hne : p ≠ pivot := Ne.symm (nodup_of_ring hat).1
    have hswap := ring_listSwap_symm hat
    have hprev : (listSwap links' p pivot).prev (rest.headD head) = more.getLastD pivot := by
      have hsplit : (listSwap links' p pivot).Ring head
          ((front ++ p :: init ++ pivot :: more) ++ rest) := by
        simpa using hswap
      rw [hsplit.prev_first, Links.getLastD_append_cons]
    refine ⟨listSwap links' p pivot, p :: init, more, ?_, by simpa using hswap,
      ⟨fun x hx => hparted.less x ?_, hparted.more⟩, ?_, hstop⟩
    · simp only [getLastD_concat, ne_eq, hne, not_false_eq_true, if_true, hprev,
        cons_append, headD_cons]
    · simpa [or_comm] using hx
    · refine List.Perm.trans ?_ (by simpa using hperm)
      exact perm_middle.symm

end Loop

/-- The sign of the comparison is that of a total preorder on the nodes. -/
structure SignOrder (compare : N → N → Int32) (nodes : List N) : Prop where
  flip : ∀ x ∈ nodes, ∀ y ∈ nodes, compare x y < 0 ↔ 0 < compare y x
  trans : ∀ x ∈ nodes, ∀ y ∈ nodes, ∀ z ∈ nodes,
    compare x y ≤ 0 → compare y z ≤ 0 → compare x z ≤ 0

/-- No node is greater than the given one. -/
def Greatest (compare : N → N → Int32) (nodes : List N) (last : N) : Prop :=
  ∀ x ∈ nodes, ¬ compare last x < 0

section Order

variable {compare : N → N → Int32} {nodes others : List N} {x y : N}

omit [DecidableEq N]

theorem SignOrder.of_subset (horder : SignOrder compare nodes) (hsub : others ⊆ nodes) :
    SignOrder compare others :=
  ⟨fun x hx y hy => horder.flip x (hsub hx) y (hsub hy),
    fun x hx y hy z hz => horder.trans x (hsub hx) y (hsub hy) z (hsub hz)⟩

theorem SignOrder.le_of_not_lt (horder : SignOrder compare nodes) (hx : x ∈ nodes)
    (hy : y ∈ nodes) (hnot : ¬ compare x y < 0) : compare y x ≤ 0 :=
  Int32.not_lt.mp ((horder.flip x hx y hy).not.mp hnot)

theorem SignOrder.not_le_of_lt (horder : SignOrder compare nodes) (hx : x ∈ nodes)
    (hy : y ∈ nodes) (hlt : compare x y < 0) : ¬ compare y x ≤ 0 := by
  intro hle
  exact Int32.not_lt.mpr hle ((horder.flip x hx y hy).mp hlt)

theorem SignOrder.not_lt_of_lt (horder : SignOrder compare nodes) (hx : x ∈ nodes)
    (hy : y ∈ nodes) (hlt : compare x y < 0) : ¬ compare y x < 0 := fun hback =>
  horder.not_le_of_lt hx hy hlt (Int32.le_of_lt hback)

theorem SignOrder.irrefl (horder : SignOrder compare nodes) (hx : x ∈ nodes) :
    ¬ compare x x < 0 := fun hlt =>
  horder.not_lt_of_lt hx hx hlt hlt

theorem sorted_concat {r : N → N → Prop} {sorted less : List N}
    (hperm : sorted.Perm (less ++ [x])) (hsorted : sorted.Pairwise r)
    (hmax : ∀ y ∈ less, ¬ r x y) : ∃ init, sorted = init ++ [x] ∧ init.Perm less := by
  obtain ⟨init, behind, rfl⟩ : ∃ init behind, sorted = init ++ x :: behind :=
    append_of_mem (hperm.mem_iff.mpr (by simp))
  have hothers : (init ++ behind).Perm less := by
    have hcons : (x :: (init ++ behind)).Perm (x :: less) :=
      perm_middle.symm.trans (hperm.trans (perm_append_singleton x less))
    exact (perm_cons x).mp hcons
  obtain rfl : behind = [] := by
    refine eq_nil_iff_forall_not_mem.mpr fun y hy => ?_
    have hafter := (pairwise_cons.mp (pairwise_append.mp hsorted).2.1).1 y hy
    exact hmax y (hothers.mem_iff.mp (mem_append_right _ hy)) hafter
  exact ⟨init, rfl, by simpa using hothers⟩

end Order

section Sorting

variable {compareFun : N → N → Int32 → Int32} {compareFunType : Int32} {head : N}

/-- A call with this bound sorts every range that ends the list or ends in a greatest node, if
the range is not too long: a greatest node at the end saves one call. -/
def SortsRanges (compareFun : N → N → Int32 → Int32) (compareFunType : Int32) (head : N)
    (fuel : Nat) : Prop :=
  ∀ (links : Links N) (front rest todo : List N) (pivot : N),
    SignOrder (fun x y => compareFun x y compareFunType) (pivot :: todo) →
    links.Ring head (front ++ pivot :: (todo ++ rest)) →
    (rest = [] ∨ Greatest (fun x y => compareFun x y compareFunType) (pivot :: todo)
      (todo.getLastD pivot)) →
    (2 * (todo.length + 1) ≤ fuel ∨
      Greatest (fun x y => compareFun x y compareFunType) (pivot :: todo) (todo.getLastD pivot) ∧
        2 * (todo.length + 1) ≤ fuel + 1) →
    ∃ links' sorted, listQuickSort compareFun compareFunType head fuel pivot
        (todo.getLastD pivot) links = some links' ∧
      links'.Ring head (front ++ (sorted ++ rest)) ∧ sorted.Perm (pivot :: todo) ∧
      sorted.Pairwise fun x y => compareFun x y compareFunType ≤ 0

section Calls

variable {fuel : Nat} {links : Links N} {front rest less more : List N} {pivot endAt : N}

theorem SortsRanges.left (hsorts : SortsRanges compareFun compareFunType head fuel)
    (horder : SignOrder (fun x y => compareFun x y compareFunType) (less ++ [pivot]))
    (hring : links.Ring head (front ++ (less ++ pivot :: rest)))
    (hless : ∀ x ∈ less, compareFun x pivot compareFunType < 0)
    (hfuel : 2 * (less.length + 1) ≤ fuel + 1) :
    ∃ links' sorted, (if (less ++ [pivot]).headD head ≠ pivot then
        listQuickSort compareFun compareFunType head fuel ((less ++ [pivot]).headD head) pivot links
        else some links) = some links' ∧
      links'.Ring head (front ++ (sorted ++ pivot :: rest)) ∧ sorted.Perm less ∧
      sorted.Pairwise fun x y => compareFun x y compareFunType ≤ 0 := by
  cases less with
  | nil => exact ⟨links, [], by simp, hring, .refl _, .nil⟩
  | cons first less =>
    have hmem : pivot ∈ first :: less ++ [pivot] := by
      simp
    have hsub {x : N} (hx : x ∈ first :: less) : x ∈ first :: less ++ [pivot] :=
      mem_append_left _ hx
    have hgreatest : Greatest (fun x y => compareFun x y compareFunType)
        (first :: (less ++ [pivot])) ((less ++ [pivot]).getLastD first) := by
      rw [getLastD_concat]
      intro x hx
      rw [← cons_append, mem_append, mem_singleton] at hx
      obtain hx | rfl := hx
      · exact horder.not_lt_of_lt (hsub hx) hmem (hless x hx)
      · exact horder.irrefl hmem
    obtain ⟨links', sorted, hcall, hring', hperm, hsorted⟩ :=
      hsorts links front rest (less ++ [pivot]) first horder (by simpa using hring)
        (.inr hgreatest) (.inr ⟨hgreatest, by simpa using hfuel⟩)
    rw [getLastD_concat] at hcall
    obtain ⟨init, rfl, hinit⟩ := @sorted_concat N pivot _ sorted (first :: less) hperm
      hsorted fun x hx => horder.not_le_of_lt (hsub hx) hmem (hless x hx)
    refine ⟨links', init, ?_, by simpa using hring', hinit,
      (pairwise_append.mp hsorted).1⟩
    have hne : first ≠ pivot := by
      rintro rfl
      exact horder.irrefl hmem (hless first mem_cons_self)
    rw [cons_append, headD_cons, if_pos hne, hcall]

theorem SortsRanges.right (hsorts : SortsRanges compareFun compareFunType head fuel)
    (horder : SignOrder (fun x y => compareFun x y compareFunType) more)
    (hring : links.Ring head (front ++ pivot :: (more ++ rest)))
    (hstop : rest = [] ∨ more.getLast? = some endAt)
    (hkept : rest = [] ∨ Greatest (fun x y => compareFun x y compareFunType) more endAt)
    (hfuel : 2 * more.length ≤ fuel) :
    ∃ links' sorted, (if links.next pivot ≠ more.getLastD pivot ∧ links.next pivot ≠ head then
        listQuickSort compareFun compareFunType head fuel (links.next pivot)
          (more.getLastD pivot) links
        else some links) = some links' ∧
      links'.Ring head (front ++ pivot :: (sorted ++ rest)) ∧ sorted.Perm more ∧
      sorted.Pairwise fun x y => compareFun x y compareFunType ≤ 0 := by
  rw [hring.next_eq]
  cases more with
  | nil =>
    obtain rfl : rest = [] := by
      simpa using hstop
    exact ⟨links, [], by simp, hring, .refl _, .nil⟩
  | cons first more =>
    rw [cons_append, headD_cons, getLastD_cons]
    have hnodup : (first :: more).Nodup := (hring.nodup.of_cons.sublist
      ((sublist_cons_self pivot _).trans (sublist_append_right front _))).sublist
        (sublist_append_left _ rest)
    by_cases hlast : first = more.getLastD first
    · -- A single node.
      obtain rfl : more = [] := by
        cases more with
        | nil => rfl
        | cons second more =>
          rw [getLastD_cons] at hlast
          exact absurd (hlast ▸ Links.getLastD_mem second more) (nodup_cons.mp hnodup).1
      exact ⟨links, [first], by simp, hring, .refl _, by simp⟩
    · have hhead : first ≠ head := by
        rintro rfl
        exact (nodup_cons.mp hring.nodup).1 (by simp)
      have hgreatest : rest = [] ∨ Greatest (fun x y => compareFun x y compareFunType)
          (first :: more) (more.getLastD first) := by
        grind
      rw [if_pos ⟨hlast, hhead⟩]
      obtain ⟨links', sorted, hcall, hring', hperm, hsorted⟩ :=
        hsorts links (front ++ [pivot]) rest more first horder (by simpa using hring) hgreatest
          (.inl (by simpa using hfuel))
      exact ⟨links', sorted, hcall, by simpa using hring', hperm, hsorted⟩

end Calls

theorem sortsRanges (compareFun : N → N → Int32 → Int32) (compareFunType : Int32) (head : N)
    (fuel : Nat) : SortsRanges compareFun compareFunType head fuel := by
  induction fuel with
  | zero =>
    intro links front rest todo pivot _ _ _ hfuel
    omega
  | succ fuel ih =>
    intro links front rest todo pivot horder hring hkept hfuel
    obtain rfl | ⟨init, endAt, hconcat⟩ := eq_nil_or_concat todo
    · exact ⟨links, [pivot], by simp [listQuickSort], by simpa using hring, .refl _, by simp⟩
    · rw [concat_eq_append] at hconcat
      have hlast : todo.getLast? = some endAt := by
        simp [hconcat]
      have hlastD : todo.getLastD pivot = endAt := by
        rw [hconcat, getLastD_concat]
      have hendMem : endAt ∈ todo := mem_of_getLast? hlast
      rw [hlastD] at hkept hfuel ⊢
      have hnodup : (pivot :: todo).Nodup := (hring.nodup.of_cons.sublist
        (sublist_append_right front _)).sublist (sublist_append_left _ rest)
      have hne : pivot ≠ endAt := by
        rintro rfl
        exact (nodup_cons.mp hnodup).1 hendMem
      have hkept' : rest = [] ∨ ¬ compareFun endAt pivot compareFunType < 0 :=
        hkept.imp_right fun hgreatest => hgreatest pivot mem_cons_self
      obtain ⟨links₁, less, more, hpartion, hring₁, hparted, hperm, hstop⟩ :=
        @listGetPartion_spec N _ compareFun compareFunType head pivot endAt front rest todo links
          (fuel + 1) hring hlast hkept' (by omega)
      have hlength : less.length + more.length = todo.length := by
        rw [← hperm.length_eq, length_append]
      have hmem {x : N} (hx : x ∈ less ++ more) : x ∈ pivot :: todo :=
        mem_cons_of_mem _ (hperm.mem_iff.mp hx)
      -- A greatest node at the end is not less than the pivot, so the left range is shorter.
      have hshorter : 2 * (less.length + 1) ≤ fuel + 1 := by
        obtain hfuel | ⟨hgreatest, hfuel⟩ := hfuel
        · omega
        · have hmore : endAt ∈ more := by
            obtain hend | hend := mem_append.mp (hperm.mem_iff.mpr hendMem)
            · exact absurd (hparted.less endAt hend) (hgreatest pivot mem_cons_self)
            · exact hend
          have hpos := length_pos_of_mem hmore
          omega
      obtain ⟨links₂, sorted₁, hleft, hring₂, hperm₁, hsorted₁⟩ :=
        ih.left (horder.of_subset (by
          grind)) hring₁ hparted.less hshorter
      obtain ⟨links₃, sorted₂, hright, hring₃, hperm₂, hsorted₂⟩ :=
        @SortsRanges.right N _ compareFun compareFunType head fuel links₂ (front ++ sorted₁) rest
          more pivot endAt ih
          (horder.of_subset fun x hx => hmem (mem_append_right _ hx)) (by simpa using hring₂)
          hstop (hkept.imp_right fun hgreatest x hx =>
            hgreatest x (hmem (mem_append_right _ hx))) (by omega)
      refine ⟨links₃, sorted₁ ++ pivot :: sorted₂, ?_, by simpa using hring₃, ?_, ?_⟩
      · rw [listQuickSort, if_pos hne, hpartion]
        simp only [hleft, hright]
      · exact perm_middle.trans (((hperm₁.append hperm₂).trans hperm).cons pivot)
      · have hle {x : N} (hx : x ∈ sorted₁) : compareFun x pivot compareFunType ≤ 0 :=
          Int32.le_of_lt (hparted.less x (hperm₁.mem_iff.mp hx))
        have hge {x : N} (hx : x ∈ sorted₂) : compareFun pivot x compareFunType ≤ 0 := by
          have hx := hperm₂.mem_iff.mp hx
          exact horder.le_of_not_lt (hmem (mem_append_right _ hx)) mem_cons_self
            (hparted.more x hx)
        refine pairwise_append.mpr ⟨hsorted₁, pairwise_cons.mpr
          ⟨fun x hx => hge hx, hsorted₂⟩, fun x hx y hy => ?_⟩
        obtain rfl | hy := mem_cons.mp hy
        · exact hle hx
        · exact horder.trans x (hmem (mem_append_left _ (hperm₁.mem_iff.mp hx))) pivot
            mem_cons_self y (hmem (mem_append_right _ (hperm₂.mem_iff.mp hy)))
            (hle hx) (hge hy)

theorem partionLoop_mono {fuel more : Nat} {links : Links N} {beginAt endAt p q : N}
    {result : Links N × N × N} (hle : fuel ≤ more)
    (hloop : partionLoop compareFun compareFunType head beginAt endAt fuel links p q = some result) :
    partionLoop compareFun compareFunType head beginAt endAt more links p q = some result := by
  induction fuel generalizing more links p q with
  | zero => cases hloop
  | succ fuel ih =>
    obtain ⟨more, rfl⟩ : ∃ n, more = n + 1 := ⟨more - 1, by omega⟩
    grind [partionLoop.eq_2]

theorem listGetPartion_mono {fuel more : Nat} {links : Links N} {beginAt endAt : N}
    {result : Links N × N × N × N} (hle : fuel ≤ more)
    (hpartion : listGetPartion compareFun compareFunType head fuel beginAt endAt links =
      some result) :
    listGetPartion compareFun compareFunType head more beginAt endAt links = some result := by
  rw [listGetPartion] at hpartion ⊢
  cases hloop : partionLoop compareFun compareFunType head beginAt endAt fuel links beginAt
      (links.next beginAt) with
  | none =>
    rw [hloop] at hpartion
    cases hpartion
  | some found =>
    rw [hloop] at hpartion
    rw [partionLoop_mono hle hloop]
    exact hpartion

theorem listQuickSort_mono {fuel more : Nat} {links result : Links N} {beginAt endAt : N}
    (hle : fuel ≤ more)
    (hsort : listQuickSort compareFun compareFunType head fuel beginAt endAt links = some result) :
    listQuickSort compareFun compareFunType head more beginAt endAt links = some result := by
  induction fuel generalizing more links result beginAt endAt with
  | zero => cases hsort
  | succ fuel ih =>
    obtain ⟨more, rfl⟩ : ∃ n, more = n + 1 := ⟨more - 1, by omega⟩
    have hless : fuel ≤ more := by
      omega
    rw [listQuickSort] at hsort ⊢
    split_ifs at hsort ⊢ with hne
    · cases hpartion : listGetPartion compareFun compareFunType head (fuel + 1) beginAt endAt
          links with
      | none =>
        rw [hpartion] at hsort
        cases hsort
      | some parted =>
        rw [hpartion] at hsort
        rw [listGetPartion_mono hle hpartion]
        grind
    · exact hsort

theorem listQuickSort_whole {nodes : List N} {links : Links N} (hring : links.Ring head nodes)
    (horder : SignOrder (fun x y => compareFun x y compareFunType) nodes) :
    ∃ links' sorted, (∀ fuel, 2 * nodes.length < fuel → listQuickSort compareFun compareFunType
        head fuel (links.next head) (links.prev head) links = some links') ∧
      links'.Ring head sorted ∧ sorted.Perm nodes ∧
      sorted.Pairwise fun x y => compareFun x y compareFunType ≤ 0 := by
  have hwhole : links.Ring head ([] ++ nodes) := hring
  have hnext : links.next head = nodes.headD head := hwhole.next_last
  have hprev : links.prev head = nodes.getLastD head := by
    have hwhole : links.Ring head (nodes ++ []) := by
      simpa using hring
    exact hwhole.prev_first
  rw [hnext, hprev]
  cases nodes with
  | nil =>
    refine ⟨links, [], fun fuel hfuel => ?_, hring, .refl _, .nil⟩
    obtain ⟨fuel, rfl⟩ : ∃ n, fuel = n + 1 := ⟨fuel - 1, by omega⟩
    simp [listQuickSort]
  | cons first nodes =>
    rw [headD_cons, getLastD_cons]
    obtain ⟨links', sorted, hsort, hring', hperm, hsorted⟩ :=
      sortsRanges compareFun compareFunType head (2 * (nodes.length + 1)) links [] [] nodes first
        horder (by simpa using hring) (.inl rfl) (.inl le_rfl)
    refine ⟨links', sorted, fun fuel hfuel => ?_, by simpa using hring', hperm, hsorted⟩
    exact listQuickSort_mono (by simpa using hfuel.le) hsort

end Sorting

/-- The sort of a whole list ends, whatever its bounds on rounds and calls if they are large
enough, with the same nodes linked in order. -/
theorem listQuickSort_sorts (compareFun : N → N → Int32 → Int32) (compareFunType : Int32)
    (head : N) (nodes : List N) (links : Links N) (hring : links.Ring head nodes)
    (horder : SignOrder (fun x y => compareFun x y compareFunType) nodes) :
    ∃ links' sorted, (∀ fuel, 2 * nodes.length < fuel → listQuickSort compareFun compareFunType
        head fuel (links.next head) (links.prev head) links = some links') ∧
      links'.Ring head sorted ∧ sorted.Perm nodes ∧
      sorted.IsChain fun x y => compareFun x y compareFunType ≤ 0 := by
  obtain ⟨links', sorted, hsort, hring', hperm, hsorted⟩ := listQuickSort_whole hring horder
  exact ⟨links', sorted, hsort, hring', hperm, hsorted.isChain⟩

namespace SortWitness

/-- The nodes 2, 3 and 1 behind the head 0. -/
def links : Links Nat where
  next
    | 0 => 2
    | 2 => 3
    | 3 => 1
    | _ => 0
  prev
    | 0 => 1
    | 1 => 3
    | 3 => 2
    | _ => 0

def compareFun (a b : Nat) (_ : Int32) : Int32 :=
  if a < b then -1 else if b < a then 1 else 0

theorem links_ring : links.Ring 0 [2, 3, 1] where
  nodup := by decide
  chain := .cons_cons ⟨rfl, rfl⟩ (.cons_cons ⟨rfl, rfl⟩ (.cons_cons ⟨rfl, rfl⟩
    (.cons_cons ⟨rfl, rfl⟩ (.singleton 0))))

theorem listQuickSort_three : ∃ links' sorted,
    (∀ fuel, 6 < fuel → listQuickSort compareFun 0 0 fuel 2 1 links = some links') ∧
      links'.Ring 0 sorted ∧ sorted.Perm [2, 3, 1] ∧
      sorted.IsChain fun a b => compareFun a b 0 ≤ 0 :=
  listQuickSort_sorts compareFun 0 0 [2, 3, 1] links links_ring ⟨by decide, by decide⟩

end SortWitness

end WaterWall
