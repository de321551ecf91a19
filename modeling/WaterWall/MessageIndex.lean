/-
an_qq_wk_msg_t_del, an_qq_wk_msg_t_del_list and an_qq_wk_msg_t_find_by_qq_account of
hash.c.  A chat message is on a message list and may be on a hash chain.  That it is on
a chain is read off its next pointer, which is null for the last node of a chain too, so
that node is freed and stays on the chain.  The last node of a chain never changes
therefore, and the chains are right exactly as long as none of these nodes is deleted.
-/
import WaterWall.RingLinks
import WaterWall.ChainLinks

namespace WaterWall.MessageIndex

open List Option

/-- The message lists and hash chains of the nodes by their addresses, and the nodes that have
been freed. -/
structure Heap where
  msgs : RingLinks.Links Nat
  index : ChainLinks.Links Nat Nat
  freed : List Nat

/-- The fields by which a message is looked up. -/
structure Accounts where
  (objAccount uid : Nat → UInt32)

namespace Heap

/-- An access to a node, which goes wrong when the node has been freed. -/
def touch (heap : Heap) (node : Nat) : Option Unit :=
  if node ∈ heap.freed then none else some ()

/-- An access to the node in which a cell is; the heads are not freed. -/
def touchCell (heap : Heap) : Option (ChainLinks.Slot Nat Nat) → Option Unit
  | some (.next node) => heap.touch node
  | _ => some ()

def touchNext (heap : Heap) : Option Nat → Option Unit
  | some node => heap.touch node
  | none => some ()

/-- `LIST_POISON1` and `LIST_POISON2`. -/
def poison1 : Nat := 0x00100100

def poison2 : Nat := 0x00200200

def listDel (heap : Heap) (entry : Nat) : Option Heap := do
  heap.touch entry
  heap.touch (heap.msgs.prev entry)
  heap.touch (heap.msgs.next entry)
  some { heap with msgs := heap.msgs.listDel entry poison1 poison2 }

def hlistDel (heap : Heap) (n : Nat) : Option Heap := do
  heap.touch n
  heap.touchCell (heap.index.pprev n)
  heap.touchNext (heap.index.next n)
  let index ← heap.index.hlistDel n poison1 (.next poison2)
  some { heap with index := index }

end Heap

def anQqWkMsgTDel (heap : Heap) : Option Nat → Option Heap
  | none => some heap
  | some temp => do
      let heap ← heap.listDel temp
      let heap ← if heap.index.next temp ≠ none then heap.hlistDel temp else some heap
      some { heap with freed := temp :: heap.freed }

/-- The loop of an_qq_wk_msg_t_del_list, with a bound on its rounds. -/
def delListLoop (head : Nat) : Nat → Nat → Heap → Option Heap
  | 0, _, _ => none
  | fuel + 1, pos, heap =>
    if pos ≠ head then do
      heap.touch pos
      let heap' ← anQqWkMsgTDel heap (some pos)
      delListLoop head fuel (heap.msgs.next pos) heap'
    else some heap

def anQqWkMsgTDelList (fuel head : Nat) (heap : Heap) : Option Heap :=
  delListLoop head fuel (heap.msgs.next head) heap

/-- `id.c[i]`, up to the order of the bytes. -/
def accountByte (qqAccount : UInt32) (i : UInt32) : UInt32 :=
  (qqAccount >>> (8 * i)) &&& 0xff

/-- The sum of the four bytes, under `HASH_MASK`. -/
def anQqWkMsgTGetHash (qqAccount : UInt32) : Nat :=
  UInt32.toNat ((accountByte qqAccount 0 + accountByte qqAccount 1 + accountByte qqAccount 2 +
    accountByte qqAccount 3) &&& 0xff)

section Find

variable (accounts : Accounts) (qqAccount uid : UInt32) (heap : Heap)

def isFound (temp : Nat) : Bool :=
  accounts.objAccount temp = qqAccount ∧ accounts.uid temp = uid

/-- The walk along a chain, which goes wrong at a node that has been freed. -/
def findLoop : Nat → Option Nat → Option (Option Nat)
  | 0, _ => none
  | _ + 1, none => some none
  | fuel + 1, some temp => do
      heap.touch temp
      if isFound accounts qqAccount uid temp then some (some temp)
      else findLoop fuel (heap.index.next temp)

def anQqWkMsgTFindByQqAccount (fuel hashHead : Nat) : Option (Option Nat) :=
  findLoop accounts qqAccount uid heap fuel
    (heap.index.first (hashHead + anQqWkMsgTGetHash qqAccount))

end Find

inductive Call where
  | del (temp : Option Nat)
  | delList (head : Nat)

def Call.run (fuel : Nat) (heap : Heap) : Call → Option Heap
  | .del temp => anQqWkMsgTDel heap temp
  | .delList head => anQqWkMsgTDelList fuel head heap

def runCalls (fuel : Nat) : List Call → Heap → Option Heap
  | [], heap => some heap
  | call :: calls, heap => (call.run fuel heap).bind (runCalls fuel calls)

/-- What is on the message lists and on the hash chains before the first call. -/
structure Layout where
  heads : Set Nat
  (lists chains : Nat → List Nat)
  lists_nodup : ∀ head ∈ heads, (head :: lists head).Nodup
  apart : ∀ head ∈ heads, ∀ other ∈ heads, head ≠ other →
    (head :: lists head).Disjoint (other :: lists other)
  chains_nodup : ∀ bucket, (chains bucket).Nodup
  separate : ∀ bucket other, bucket ≠ other → (chains bucket).Disjoint (chains other)
  listed : ∀ bucket, ∀ x ∈ chains bucket, ∃ head ∈ heads, x ∈ lists head

namespace Layout

variable (layout : Layout)

def Listed (x : Nat) : Prop :=
  ∃ head ∈ layout.heads, x ∈ layout.lists head

/-- The memory has that layout; the next pointer of a node on no chain is null. -/
structure Built (heap : Heap) : Prop where
  fresh : heap.freed = []
  rings : ∀ head ∈ layout.heads, heap.msgs.Ring head (layout.lists head)
  chained : ∀ bucket, heap.index.Chain bucket (layout.chains bucket)
  loose : ∀ x, layout.Listed x → (∀ bucket, x ∉ layout.chains bucket) → heap.index.next x = none

/-- The nodes that a call is to delete, as far as they are there. -/
def deletes : Call → List Nat
  | .del temp => temp.toList
  | .delList head => layout.lists head

/-- The calls are given lists, and nodes that have not been deleted. -/
def Admits : List Nat → List Call → Prop
  | _, [] => True
  | gone, call :: calls =>
    (match call with
      | .del none => True
      | .del (some x) => layout.Listed x ∧ x ∉ gone
      | .delList head => head ∈ layout.heads) ∧
    Admits (gone ++ layout.deletes call) calls

def remaining (calls : List Call) (bucket : Nat) : List Nat :=
  (layout.chains bucket).filter (· ∉ calls.flatMap layout.deletes)

/-- The calls end, every chain consists of the nodes of it that are left, and the search along
a chain stays among them. -/
def Clean (heap : Heap) (calls : List Call) : Prop :=
  ∃ bound heap', (∀ fuel, bound < fuel → runCalls fuel calls heap = some heap') ∧
    (∀ bucket, heap'.index.Chain bucket (layout.remaining calls bucket)) ∧
    ∀ accounts qqAccount uid hashHead fuel,
      (layout.chains (hashHead + anQqWkMsgTGetHash qqAccount)).length < fuel →
      anQqWkMsgTFindByQqAccount accounts qqAccount uid heap' fuel hashHead =
        some ((layout.remaining calls (hashHead + anQqWkMsgTGetHash qqAccount)).find?
          (isFound accounts qqAccount uid))

end Layout

section Access

variable {heap : Heap} {node : Nat}

theorem touch_of_not_mem (hlive : node ∉ heap.freed) : heap.touch node = some () :=
  if_neg hlive

theorem touch_of_mem (hfreed : node ∈ heap.freed) : heap.touch node = none :=
  if_pos hfreed

end Access

theorem filter_out {p q : Nat → Bool} {front rest : List Nat} {x : Nat}
    (hnodup : (front ++ x :: rest).Nodup) (hx : q x = false) (hother : ∀ y, y ≠ x → q y = p y) :
    (front ++ x :: rest).filter q = front.filter p ++ rest.filter p := by
  grind [filter_congr]

namespace Layout

variable {layout : Layout} {heap : Heap}

variable (layout) in
def IsLast (x : Nat) : Prop :=
  ∃ bucket, (layout.chains bucket).getLast? = some x

variable (layout) in
/-- The nodes of a chain that are still on it. -/
def kept (freed : List Nat) (bucket : Nat) : List Nat :=
  (layout.chains bucket).filter fun x => x ∉ freed ∨ (layout.chains bucket).getLast? = some x

variable (layout) in
/-- What holds after every call: the lists are those nodes that have not been freed, the chains
have their last nodes besides. -/
structure Holds (heap : Heap) : Prop where
  gone : ∀ x ∈ heap.freed, layout.Listed x
  rings : ∀ head ∈ layout.heads,
    heap.msgs.Ring head ((layout.lists head).filter (· ∉ heap.freed))
  chained : ∀ bucket, heap.index.Chain bucket (layout.kept heap.freed bucket)
  loose : ∀ x, layout.Listed x → (∀ bucket, x ∉ layout.chains bucket) → heap.index.next x = none

theorem Built.holds (hbuilt : layout.Built heap) : layout.Holds heap where
  gone := by simp [hbuilt.fresh]
  rings head hhead := by
    simpa [hbuilt.fresh] using hbuilt.rings head hhead
  chained bucket := by
    simpa [hbuilt.fresh, kept] using hbuilt.chained bucket
  loose := hbuilt.loose

theorem head_not_listed {head : Nat} (hhead : head ∈ layout.heads) : ¬ layout.Listed head := by
  rintro ⟨other, hother, hmem⟩
  obtain rfl | hne := eq_or_ne head other
  · exact (nodup_cons.mp (layout.lists_nodup head hhead)).1 hmem
  · exact layout.apart head hhead other hother hne mem_cons_self
      (mem_cons_of_mem other hmem)

theorem Holds.live (hholds : layout.Holds heap) {head x : Nat} (hhead : head ∈ layout.heads)
    (hx : x ∈ head :: (layout.lists head).filter (· ∉ heap.freed)) : x ∉ heap.freed := by
  rw [mem_cons] at hx
  obtain rfl | hx := hx
  · exact fun hfreed => head_not_listed hhead (hholds.gone x hfreed)
  · simpa using (mem_filter.mp hx).2

theorem Holds.listDel (hholds : layout.Holds heap) {x : Nat} (hx : layout.Listed x)
    (hlive : x ∉ heap.freed) :
    ∃ msgs, heap.listDel x = some { heap with msgs := msgs } ∧
      ∀ head ∈ layout.heads,
        msgs.Ring head ((layout.lists head).filter (· ∉ x :: heap.freed)) := by
  obtain ⟨head, hhead, hmem⟩ := hx
  obtain ⟨front, rest, hlist⟩ := append_of_mem hmem
  have hnodup := (nodup_cons.mp (layout.lists_nodup head hhead)).2
  have hring := hholds.rings head hhead
  have hsplit : (layout.lists head).filter (· ∉ heap.freed) =
      front.filter (· ∉ heap.freed) ++ x :: rest.filter (· ∉ heap.freed) := by
    rw [hlist, filter_append, filter_cons_of_pos (by simpa using hlive)]
  have hlives := fun y => @Holds.live layout heap hholds head y hhead
  rw [hsplit] at hring hlives
  have hkept : head :: (front.filter (· ∉ heap.freed) ++ rest.filter (· ∉ heap.freed)) ⊆
      head :: (front.filter (· ∉ heap.freed) ++ x :: rest.filter (· ∉ heap.freed)) :=
    List.Sublist.subset (by simp)
  refine ⟨heap.msgs.listDel x Heap.poison1 Heap.poison2, ?_, fun other hother => ?_⟩
  · rw [Heap.listDel, touch_of_not_mem hlive, hring.prev_eq, hring.next_eq,
      touch_of_not_mem (hlives _ (hkept (RingLinks.Links.last_mem _ _ _))),
      touch_of_not_mem (hlives _ (hkept (RingLinks.Links.first_mem _ _ _)))]
    rfl
  · obtain rfl | hne := eq_or_ne other head
    · have hout := @filter_out (· ∉ heap.freed) (· ∉ x :: heap.freed) front rest x
        (hlist ▸ hnodup) (by simp) (by simp +contextual)
      rw [hlist, hout]
      exact hring.listDel _ _
    · have hapart := layout.apart head hhead other hother hne.symm
      have hsame : (layout.lists other).filter (· ∉ x :: heap.freed) =
          (layout.lists other).filter (· ∉ heap.freed) := by
        refine filter_congr fun y hy => ?_
        have hy : y ≠ x := by
          rintro rfl
          exact hapart (mem_cons_of_mem head hmem) (mem_cons_of_mem other hy)
        simp [hy]
      rw [hsame]
      refine hring.listDel_other (hholds.rings other hother) ?_ _ _
      rw [← hsplit]
      intro y hy hy'
      exact hapart (cons_subset_cons _ (filter_subset_self _) hy)
        (cons_subset_cons _ (filter_subset_self _) hy')

section Kept

variable {freed : List Nat} {bucket x : Nat} {front rest : List Nat}

theorem kept_cons (hx : x ∉ layout.chains bucket ∨ (layout.chains bucket).getLast? = some x) :
    layout.kept (x :: freed) bucket = layout.kept freed bucket := by
  refine filter_congr fun y hy => ?_
  grind

theorem kept_split (hchain : layout.chains bucket = front ++ x :: rest) (hrest : rest ≠ [])
    (hlive : x ∉ freed) :
    ∃ front' rest', layout.kept freed bucket = front' ++ x :: rest' ∧
      layout.kept (x :: freed) bucket = front' ++ rest' ∧ rest' ≠ [] ∧
      (∀ y ∈ front', y ∉ freed) ∧
      ∀ y ∈ rest', y ∉ freed ∨ layout.IsLast y := by
  have hlast : (layout.chains bucket).getLast? = some (rest.getLast hrest) := by
    rw [hchain, List.getLast?_append, List.getLast?_cons_of_ne_nil hrest,
      List.getLast?_eq_getLast_of_ne_nil hrest]
    rfl
  have hnodup := layout.chains_nodup bucket
  rw [hchain] at hnodup
  have hbefore {y : Nat} (hy : y ∈ front ++ [x]) : y ≠ rest.getLast hrest := by
    grind
  let p := fun y => decide (y ∉ freed ∨ some (rest.getLast hrest) = some y)
  refine ⟨front.filter p, rest.filter p, ?_, ?_, ?_, fun y hy => ?_, fun y hy => ?_⟩
  · rw [kept, hlast, hchain, filter_append, filter_cons_of_pos (by simp [hlive])]
  · rw [kept, hlast, hchain]
    grind [filter_out]
  · exact ne_nil_of_mem (mem_filter.mpr ⟨getLast_mem hrest, by simp [p]⟩)
  · grind
  · have hy := (mem_filter.mp hy).2
    simp only [p, decide_eq_true_eq, ← hlast] at hy
    exact hy.imp_right fun heq => ⟨bucket, heq⟩

end Kept

theorem kept_subset (freed : List Nat) (bucket : Nat) :
    layout.kept freed bucket ⊆ layout.chains bucket :=
  filter_subset_self _

section Unhash

variable {x : Nat}

theorem hlistDel_eq {bucket y : Nat} {front rest : List Nat}
    (hchain : heap.index.Chain bucket (front ++ x :: y :: rest)) (hlive : x ∉ heap.freed)
    (hfront : ∀ w ∈ front, w ∉ heap.freed) :
    heap.hlistDel x = (heap.touch y).bind fun _ =>
      (heap.index.hlistDel x Heap.poison1 (.next Heap.poison2)).map fun index =>
        { heap with index := index } := by
  have hcell : heap.touchCell (heap.index.pprev x) = some () := by
    obtain ⟨cell, hcell, ⟨rfl, -⟩ | ⟨w, hw, rfl⟩⟩ := hchain.path.exists_pprev
    · rw [hcell]
      rfl
    · rw [hcell]
      exact touch_of_not_mem (hfront w hw)
  have hnext : heap.index.next x = some y := hchain.path.next_eq
  rw [Heap.hlistDel, touch_of_not_mem hlive, hcell, hnext, Heap.touchNext]
  cases heap.touch y with
  | none => rfl
  | some => exact map_eq_bind.symm

/-- What happens to the chains when a node is deleted: its next pointer is null and it stays, or
it is unlinked, unless its next node has been freed. -/
theorem unhash (hchained : ∀ bucket, heap.index.Chain bucket (layout.kept heap.freed bucket))
    (hloose : (∀ bucket, x ∉ layout.chains bucket) → heap.index.next x = none)
    (hlive : x ∉ heap.freed) :
    (heap.index.next x = none ∧
      ∀ bucket, layout.kept (x :: heap.freed) bucket = layout.kept heap.freed bucket) ∨
    heap.index.next x ≠ none ∧
      ((heap.hlistDel x = none ∧ ∃ z, layout.IsLast z ∧ z ∈ heap.freed) ∨
        ∃ index, heap.hlistDel x = some { heap with index := index } ∧
          (∀ bucket, index.Chain bucket (layout.kept (x :: heap.freed) bucket)) ∧
          ∀ y, (∀ bucket, y ∉ layout.chains bucket) → index.next y = heap.index.next y) := by
  by_cases hhashed : ∀ bucket, x ∉ layout.chains bucket
  · exact .inl ⟨hloose hhashed, fun bucket => kept_cons (.inl (hhashed bucket))⟩
  · push Not at hhashed
    obtain ⟨bucket, hmem⟩ := hhashed
    obtain ⟨front, rest, hchain⟩ := append_of_mem hmem
    have hothers {other : Nat} (hne : other ≠ bucket) : x ∉ layout.chains other := fun hx =>
      layout.separate other bucket hne hx hmem
    by_cases hrest : rest = []
    · subst hrest
      have hlast : (layout.chains bucket).getLast? = some x := by
        simp [hchain]
      have hpath := (hchained bucket).path
      rw [kept, hchain, filter_append, filter_cons_of_pos (by simp [hlive])] at hpath
      refine .inl ⟨hpath.next_eq, fun other => kept_cons ?_⟩
      grind
    · obtain ⟨front', rest', hkept, hkept', hne, hfront, hafter⟩ := kept_split hchain hrest hlive
      obtain ⟨y, rest', rfl⟩ := exists_cons_of_ne_nil hne
      have hat := hchained bucket
      rw [hkept] at hat
      have hnext : heap.index.next x = some y := hat.path.next_eq
      refine .inr ⟨by simp [hnext], ?_⟩
      rw [hlistDel_eq hat hlive hfront]
      by_cases hfreed : y ∈ heap.freed
      · left
        rw [touch_of_mem hfreed]
        grind
      · right
        obtain ⟨index, hdel, hhead, hkeeps, hsame⟩ :=
          hat.hlistDel Heap.poison1 (.next Heap.poison2)
        rw [← hkept] at hkeeps hsame
        refine ⟨index, ?_, fun other => ?_, fun z hz => hsame z fun hmem => ?_⟩
        · rw [touch_of_not_mem hfreed, hdel]
          rfl
        · obtain rfl | hother := eq_or_ne other bucket
          · exact hkept' ▸ hhead
          · rw [kept_cons (.inl (hothers hother))]
            refine hkeeps other _ hother (fun z hz hz' => ?_) (hchained other)
            exact layout.separate other bucket hother (kept_subset _ _ hz') (kept_subset _ _ hz)
        · exact hz bucket (kept_subset _ _ hmem)

end Unhash

variable (layout) in
/-- What a call may come to: an access to a last node that has been freed, or memory that is as
described and of which the given nodes have been freed. -/
def Outcome (gone : List Nat) : Option Heap → Prop
  | none => ∃ z, layout.IsLast z ∧ z ∈ gone
  | some heap => (∀ x, x ∈ heap.freed ↔ x ∈ gone) ∧ layout.Holds heap

theorem Holds.del (hholds : layout.Holds heap) {x : Nat} (hx : layout.Listed x)
    (hlive : x ∉ heap.freed) :
    layout.Outcome (x :: heap.freed) (anQqWkMsgTDel heap (some x)) := by
  obtain ⟨msgs, hlist, hrings⟩ := hholds.listDel hx hlive
  have hgone : ∀ y ∈ x :: heap.freed, layout.Listed y := by
    rw [forall_mem_cons]
    exact ⟨hx, hholds.gone⟩
  rw [anQqWkMsgTDel, hlist]
  dsimp only [bind_eq_bind, bind_some]
  obtain ⟨hnext, hkept⟩ | ⟨hnext, ⟨hnone, z, hz, hfreed⟩ | ⟨index, hdel, hchained, hsame⟩⟩ :=
    @unhash layout { heap with msgs := msgs } x hholds.chained (hholds.loose x hx) hlive
  · rw [if_neg (not_not_intro hnext)]
    refine ⟨fun y => .rfl, hgone, hrings, fun bucket => ?_, hholds.loose⟩
    exact (hkept bucket).symm ▸ hholds.chained bucket
  · rw [if_pos hnext, hnone]
    exact ⟨z, hz, mem_cons_of_mem x hfreed⟩
  · rw [if_pos hnext, hdel]
    refine ⟨fun y => .rfl, hgone, hrings, hchained, fun y hy hnot => ?_⟩
    exact (hsame y hnot).trans (hholds.loose y hy hnot)

section Outcome

variable {gone more : List Nat} {result : Option Heap}

theorem Outcome.congr (houtcome : layout.Outcome gone result)
    (hsame : ∀ x, x ∈ gone ↔ x ∈ more) : layout.Outcome more result := by
  cases result with
  | none =>
    obtain ⟨z, hlast, hz⟩ := houtcome
    exact ⟨z, hlast, (hsame z).mp hz⟩
  | some heap => exact ⟨fun x => (houtcome.1 x).trans (hsame x), houtcome.2⟩

theorem Outcome.none_mono (houtcome : layout.Outcome gone none) (hsub : gone ⊆ more) :
    layout.Outcome more none := by
  obtain ⟨z, hlast, hz⟩ := houtcome
  exact ⟨z, hlast, hsub hz⟩

end Outcome

theorem filter_of_cons {nodes freed freed' todo : List Nat} {x : Nat} (hnodup : nodes.Nodup)
    (htodo : nodes.filter (· ∉ freed) = x :: todo) (hfreed : ∀ y, y ∈ freed' ↔ y ∈ x :: freed) :
    nodes.filter (· ∉ freed') = todo := by
  have hx : (x :: todo).Nodup := htodo ▸ hnodup.filter _
  have hsplit : nodes.filter (· ∉ freed') = (nodes.filter (· ∉ freed)).filter (· ≠ x) := by
    rw [List.filter_filter]
    refine filter_congr fun y _ => ?_
    simp [hfreed]
  rw [hsplit, htodo, filter_cons_of_neg (by simp), filter_eq_self]
  intro y hy
  simpa using ne_of_mem_of_not_mem hy (nodup_cons.mp hx).1

theorem Holds.delListLoop (hholds : layout.Holds heap) {head : Nat} (hhead : head ∈ layout.heads)
    {todo : List Nat} (htodo : (layout.lists head).filter (· ∉ heap.freed) = todo) :
    ∃ result, (∀ fuel, todo.length < fuel →
        delListLoop head fuel (todo.headD head) heap = result) ∧
      layout.Outcome (todo ++ heap.freed) result := by
  induction todo generalizing heap with
  | nil =>
    refine ⟨some heap, fun fuel hfuel => ?_, fun x => by simp, hholds⟩
    obtain ⟨fuel, rfl⟩ : ∃ n, fuel = n + 1 := ⟨fuel - 1, by simp at hfuel; omega⟩
    simp [MessageIndex.delListLoop]
  | cons x todo ih =>
    have hring := hholds.rings head hhead
    rw [htodo] at hring
    have hx : x ∈ (layout.lists head).filter (· ∉ heap.freed) := by
      rw [htodo]
      exact mem_cons_self
    have hlive := hholds.live hhead (mem_cons_of_mem head hx)
    have hne : x ≠ head := by
      rintro rfl
      exact (nodup_cons.mp hring.nodup).1 mem_cons_self
    have hnext : heap.msgs.next x = todo.headD head :=
      @RingLinks.Links.Ring.next_eq Nat heap.msgs head x [] todo hring
    have hdel := hholds.del ⟨head, hhead, (mem_filter.mp hx).1⟩ hlive
    have hround (fuel : Nat) : MessageIndex.delListLoop head (fuel + 1) x heap =
        (anQqWkMsgTDel heap (some x)).bind
          (MessageIndex.delListLoop head fuel (todo.headD head)) := by
      rw [MessageIndex.delListLoop, if_pos hne, touch_of_not_mem hlive, hnext]
      rfl
    cases hresult : anQqWkMsgTDel heap (some x) with
    | none =>
      rw [hresult] at hdel
      refine ⟨none, fun fuel hfuel => ?_, hdel.none_mono (by simp)⟩
      obtain ⟨fuel, rfl⟩ : ∃ n, fuel = n + 1 := ⟨fuel - 1, by simp at hfuel; omega⟩
      rw [headD_cons, hround, hresult]
      rfl
    | some heap' =>
      rw [hresult] at hdel
      obtain ⟨hfreed, hholds'⟩ := hdel
      have hnodup := (nodup_cons.mp (layout.lists_nodup head hhead)).2
      obtain ⟨result, hloop, houtcome⟩ := ih hholds' (filter_of_cons hnodup htodo hfreed)
      refine ⟨result, fun fuel hfuel => ?_, houtcome.congr fun y => ?_⟩
      · obtain ⟨fuel, rfl⟩ : ∃ n, fuel = n + 1 := ⟨fuel - 1, by simp at hfuel; omega⟩
        rw [headD_cons, hround, hresult]
        exact hloop fuel (by simpa using hfuel)
      · simp [hfreed, or_left_comm]

theorem Holds.delList (hholds : layout.Holds heap) {head : Nat} (hhead : head ∈ layout.heads) :
    ∃ result, (∀ fuel, (layout.lists head).length < fuel →
        anQqWkMsgTDelList fuel head heap = result) ∧
      layout.Outcome (heap.freed ++ layout.lists head) result := by
  obtain ⟨result, hloop, houtcome⟩ := hholds.delListLoop hhead rfl
  have hfirst := @RingLinks.Links.Ring.next_last Nat heap.msgs head [] _
    (hholds.rings head hhead)
  refine ⟨result, fun fuel hfuel => ?_, houtcome.congr fun x => ?_⟩
  · have hle := (layout.lists head).length_filter_le (· ∉ heap.freed)
    rw [anQqWkMsgTDelList, show heap.msgs.next head = _ from hfirst]
    exact hloop fuel (lt_of_le_of_lt hle hfuel)
  · rw [mem_append, mem_append, mem_filter, decide_eq_true_iff]
    tauto

/-- The calls of a run. -/
theorem Holds.runCalls (hholds : layout.Holds heap) {gone : List Nat}
    (hgone : ∀ x, x ∈ heap.freed ↔ x ∈ gone) {calls : List Call}
    (hcalls : layout.Admits gone calls) :
    ∃ bound result, (∀ fuel, bound < fuel → runCalls fuel calls heap = result) ∧
      layout.Outcome (gone ++ calls.flatMap layout.deletes) result := by
  induction calls generalizing heap gone with
  | nil => exact ⟨0, some heap, fun fuel _ => rfl, by simpa using hgone, hholds⟩
  | cons call calls ih =>
    obtain ⟨hcall, hcalls⟩ := hcalls
    have hstep : ∃ bound result, (∀ fuel, bound < fuel → call.run fuel heap = result) ∧
        layout.Outcome (gone ++ layout.deletes call) result := by
      cases call with
      | del temp =>
        cases temp with
        | none =>
          exact ⟨0, some heap, fun fuel _ => rfl, by simpa [deletes] using hgone, hholds⟩
        | some x =>
          refine ⟨0, _, fun fuel _ => rfl, (hholds.del hcall.1 ?_).congr fun y => ?_⟩
          · exact fun hfreed => hcall.2 ((hgone x).mp hfreed)
          · simp [deletes, hgone, or_comm]
      | delList head =>
        obtain ⟨result, hloop, houtcome⟩ := hholds.delList hcall
        refine ⟨_, result, hloop, houtcome.congr fun y => ?_⟩
        rw [mem_append, mem_append, hgone, deletes]
    obtain ⟨bound, result, hrun, houtcome⟩ := hstep
    cases result with
    | none =>
      refine ⟨bound, none, fun fuel hfuel => ?_, houtcome.none_mono ?_⟩
      · rw [MessageIndex.runCalls, hrun fuel hfuel, bind_none]
      · simp
    | some heap' =>
      obtain ⟨bound', result, hruns, houtcome'⟩ := ih houtcome.2 houtcome.1 hcalls
      refine ⟨max bound bound', result, fun fuel hfuel => ?_, by simpa using houtcome'⟩
      rw [MessageIndex.runCalls, hrun fuel (lt_of_le_of_lt (le_max_left _ _) hfuel),
        bind_some]
      exact hruns fuel (lt_of_le_of_lt (le_max_right _ _) hfuel)

theorem findLoop_eq (accounts : Accounts) (qqAccount uid : UInt32)
    {slot : ChainLinks.Slot Nat Nat} {nodes : List Nat} {fuel : Nat}
    (hpath : heap.index.Path slot nodes) (hlive : ∀ x ∈ nodes, x ∉ heap.freed)
    (hfuel : nodes.length < fuel) :
    findLoop accounts qqAccount uid heap fuel (heap.index.read slot) =
      some (nodes.find? (isFound accounts qqAccount uid)) := by
  induction hpath generalizing fuel with
  | nil hend =>
    obtain ⟨fuel, rfl⟩ : ∃ n, fuel = n + 1 := ⟨fuel - 1, by simp at hfuel; omega⟩
    rw [hend]
    rfl
  | @cons slot x nodes hread _ _ ih =>
    obtain ⟨fuel, rfl⟩ : ∃ n, fuel = n + 1 := ⟨fuel - 1, by simp at hfuel; omega⟩
    rw [forall_mem_cons] at hlive
    rw [hread, findLoop, touch_of_not_mem hlive.1, List.find?_cons]
    dsimp only [bind_eq_bind, bind_some]
    cases isFound accounts qqAccount uid x with
    | true => rfl
    | false => exact ih hlive.2 (by simpa using hfuel)

section Settled

variable {gone : List Nat}

theorem kept_eq_filter (hfreed : ∀ x, x ∈ heap.freed ↔ x ∈ gone) {bucket : Nat}
    (hlast : ∀ x, (layout.chains bucket).getLast? = some x → x ∉ gone) :
    layout.kept heap.freed bucket = (layout.chains bucket).filter (· ∉ gone) := by
  refine filter_congr fun x _ => ?_
  rw [decide_eq_decide, hfreed]
  exact ⟨fun hx => hx.elim id (hlast x), .inl⟩

theorem last_mem_kept {freed : List Nat} {bucket x : Nat}
    (hlast : (layout.chains bucket).getLast? = some x) : x ∈ layout.kept freed bucket :=
  mem_filter.mpr ⟨mem_of_getLast? hlast, by simp [hlast]⟩

end Settled

/-- The chains and the search along them are right after the calls exactly when no call deletes
the last node of a chain. -/
theorem clean_iff (layout : Layout) (heap : Heap) (calls : List Call)
    (hbuilt : layout.Built heap) (hcalls : layout.Admits [] calls) :
    layout.Clean heap calls ↔ ∀ bucket x, (layout.chains bucket).getLast? = some x →
      x ∉ calls.flatMap layout.deletes := by
  obtain ⟨bound, result, hrun, houtcome⟩ :=
    hbuilt.holds.runCalls (by simp [hbuilt.fresh]) hcalls
  rw [nil_append] at houtcome
  have hresult {bound' : Nat} {heap' : Heap}
      (hrun' : ∀ fuel, bound' < fuel → MessageIndex.runCalls fuel calls heap = some heap') :
      result = some heap' :=
    (hrun (bound + bound' + 1) (by omega)).symm.trans (hrun' _ (by omega))
  constructor
  · rintro ⟨bound', heap', hrun', hchains, -⟩ bucket x hlast
    rw [hresult hrun'] at houtcome
    have hsame := (hchains bucket).path.unique (houtcome.2.chained bucket).path
    have hmem := hsame.symm ▸ last_mem_kept hlast
    simpa using (mem_filter.mp hmem).2
  · intro hlast
    cases result with
    | none =>
      obtain ⟨z, ⟨bucket, hz⟩, hgone⟩ := houtcome
      exact absurd hgone (hlast bucket z hz)
    | some heap' =>
      obtain ⟨hfreed, hholds⟩ := houtcome
      have hchains (bucket : Nat) :
          heap'.index.Chain bucket (layout.remaining calls bucket) := by
        rw [remaining, ← kept_eq_filter hfreed (hlast bucket)]
        exact hholds.chained bucket
      refine ⟨bound, heap', hrun, hchains, fun accounts qqAccount uid hashHead fuel hfuel => ?_⟩
      refine findLoop_eq accounts qqAccount uid (hchains _).path (fun x hx => ?_) ?_
      · rw [hfreed]
        simpa using (mem_filter.mp hx).2
      · exact lt_of_le_of_lt (length_filter_le _ _) hfuel

end Layout

namespace IndexWitness

/-- The chain 0 has two nodes, the others are empty. -/
def chains : Nat → List Nat
  | 0 => [2, 3]
  | _ => []

theorem lists_nodup : ∀ head ∈ ({1} : Set Nat), (head :: [2, 3]).Nodup := by
  rintro head rfl
  decide

theorem lists_apart : ∀ head ∈ ({1} : Set Nat), ∀ other ∈ ({1} : Set Nat), head ≠ other →
    (head :: [2, 3]).Disjoint (other :: [2, 3]) := by
  rintro head rfl other rfl hne
  exact absurd rfl hne

theorem chains_nodup : ∀ bucket, (chains bucket).Nodup
  | 0 => by decide
  | _ + 1 => nodup_nil

theorem chains_separate : ∀ bucket other, bucket ≠ other →
    (chains bucket).Disjoint (chains other)
  | 0, 0, hne => absurd rfl hne
  | 0, _ + 1, _ => disjoint_nil_right _
  | _ + 1, _, _ => disjoint_nil_left _

theorem chains_listed : ∀ bucket, ∀ x ∈ chains bucket, ∃ head ∈ ({1} : Set Nat), x ∈ [2, 3]
  | 0, _, hx => ⟨1, rfl, hx⟩

/-- The messages 2 and 3, on the message list 1 and on the chain 0. -/
def layout : Layout where
  heads := {1}
  lists _ := [2, 3]
  chains := chains
  lists_nodup := lists_nodup
  apart := lists_apart
  chains_nodup := chains_nodup
  separate := chains_separate
  listed := chains_listed

def heap : Heap where
  msgs.next
    | 1 => 2
    | 2 => 3
    | _ => 1
  msgs.prev
    | 1 => 3
    | 3 => 2
    | _ => 1
  index.first
    | 0 => some 2
    | _ => none
  index.next
    | 2 => some 3
    | _ => none
  index.pprev
    | 2 => some (.first 0)
    | 3 => some (.next 2)
    | _ => none
  freed := []

theorem heap_chained : ∀ bucket, heap.index.Chain bucket (chains bucket)
  | 0 => ⟨by decide, .cons rfl rfl (.cons rfl rfl (.nil rfl))⟩
  | _ + 1 => ⟨nodup_nil, .nil rfl⟩

theorem layout_built : layout.Built heap where
  fresh := rfl
  rings := by
    rintro head rfl
    exact ⟨by decide, .cons_cons ⟨rfl, rfl⟩ (.cons_cons ⟨rfl, rfl⟩ (.cons_cons ⟨rfl, rfl⟩
      (.singleton 1)))⟩
  chained := heap_chained
  loose x hx hnot := absurd hx.choose_spec.2 (hnot 0)

/-- The first of the two nodes is deleted. -/
theorem clean_first : layout.Clean heap [.del (some 2)] := by
  refine (Layout.clean_iff layout heap [.del (some 2)] layout_built
    ⟨⟨⟨1, rfl, by decide⟩, not_mem_nil⟩, trivial⟩).mpr ?_
  rintro (_ | bucket) x hlast
  · obtain rfl : 3 = x := Option.some.inj hlast
    decide
  · cases hlast

/-- The last of the two nodes is deleted, and the chain still leads to it. -/
theorem not_clean_last : ¬ layout.Clean heap [.del (some 3)] := by
  rintro ⟨bound, heap', hrun, hchains, -⟩
  have hindex : (runCalls (bound + 1) [.del (some 3)] heap).map Heap.index = some heap.index :=
    rfl
  rw [hrun (bound + 1) (Nat.lt_succ_self bound), map_some] at hindex
  have hpath := (hchains 0).path
  rw [Option.some.inj hindex] at hpath
  exact absurd ((heap_chained 0).path.unique hpath) (by decide)

end IndexWitness

end WaterWall.MessageIndex
