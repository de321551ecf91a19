/-
Records that are threaded through several lists at once: the buckets of a hash table,
one list of all records and one list for each group.  A record is linked into one list
of each kind and unlinked from all of them; the lists stay the same records, each once.
-/
import Mathlib

namespace ThreadedStore

open List Function

universe u v w

/-- Records on a heap and the lists that run through them; a cell without a record is
free. -/
structure Store (ν : Type u) (β : Type v) (γ : Type w) where
  heap : Nat → Option ν
  fresh : Nat
  buckets : β → List Nat
  all : List Nat
  groups : γ → List Nat

variable {ν : Type u} {β : Type v} {γ : Type w}

def Store.empty : Store ν β γ where
  heap _ := none
  fresh := 0
  buckets _ := []
  all := []
  groups _ := []

/-- A new record goes to the front of its bucket and to the ends of the other lists. -/
def Store.link [DecidableEq β] [DecidableEq γ] (store : Store ν β γ) (record : ν)
    (bucket : β) (group : γ) : Store ν β γ where
  heap := Function.update store.heap store.fresh (some record)
  fresh := store.fresh + 1
  buckets := Function.update store.buckets bucket (store.fresh :: store.buckets bucket)
  all := store.all ++ [store.fresh]
  groups := Function.update store.groups group (store.groups group ++ [store.fresh])

/-- A record is taken out of the lists that it is in, and its cell is freed. -/
def Store.unlink (store : Store ν β γ) (id : Nat) : Store ν β γ where
  heap := Function.update store.heap id none
  fresh := store.fresh
  buckets bucket := (store.buckets bucket).filter (· ≠ id)
  all := store.all.filter (· ≠ id)
  groups group := (store.groups group).filter (· ≠ id)

def Store.unlinkAll (store : Store ν β γ) (ids : List Nat) : Store ν β γ :=
  ids.foldl Store.unlink store

/-- The records in the order in which they were linked. -/
def Store.stored (store : Store ν β γ) : List ν :=
  store.all.filterMap store.heap

/-- The first record of a bucket that passes the test. -/
def Store.findIn (store : Store ν β γ) (bucket : β) (test : ν → Bool) : Option Nat :=
  (store.buckets bucket).find? fun id => (store.heap id).any test

/-- What follows a record in a list. -/
def after (chain : List Nat) (id : Nat) : Option Nat :=
  (chain.dropWhile (· ≠ id)).tail.head?

/-- The lists hold the same records, each once, in the bucket and in the group that
belong to the record. -/
structure Coherent (bucketOf : ν → β) (groupOf : ν → γ) (store : Store ν β γ) : Prop where
  bounded : ∀ id ∈ store.all, id < store.fresh
  allNodup : store.all.Nodup
  live : ∀ id, id ∈ store.all ↔ ∃ record, store.heap id = some record
  bucketNodup : ∀ bucket, (store.buckets bucket).Nodup
  mem_bucket : ∀ bucket id, id ∈ store.buckets bucket ↔
    ∃ record, store.heap id = some record ∧ bucketOf record = bucket
  groupNodup : ∀ group, (store.groups group).Nodup
  mem_group : ∀ group id, id ∈ store.groups group ↔
    ∃ record, store.heap id = some record ∧ groupOf record = group

section Chains

variable {chain front rest : List Nat} {id : Nat}

theorem after_append (hnodup : (front ++ id :: rest).Nodup) :
    after (front ++ id :: rest) id = rest.head? := by
  simp_all [nodup_append, after.eq_1]

end Chains

section Coherence

variable {bucketOf : ν → β} {groupOf : ν → γ} {store : Store ν β γ} {record : ν} {id : Nat}

theorem coherent_empty : Coherent bucketOf groupOf (Store.empty : Store ν β γ) := by
  constructor <;> simp [Store.empty]

theorem findIn_some {bucket : β} {test : ν → Bool} (hfind : store.findIn bucket test = some id) :
    ∃ record, store.heap id = some record ∧ test record = true := by
  have htest := List.find?_some hfind
  cases hheap : store.heap id with
  | none =>
    rw [hheap] at htest
    cases htest
  | some record =>
    rw [hheap] at htest
    exact ⟨record, rfl, htest⟩

theorem findIn_append {bucket : β} {test : ν → Bool} {front rest : List Nat}
    (hchain : store.buckets bucket = front ++ id :: rest)
    (hfront : ∀ other ∈ front, (store.heap other).any test = false)
    (hid : (store.heap id).any test = true) : store.findIn bucket test = some id := by
  have hnone : (front.find? fun id => (store.heap id).any test) = none := by
    rw [List.find?_eq_none]
    intro other hother
    rw [hfront other hother]
    exact Bool.false_ne_true
  rw [Store.findIn, hchain, List.find?_append, hnone, List.find?_cons, hid]
  rfl

section Linking

variable [DecidableEq β] [DecidableEq γ]

theorem buckets_link (store : Store ν β γ) (record : ν) (bucket : β) (group : γ) :
    (store.link record bucket group).buckets =
      Function.update store.buckets bucket (store.fresh :: store.buckets bucket) :=
  rfl

theorem groups_link (store : Store ν β γ) (record : ν) (bucket : β) (group : γ) :
    (store.link record bucket group).groups =
      Function.update store.groups group (store.groups group ++ [store.fresh]) :=
  rfl

theorem heap_link_of_ne {bucket : β} {group : γ} (hne : id ≠ store.fresh) :
    (store.link record bucket group).heap id = store.heap id :=
  update_of_ne hne _ _

theorem heap_link_fresh (store : Store ν β γ) (record : ν) (bucket : β) (group : γ) :
    (store.link record bucket group).heap store.fresh = some record :=
  update_self _ _ _

end Linking

theorem heap_unlink_iff {other : ν} {freed : Nat} :
    (store.unlink freed).heap id = some other ↔ id ≠ freed ∧ store.heap id = some other := by
  by_cases hid : id = freed
  · subst hid
    simp [Store.unlink]
  · simp [Store.unlink, hid]

theorem heap_unlinkAll_iff {ids : List Nat} :
    (store.unlinkAll ids).heap id = some record ↔ id ∉ ids ∧ store.heap id = some record := by
  induction ids generalizing store with
  | nil => simp [Store.unlinkAll]
  | cons freed ids ih =>
    change ((store.unlink freed).unlinkAll ids).heap id = some record ↔ _
    rw [ih, heap_unlink_iff, mem_cons, not_or]
    tauto

theorem all_unlinkAll (store : Store ν β γ) (ids : List Nat) :
    (store.unlinkAll ids).all = store.all.filter (· ∉ ids) := by
  induction ids generalizing store with
  | nil => simp [Store.unlinkAll]
  | cons freed ids ih =>
    change ((store.unlink freed).unlinkAll ids).all = _
    rw [ih, Store.unlink, filter_filter]
    grind

variable (hcoherent : Coherent bucketOf groupOf store)

include hcoherent

theorem Coherent.heap_fresh :
    store.heap store.fresh = none := by
  rw [Option.eq_none_iff_forall_ne_some]
  intro record hrecord
  have hmem := (hcoherent.live store.fresh).mpr ⟨record, hrecord⟩
  exact absurd (hcoherent.bounded _ hmem) (lt_irrefl _)

theorem Coherent.ne_fresh (hid : store.heap id = some record) : id ≠ store.fresh := by
  rintro rfl
  rw [hcoherent.heap_fresh] at hid
  cases hid

theorem Coherent.fresh_not_mem_bucket (bucket : β) :
    store.fresh ∉ store.buckets bucket := by
  intro hmem
  obtain ⟨other, hother, _⟩ := (hcoherent.mem_bucket bucket _).mp hmem
  exact hcoherent.ne_fresh hother rfl

theorem Coherent.fresh_not_mem_group (group : γ) :
    store.fresh ∉ store.groups group := by
  intro hmem
  obtain ⟨other, hother, _⟩ := (hcoherent.mem_group group _).mp hmem
  exact hcoherent.ne_fresh hother rfl

theorem Coherent.mem_stored :
    record ∈ store.stored ↔ ∃ id, store.heap id = some record := by
  rw [Store.stored, mem_filterMap]
  constructor
  · rintro ⟨id, _, hid⟩
    exact ⟨id, hid⟩
  · rintro ⟨id, hid⟩
    exact ⟨id, (hcoherent.live id).mpr ⟨record, hid⟩, hid⟩

theorem Coherent.findIn_isSome_iff {bucket : β} {test : ν → Bool} :
    (store.findIn bucket test).isSome ↔
      ∃ record ∈ store.stored, bucketOf record = bucket ∧ test record = true := by
  rw [Store.findIn, List.find?_isSome]
  constructor
  · rintro ⟨id, hid, htest⟩
    obtain ⟨record, hrecord, hbucket⟩ := (hcoherent.mem_bucket bucket id).mp hid
    rw [hrecord, Option.any_some] at htest
    exact ⟨record, hcoherent.mem_stored.mpr ⟨id, hrecord⟩, hbucket, htest⟩
  · rintro ⟨record, hmem, hbucket, htest⟩
    obtain ⟨id, hid⟩ := hcoherent.mem_stored.mp hmem
    refine ⟨id, (hcoherent.mem_bucket bucket id).mpr ⟨record, hid, hbucket⟩, ?_⟩
    rwa [hid, Option.any_some]

theorem Coherent.id_inj {κ : Type*}
    {key : ν → κ} (hnodup : (store.stored.map key).Nodup) {other : ν} {otherId : Nat}
    (hid : store.heap id = some record) (hother : store.heap otherId = some other)
    (hkey : key record = key other) : id = otherId := by
  have hapart : ∀ chain : List Nat, ((chain.filterMap store.heap).map key).Nodup →
      id ∈ chain → otherId ∈ chain → id = otherId := by
    intro chain hchain hmem hmemOther
    by_contra hne
    obtain ⟨front, back, rfl⟩ := append_of_mem hmem
    have hback : otherId ∈ front ++ back := by
      simp only [mem_append, mem_cons] at hmemOther ⊢
      rcases hmemOther with hfront | hsame | hbehind
      · exact Or.inl hfront
      · exact absurd hsame.symm hne
      · exact Or.inr hbehind
    rw [filterMap_append, filterMap_cons, hid, map_append, map_cons,
      nodup_middle, nodup_cons] at hchain
    apply hchain.1
    rw [← map_append, ← filterMap_append, hkey]
    exact mem_map_of_mem (mem_filterMap.mpr ⟨otherId, hback, hother⟩)
  exact hapart store.all hnodup ((hcoherent.live id).mpr ⟨record, hid⟩)
    ((hcoherent.live otherId).mpr ⟨other, hother⟩)

section Linking

variable [DecidableEq β] [DecidableEq γ]

theorem heap_link_iff {bucket : β} {group : γ}
    {other : ν} :
    (store.link record bucket group).heap id = some other ↔
      id = store.fresh ∧ other = record ∨ store.heap id = some other := by
  by_cases hid : id = store.fresh
  · subst hid
    simp [heap_link_fresh, hcoherent.heap_fresh, eq_comm]
  · simp [heap_link_of_ne hid, hid]

theorem Coherent.link (record : ν) :
    Coherent bucketOf groupOf (store.link record (bucketOf record) (groupOf record)) := by
  have hnotAll : store.fresh ∉ store.all := by
    intro hmem
    exact absurd (hcoherent.bounded _ hmem) (lt_irrefl _)
  constructor
  · intro id hid
    rw [Store.link, mem_append, mem_singleton] at hid
    rcases hid with hid | rfl
    · exact Nat.lt_succ_of_lt (hcoherent.bounded id hid)
    · exact Nat.lt_succ_self _
  · rw [Store.link, ← concat_eq_append, nodup_concat]
    exact ⟨hnotAll, hcoherent.allNodup⟩
  · grind [heap_link_iff, Store.link.eq_1, live]
  · intro bucket
    by_cases hbucket : bucket = bucketOf record
    · subst hbucket
      rw [buckets_link, update_self, nodup_cons]
      exact ⟨hcoherent.fresh_not_mem_bucket _, hcoherent.bucketNodup _⟩
    · rw [buckets_link, update_of_ne hbucket]
      exact hcoherent.bucketNodup bucket
  · intro bucket id
    simp only [heap_link_iff hcoherent]
    by_cases hbucket : bucket = bucketOf record
    · subst hbucket
      rw [buckets_link, update_self, mem_cons, hcoherent.mem_bucket]
      grind
    · rw [buckets_link, update_of_ne hbucket, hcoherent.mem_bucket]
      grind
  · intro group
    by_cases hgroup : group = groupOf record
    · subst hgroup
      rw [groups_link, update_self, ← concat_eq_append, nodup_concat]
      exact ⟨hcoherent.fresh_not_mem_group _, hcoherent.groupNodup _⟩
    · rw [groups_link, update_of_ne hgroup]
      exact hcoherent.groupNodup group
  · intro group id
    simp only [heap_link_iff hcoherent]
    by_cases hgroup : group = groupOf record
    · subst hgroup
      rw [groups_link, update_self, mem_append, mem_singleton,
        hcoherent.mem_group]
      grind
    · rw [groups_link, update_of_ne hgroup, hcoherent.mem_group]
      grind

theorem Coherent.stored_link (record : ν)
    (bucket : β) (group : γ) :
    (store.link record bucket group).stored = store.stored ++ [record] := by
  have hold : store.all.filterMap (store.link record bucket group).heap = store.stored := by
    apply filterMap_congr
    intro id hid
    exact heap_link_of_ne (Nat.ne_of_lt (hcoherent.bounded id hid))
  change (store.all ++ [store.fresh]).filterMap (store.link record bucket group).heap = _
  rw [filterMap_append, hold, filterMap_cons, heap_link_fresh]
  rfl

end Linking

theorem Coherent.unlink (freed : Nat) :
    Coherent bucketOf groupOf (store.unlink freed) := by
  have hmem : ∀ {chain : List Nat} {id : Nat},
      id ∈ chain.filter (· ≠ freed) ↔ id ≠ freed ∧ id ∈ chain := by
    intro chain id
    rw [mem_filter, decide_eq_true_eq, and_comm]
  constructor
  · intro id hid
    exact hcoherent.bounded id (hmem.mp hid).2
  · exact hcoherent.allNodup.filter _
  · intro id
    simp only [heap_unlink_iff, exists_and_left]
    rw [← hcoherent.live]
    exact hmem
  · intro bucket
    exact (hcoherent.bucketNodup bucket).filter _
  · intro bucket id
    simp only [heap_unlink_iff, and_assoc, exists_and_left]
    rw [← hcoherent.mem_bucket]
    exact hmem
  · intro group
    exact (hcoherent.groupNodup group).filter _
  · intro group id
    simp only [heap_unlink_iff, and_assoc, exists_and_left]
    rw [← hcoherent.mem_group]
    exact hmem

theorem Coherent.unlinkAll (ids : List Nat) :
    Coherent bucketOf groupOf (store.unlinkAll ids) := by
  induction ids generalizing store with
  | nil => exact hcoherent
  | cons id ids ih => exact ih (hcoherent.unlink id)

theorem Coherent.stored_unlinkAll {ids : List Nat} {drop : ν → Bool}
    (hdrop : ∀ id record, store.heap id = some record → (drop record = true ↔ id ∈ ids)) :
    (store.unlinkAll ids).stored = store.stored.filter fun record => !drop record := by
  rw [Store.stored, all_unlinkAll, Store.stored, filter_filterMap, filterMap_filter]
  apply filterMap_congr
  intro id hid
  obtain ⟨record, hrecord⟩ := (hcoherent.live id).mp hid
  have hiff := hdrop id record hrecord
  by_cases hgone : id ∈ ids
  · rw [if_neg (by simpa using hgone), hrecord]
    rw [Option.filter_some, if_neg (by simp [hiff.mpr hgone])]
  · have hkept : drop record = false := by
      rw [Bool.eq_false_iff]
      exact fun htrue => hgone (hiff.mp htrue)
    rw [if_pos (by simpa using hgone), heap_unlinkAll_iff.mpr ⟨hgone, hrecord⟩, hrecord,
      Option.filter_some, if_pos (by simp [hkept])]

theorem Coherent.stored_unlink {κ : Type*}
    [DecidableEq κ] {key : ν → κ} (hnodup : (store.stored.map key).Nodup) {freed : Nat}
    (hfreed : store.heap freed = some record) :
    (store.unlink freed).stored = store.stored.filter fun other => key other ≠ key record := by
  change (store.unlinkAll [freed]).stored = _
  rw [@Coherent.stored_unlinkAll _ _ _ _ _ _ hcoherent _
    fun other => decide (key other = key record)]
  · simp only [ne_eq, decide_not]
  · intro id other hother
    rw [decide_eq_true_eq, mem_singleton]
    constructor
    · exact hcoherent.id_inj hnodup hother hfreed
    · rintro rfl
      rw [hfreed, Option.some.injEq] at hother
      rw [hother]

theorem Coherent.findIn_key {κ : Type*}
    [DecidableEq κ] {key : ν → κ} (hnodup : (store.stored.map key).Nodup) {sought : κ}
    {bucket : β} {test : ν → Bool} (htest : ∀ record, test record = true ↔ key record = sought)
    (hbucket : ∀ record, key record = sought → bucketOf record = bucket) :
    (∃ id, store.findIn bucket test = some id ∧ (∃ record ∈ store.stored, key record = sought) ∧
      (store.unlink id).stored = store.stored.filter fun record => key record ≠ sought) ∨
    (store.findIn bucket test = none ∧ (¬∃ record ∈ store.stored, key record = sought) ∧
      store.stored = store.stored.filter fun record => key record ≠ sought) := by
  cases hfind : store.findIn bucket test with
  | some id =>
    obtain ⟨record, hid, hrecord⟩ := findIn_some hfind
    have hkey := (htest record).mp hrecord
    refine Or.inl ⟨id, rfl, ⟨record, hcoherent.mem_stored.mpr ⟨id, hid⟩, hkey⟩, ?_⟩
    rw [← hkey]
    exact hcoherent.stored_unlink hnodup hid
  | none =>
    have hnone : ¬∃ record ∈ store.stored, key record = sought := by
      rintro ⟨record, hmem, hkey⟩
      have hsome := hcoherent.findIn_isSome_iff.mpr
        ⟨record, hmem, hbucket record hkey, (htest record).mpr hkey⟩
      rw [hfind] at hsome
      exact Bool.false_ne_true hsome
    refine Or.inr ⟨rfl, hnone, (filter_eq_self.mpr ?_).symm⟩
    grind

theorem Coherent.stored_unlinkGroup [DecidableEq γ] (group : γ) :
    (store.unlinkAll (store.groups group)).stored =
      store.stored.filter fun record => groupOf record ≠ group := by
  rw [@Coherent.stored_unlinkAll _ _ _ _ _ _ hcoherent _
    fun record => decide (groupOf record = group)]
  · simp only [ne_eq, decide_not]
  · intro id record hid
    rw [decide_eq_true_eq, hcoherent.mem_group]
    grind

theorem Coherent.stored_unlinkAll_all :
    (store.unlinkAll store.all).stored = [] := by
  rw [@Coherent.stored_unlinkAll _ _ _ _ _ _ hcoherent _ fun _ => true]
  · simp
  · intro id record hid
    rw [hcoherent.live]
    simp [hid]

end Coherence

end ThreadedStore
