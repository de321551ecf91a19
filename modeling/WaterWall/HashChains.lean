/-
Hash tables with chains.  A record goes to the front of the chain of its hash value, is
found by a walk along that chain and is unlinked or changed where the walk stops.  As long
as no key is entered twice, the table is a partial map from keys to records.
-/
import Mathlib

namespace HashChains

open List Function

universe u v w x

/-- A chain of records for each hash value. -/
abbrev Table (κ : Type u) (ν : Type v) := κ → List ν

/-- The chain of a hash value in a table of 256 chains. -/
def byteBucket (hash : Nat) : Fin 256 := Fin.ofNat 256 hash

section Operations

variable {κ : Type u} {ν : Type v}

def empty : Table κ ν := fun _ => []

def find (table : Table κ ν) (bucket : κ) (test : ν → Bool) : Option ν :=
  (table bucket).find? test

/-- The walk changes the first record that passes the test. -/
def changeFirst (test : ν → Bool) (change : ν → ν) : List ν → List ν
  | [] => []
  | record :: chain =>
    if test record then change record :: chain
    else record :: changeFirst test change chain

variable [DecidableEq κ]

def insert (table : Table κ ν) (bucket : κ) (record : ν) : Table κ ν :=
  Function.update table bucket (record :: table bucket)

/-- The first record of a chain that passes the test is unlinked. -/
def remove (table : Table κ ν) (bucket : κ) (test : ν → Bool) : Table κ ν :=
  Function.update table bucket ((table bucket).eraseP test)

def modify (table : Table κ ν) (bucket : κ) (test : ν → Bool) (change : ν → ν) :
    Table κ ν :=
  Function.update table bucket (changeFirst test change (table bucket))

theorem changeFirst_append {test : ν → Bool} {front rest : List ν} {record : ν}
    (hfront : ∀ other ∈ front, test other = false) (hrecord : test record = true)
    (change : ν → ν) :
    changeFirst test change (front ++ record :: rest) = front ++ change record :: rest := by
  induction front with
  | nil => simp [changeFirst, hrecord]
  | cons other front ih =>
    rw [forall_mem_cons] at hfront
    simp [changeFirst, hfront.1, ih hfront.2]

end Operations

section Maps

variable {κ : Type u} {ν : Type v} {ι : Type w}

/-- Every record is in the chain of its key, and no key is there twice. -/
structure Keyed (bucketOf : ι → κ) (keyOf : ν → ι) (table : Table κ ν) : Prop where
  placed : ∀ bucket, ∀ record ∈ table bucket, bucketOf (keyOf record) = bucket
  distinct : ∀ bucket, ((table bucket).map keyOf).Nodup

variable {bucketOf : ι → κ} {keyOf : ν → ι} {table : Table κ ν} {key : ι} {record : ν}

theorem keyed_empty : Keyed bucketOf keyOf (empty : Table κ ν) := by
  constructor <;> simp [empty]

theorem Keyed.update [DecidableEq κ] (hkeyed : Keyed bucketOf keyOf table) {bucket : κ}
    {chain : List ν} (hplaced : ∀ record ∈ chain, bucketOf (keyOf record) = bucket)
    (hdistinct : (chain.map keyOf).Nodup) :
    Keyed bucketOf keyOf (Function.update table bucket chain) where
  placed other := by
    rcases eq_or_ne other bucket with rfl | hother
    · rwa [update_self]
    · rw [update_of_ne hother]
      exact hkeyed.placed other
  distinct other := by
    rcases eq_or_ne other bucket with rfl | hother
    · rwa [update_self]
    · rw [update_of_ne hother]
      exact hkeyed.distinct other

variable [DecidableEq ι]

/-- The record of a key. -/
def lookup (bucketOf : ι → κ) (keyOf : ν → ι) (table : Table κ ν) (key : ι) : Option ν :=
  find table (bucketOf key) fun record => keyOf record = key

theorem lookup_mem (hlookup : lookup bucketOf keyOf table key = some record) :
    record ∈ table (bucketOf key) ∧ keyOf record = key := by
  have hkey := List.find?_some hlookup
  exact ⟨mem_of_find?_eq_some hlookup, by simpa using hkey⟩

theorem lookup_eq_none_iff :
    lookup bucketOf keyOf table key = none ↔
      ∀ record ∈ table (bucketOf key), keyOf record ≠ key := by
  simp [lookup, find, List.find?_eq_none]

theorem Keyed.lookup_eq_some_iff (hkeyed : Keyed bucketOf keyOf table) :
    lookup bucketOf keyOf table key = some record ↔
      record ∈ table (bucketOf key) ∧ keyOf record = key := by
  refine ⟨lookup_mem, ?_⟩
  rintro ⟨hmem, rfl⟩
  cases hlookup : lookup bucketOf keyOf table (keyOf record) with
  | none => exact absurd rfl (lookup_eq_none_iff.mp hlookup record hmem)
  | some other =>
    obtain ⟨hother, hkey⟩ := lookup_mem hlookup
    rw [inj_on_of_nodup_map (hkeyed.distinct _) hother hmem hkey]

theorem lookup_split (hlookup : lookup bucketOf keyOf table key = some record) :
    ∃ front rest, table (bucketOf key) = front ++ record :: rest ∧ keyOf record = key ∧
      ∀ other ∈ front, keyOf other ≠ key := by
  obtain ⟨hkey, front, rest, hchain, hfront⟩ := List.find?_eq_some_iff_append.mp hlookup
  refine ⟨front, rest, hchain, by simpa using hkey, ?_⟩
  intro other hother
  simpa using hfront other hother

@[simp]
theorem lookup_empty : lookup bucketOf keyOf (empty : Table κ ν) key = none := rfl

variable [DecidableEq κ]

/-- The record of a key is unlinked. -/
def removeKey (bucketOf : ι → κ) (keyOf : ν → ι) (table : Table κ ν) (key : ι) :
    Table κ ν :=
  remove table (bucketOf key) fun record => keyOf record = key

/-- The record of a key is changed in place. -/
def modifyKey (bucketOf : ι → κ) (keyOf : ν → ι) (table : Table κ ν) (key : ι)
    (change : ν → ν) : Table κ ν :=
  modify table (bucketOf key) (fun record => keyOf record = key) change

theorem removeKey_split {front rest : List ν}
    (hchain : table (bucketOf key) = front ++ record :: rest) (hkey : keyOf record = key)
    (hfront : ∀ other ∈ front, keyOf other ≠ key) :
    removeKey bucketOf keyOf table key =
      Function.update table (bucketOf key) (front ++ rest) := by
  rw [removeKey, remove, hchain, eraseP_append_right _ (by simpa using hfront),
    eraseP_cons_of_pos (by simpa using hkey)]

theorem modifyKey_split {front rest : List ν} (change : ν → ν)
    (hchain : table (bucketOf key) = front ++ record :: rest) (hkey : keyOf record = key)
    (hfront : ∀ other ∈ front, keyOf other ≠ key) :
    modifyKey bucketOf keyOf table key change =
      Function.update table (bucketOf key) (front ++ change record :: rest) := by
  rw [modifyKey, modify, hchain,
    changeFirst_append (by simpa using hfront) (by simpa using hkey)]

theorem removeKey_of_none (hlookup : lookup bucketOf keyOf table key = none) :
    removeKey bucketOf keyOf table key = table := by
  rw [lookup_eq_none_iff] at hlookup
  rw [removeKey, remove, eraseP_of_forall_not (by simpa using hlookup),
    update_eq_self]

theorem lookup_update (bucket : κ) (chain : List ν) :
    lookup bucketOf keyOf (Function.update table bucket chain) key =
      if bucketOf key = bucket then chain.find? fun record => keyOf record = key
      else lookup bucketOf keyOf table key := by
  rw [lookup, find]
  grind [find.eq_1, lookup.eq_1]

theorem Keyed.insert (hkeyed : Keyed bucketOf keyOf table) (record : ν)
    (hnew : lookup bucketOf keyOf table (keyOf record) = none) :
    Keyed bucketOf keyOf (insert table (bucketOf (keyOf record)) record) := by
  rw [lookup_eq_none_iff] at hnew
  apply hkeyed.update
  · rw [forall_mem_cons]
    exact ⟨rfl, hkeyed.placed _⟩
  · rw [map_cons, nodup_cons]
    refine ⟨?_, hkeyed.distinct _⟩
    grind

theorem lookup_insert (record : ν) (key : ι) :
    lookup bucketOf keyOf (HashChains.insert table (bucketOf (keyOf record)) record) key =
      if key = keyOf record then some record else lookup bucketOf keyOf table key := by
  rw [HashChains.insert, lookup_update]
  rcases eq_or_ne key (keyOf record) with rfl | hkey
  · simp
  simp_all [Ne.symm, lookup.eq_1, find.eq_1]

theorem Keyed.removeKey (hkeyed : Keyed bucketOf keyOf table) :
    Keyed bucketOf keyOf (removeKey bucketOf keyOf table key) := by
  have hsub : List.Sublist ((table (bucketOf key)).eraseP fun record => keyOf record = key)
      (table (bucketOf key)) := eraseP_sublist
  apply hkeyed.update
  · intro record hrecord
    exact hkeyed.placed _ record (hsub.subset hrecord)
  · exact (hkeyed.distinct _).sublist (hsub.map keyOf)

theorem Keyed.lookup_removeKey (hkeyed : Keyed bucketOf keyOf table) (other : ι) :
    lookup bucketOf keyOf (HashChains.removeKey bucketOf keyOf table key) other =
      if other = key then none else lookup bucketOf keyOf table other := by
  cases hlookup : lookup bucketOf keyOf table key with
  | none =>
    rw [removeKey_of_none hlookup]
    split_ifs with hsame
    · rw [hsame, hlookup]
    · rfl
  | some record =>
    obtain ⟨front, rest, hchain, hkey, hfront⟩ := lookup_split hlookup
    have hdistinct := hkeyed.distinct (bucketOf key)
    rw [hchain, map_append, map_cons, nodup_middle, nodup_cons,
      ← map_append, hkey] at hdistinct
    rw [removeKey_split hchain hkey hfront, lookup_update]
    split_ifs with hbucket hsame hsame
    · rw [List.find?_eq_none]
      grind
    · rw [lookup, find, hbucket, hchain, List.find?_append, List.find?_append,
        List.find?_cons_of_neg (by simpa [hkey] using Ne.symm hsame)]
    · exact absurd (congrArg bucketOf hsame) hbucket
    · rfl

section InPlace

variable {change : ν → ν}

theorem Keyed.modifyKey (hkeyed : Keyed bucketOf keyOf table)
    (hchange : ∀ record, keyOf (change record) = keyOf record) :
    Keyed bucketOf keyOf (modifyKey bucketOf keyOf table key change) := by
  have hkeys : ∀ chain : List ν, (changeFirst (fun record => keyOf record = key) change
      chain).map keyOf = chain.map keyOf := by
    intro chain
    induction chain with
    | nil => rfl
    | cons record chain ih =>
      rw [changeFirst]
      grind
  apply hkeyed.update
  · intro record hrecord
    have hmem := mem_map_of_mem (f := keyOf) hrecord
    rw [hkeys] at hmem
    obtain ⟨other, hother, hsame⟩ := mem_map.mp hmem
    rw [← hsame]
    exact hkeyed.placed _ other hother
  · rw [hkeys]
    exact hkeyed.distinct _

theorem lookup_modifyKey (hchange : ∀ record, keyOf (change record) = keyOf record)
    (other : ι) :
    lookup bucketOf keyOf (HashChains.modifyKey bucketOf keyOf table key change) other =
      if other = key then (lookup bucketOf keyOf table key).map change
      else lookup bucketOf keyOf table other := by
  have hwalk : ∀ chain : List ν, (changeFirst (fun record => keyOf record = key) change
      chain).find? (fun record => keyOf record = other) =
      if other = key then (chain.find? fun record => keyOf record = key).map change
      else chain.find? fun record => keyOf record = other := by
    intro chain
    induction chain with
    | nil => simp [changeFirst]
    | cons record chain ih =>
      rw [changeFirst]
      grind
  rw [HashChains.modifyKey, modify, lookup_update, hwalk]
  split_ifs with hbucket hsame hsame
  · rfl
  · rw [lookup, find, hbucket]
  · exact absurd (congrArg bucketOf hsame) hbucket
  · rfl

end InPlace

end Maps

section Weights

variable {κ : Type u} {ν : Type v} {ι : Type w} {M : Type x} [Fintype κ]
  [AddCancelCommMonoid M]

/-- What the records of the whole table weigh together. -/
def weight (measure : ν → M) (table : Table κ ν) : M :=
  ∑ bucket, ((table bucket).map measure).sum

variable {measure : ν → M} {table : Table κ ν}

@[simp]
theorem weight_empty : weight measure (empty : Table κ ν) = 0 := by
  simp [weight, empty]

theorem weight_congr {other : ν → M}
    (hsame : ∀ bucket, ∀ record ∈ table bucket, measure record = other record) :
    weight measure table = weight other table := by
  apply Finset.sum_congr rfl
  intro bucket _
  rw [map_congr_left (hsame bucket)]

theorem weight_map {N : Type*} [AddCancelCommMonoid N] (f : M →+ N) (measure : ν → M)
    (table : Table κ ν) :
    weight (fun record => f (measure record)) table = f (weight measure table) := by
  rw [weight, weight, map_sum]
  apply Finset.sum_congr rfl
  intro bucket _
  rw [map_list_sum, map_map]
  rfl

variable [DecidableEq ι] {bucketOf : ι → κ} {keyOf : ν → ι} {key : ι} {record : ν}

/-- How many records of the whole table have a key. -/
def occurrences (keyOf : ν → ι) (table : Table κ ν) (key : ι) : Nat :=
  weight (fun record => if keyOf record = key then 1 else 0) table

theorem Keyed.occurrences_of_none (hkeyed : Keyed bucketOf keyOf table)
    (hlookup : lookup bucketOf keyOf table key = none) : occurrences keyOf table key = 0 := by
  rw [lookup_eq_none_iff] at hlookup
  apply Finset.sum_eq_zero
  intro bucket _
  apply sum_eq_zero
  intro count hcount
  obtain ⟨record, hrecord, rfl⟩ := mem_map.mp hcount
  rw [if_neg]
  rintro rfl
  obtain rfl := hkeyed.placed bucket record hrecord
  exact hlookup record hrecord rfl

variable [DecidableEq κ]

theorem weight_update (measure : ν → M) (table : Table κ ν) (bucket : κ) (chain : List ν) :
    weight measure (Function.update table bucket chain) + ((table bucket).map measure).sum =
      weight measure table + (chain.map measure).sum := by
  have hothers : ∑ other ∈ Finset.univ.erase bucket,
      ((Function.update table bucket chain other).map measure).sum =
      ∑ other ∈ Finset.univ.erase bucket, ((table other).map measure).sum := by
    grind [Finset.sum_congr]
  rw [weight, weight, ← Finset.sum_erase_add _ _ (Finset.mem_univ bucket), hothers,
    ← Finset.sum_erase_add _ _ (Finset.mem_univ bucket), update_self]
  exact add_right_comm _ _ _

theorem weight_change {bucket : κ} {chain : List ν} {s out into : M}
    (hold : ((table bucket).map measure).sum = s + out)
    (hnew : (chain.map measure).sum = s + into) :
    weight measure (Function.update table bucket chain) + out =
      weight measure table + into := by
  have hupdate := weight_update measure table bucket chain
  rw [hold, hnew, add_left_comm, add_left_comm (weight measure table)] at hupdate
  exact add_left_cancel hupdate

theorem weight_insert (bucket : κ) (record : ν) :
    weight measure (insert table bucket record) = weight measure table + measure record := by
  have hchange : weight measure (insert table bucket record) + 0 = _ :=
    weight_change (add_zero ((table bucket).map measure).sum).symm
      (by rw [map_cons, sum_cons, add_comm])
  rwa [add_zero] at hchange

theorem weight_removeKey (hlookup : lookup bucketOf keyOf table key = some record) :
    weight measure (removeKey bucketOf keyOf table key) + measure record =
      weight measure table := by
  obtain ⟨front, rest, hchain, hkey, hfront⟩ := lookup_split hlookup
  rw [removeKey_split hchain hkey hfront, ← add_zero (weight measure table)]
  apply weight_change (s := ((front ++ rest).map measure).sum)
  · rw [hchain]
    simp [add_left_comm, add_comm]
  · rw [add_zero]

theorem weight_modifyKey (hlookup : lookup bucketOf keyOf table key = some record)
    (change : ν → ν) :
    weight measure (modifyKey bucketOf keyOf table key change) + measure record =
      weight measure table + measure (change record) := by
  obtain ⟨front, rest, hchain, hkey, hfront⟩ := lookup_split hlookup
  rw [modifyKey_split change hchain hkey hfront]
  apply weight_change (s := ((front ++ rest).map measure).sum)
  · rw [hchain]
    simp [add_left_comm, add_comm]
  · simp [add_left_comm, add_comm]

theorem Keyed.occurrences_eq (hkeyed : Keyed bucketOf keyOf table) (key : ι) :
    occurrences keyOf table key =
      if (lookup bucketOf keyOf table key).isSome then 1 else 0 := by
  cases hlookup : lookup bucketOf keyOf table key with
  | none => exact hkeyed.occurrences_of_none hlookup
  | some record =>
    have hrest : occurrences keyOf (HashChains.removeKey bucketOf keyOf table key) key = 0 := by
      apply hkeyed.removeKey.occurrences_of_none
      rw [hkeyed.lookup_removeKey, if_pos rfl]
    rw [occurrences, ← weight_removeKey hlookup, ← occurrences, hrest,
      if_pos (lookup_mem hlookup).2]
    rfl

end Weights

end HashChains
