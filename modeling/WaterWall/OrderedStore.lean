/-
A finite map kept as its strictly increasing list of rows, read through bounded
range scans and shrunk by deletions.  `purge` is the page-by-page deletion of a
fixed range; its result does not depend on the page size.  `pagesBy` is reading
page by page, each page behind the stamp of the last row before it; what it reads
does depend on the page size where rows share a stamp.
-/
import Mathlib

namespace OrderedStore

open List

universe u v

variable {K : Type u} {V : Type v} [LinearOrder K]

/-- A finite map; the rows are listed in key order, so no key occurs twice. -/
structure Store (K : Type u) (V : Type v) [LinearOrder K] where
  rows : List (K × V)
  sorted : rows.Pairwise fun left right => left.1 < right.1

namespace Store

/-- The half-open key range `(low, high]`. -/
def inRange (low high key : K) : Bool :=
  decide (low < key) && decide (key ≤ high)

theorem inRange_iff {low high key : K} :
    inRange low high key = true ↔ low < key ∧ key ≤ high := by
  simp [inRange]

/-- At most `limit` rows of `(low, high]`, in key order. -/
def scan (store : Store K V) (low high : K) (limit : Nat) : List (K × V) :=
  (store.rows.filter fun row => inRange low high row.1).take limit

def del (store : Store K V) (key : K) : Store K V where
  rows := store.rows.filter fun row => row.1 ≠ key
  sorted := store.sorted.filter _

def delAll (store : Store K V) (keys : List K) : Store K V :=
  keys.foldl del store

theorem delAll_rows (store : Store K V) (keys : List K) :
    (store.delAll keys).rows =
      store.rows.filter fun row => decide (row.1 ∉ keys) := by
  induction keys generalizing store with
  | nil => simp [delAll]
  | cons key keys ih =>
    have htail := ih (store.del key)
    simp only [delAll, foldl_cons] at htail ⊢
    rw [htail, del, filter_filter]
    grind

theorem mem_delAll {store : Store K V} {keys : List K} {row : K × V} :
    row ∈ (store.delAll keys).rows ↔ row ∈ store.rows ∧ row.1 ∉ keys := by
  simp [delAll_rows]

theorem rows_nodup (store : Store K V) : store.rows.Nodup :=
  store.sorted.imp fun hlt heq => absurd (congrArg Prod.fst heq) (ne_of_lt hlt)

theorem row_eq_of_key_eq (store : Store K V) {left right : K × V}
    (hleft : left ∈ store.rows) (hright : right ∈ store.rows)
    (hkey : left.1 = right.1) : left = right := by
  have hnodup : (store.rows.map Prod.fst).Nodup := by
    rw [List.Nodup, pairwise_map]
    exact store.sorted.imp fun hlt => ne_of_lt hlt
  grind [nodup_map_iff_inj_on, List.Nodup.of_map]

theorem mem_of_mem_scan {store : Store K V} {low high : K} {limit : Nat}
    {row : K × V} (hrow : row ∈ store.scan low high limit) :
    row ∈ store.rows ∧ low < row.1 ∧ row.1 ≤ high := by
  have hmem := mem_of_mem_take hrow
  rw [mem_filter, inRange_iff] at hmem
  exact hmem

theorem scan_eq_nil_iff {store : Store K V} {low high : K} {limit : Nat}
    (hlimit : 0 < limit) :
    store.scan low high limit = [] ↔
      ∀ row ∈ store.rows, ¬ (low < row.1 ∧ row.1 ≤ high) := by
  rw [scan, take_eq_nil_iff]
  grind [inRange_iff, filter_eq_nil_iff]

/-- A key of the deleted page is gone, a row with another key stays: rows and
keys of one store determine each other. -/
theorem mem_delAll_scan {store : Store K V} {low high : K} {limit : Nat}
    {row : K × V} :
    row ∈ (store.delAll ((store.scan low high limit).map Prod.fst)).rows ↔
      row ∈ store.rows ∧ row ∉ store.scan low high limit := by
  rw [mem_delAll]
  refine and_congr_right fun hrow => not_congr ?_
  constructor
  · intro hkey
    obtain ⟨other, hother, heq⟩ := mem_map.mp hkey
    have hsame := store.row_eq_of_key_eq (mem_of_mem_scan hother).1 hrow heq
    rwa [← hsame]
  · exact fun hscan => mem_map_of_mem hscan

theorem delAll_scan_length_lt {store : Store K V} {low high : K} {limit : Nat}
    (hscan : store.scan low high limit ≠ []) :
    (store.delAll ((store.scan low high limit).map Prod.fst)).rows.length <
      store.rows.length := by
  obtain ⟨row, hrow⟩ := exists_mem_of_ne_nil _ hscan
  rw [delAll_rows]
  apply length_filter_lt_length_iff_exists.mpr
  exact ⟨row, (mem_of_mem_scan hrow).1,
    by simpa using ⟨row.2, hrow⟩⟩

/-- Scan a fixed range and delete the page, until a page is empty. -/
def purge (low high : K) (limit : Nat) : Nat → Store K V → Option (Store K V)
  | 0, _ => none
  | fuel + 1, store =>
    let page := store.scan low high limit
    if page.isEmpty then some store
    else purge low high limit fuel (store.delAll (page.map Prod.fst))

theorem purge_spec (low high : K) {limit : Nat} (hlimit : 0 < limit)
    {fuel : Nat} {store : Store K V} (hfuel : store.rows.length < fuel) :
    ∃ final, purge low high limit fuel store = some final ∧
      ∀ row, row ∈ final.rows ↔
        row ∈ store.rows ∧ ¬ (low < row.1 ∧ row.1 ≤ high) := by
  induction fuel generalizing store with
  | zero => omega
  | succ fuel ih =>
    by_cases hpage : store.scan low high limit = []
    · refine ⟨store, by simp [purge, hpage], fun row => ?_⟩
      have hnone := (scan_eq_nil_iff hlimit).mp hpage
      exact ⟨fun hrow => ⟨hrow, hnone row hrow⟩, fun h => h.1⟩
    · have hshorter := delAll_scan_length_lt hpage
      obtain ⟨final, hrun, hfinal⟩ := @ih
        (store.delAll ((store.scan low high limit).map Prod.fst)) (by omega)
      refine ⟨final, by simpa [purge, hpage] using hrun, fun row => ?_⟩
      rw [hfinal, mem_delAll_scan]
      grind [mem_of_mem_scan]

end Store

section Pages

variable {α : Type u}

def laterThan (stamp : α → Nat) (bound : Nat) (rows : List α) : List α :=
  rows.filter fun row => bound < stamp row

theorem laterThan_length_lt {stamp : α → Nat} {rows : List α} {last : α}
    (hlast : last ∈ rows) : (laterThan stamp (stamp last) rows).length < rows.length := by
  apply length_filter_lt_length_iff_exists.mpr
  exact ⟨last, hlast, by simp⟩

theorem laterThan_filter_length_lt {stamp : α → Nat} {bound : Nat} {rows : List α}
    {last : α} (hlast : last ∈ rows) (hbound : bound < stamp last) (keep : α → Bool) :
    (laterThan stamp (stamp last) (rows.filter keep)).length <
      (laterThan stamp bound rows).length := by
  have hmem : last ∈ laterThan stamp bound rows :=
    mem_filter.mpr ⟨hlast, decide_eq_true hbound⟩
  have hsublist : (laterThan stamp (stamp last) (rows.filter keep)).Sublist
      (laterThan stamp (stamp last) (laterThan stamp bound rows)) := by
    have hboth : laterThan stamp (stamp last) (laterThan stamp bound rows) =
        laterThan stamp (stamp last) rows := by
      rw [laterThan, laterThan, filter_filter]
      apply filter_congr
      grind
    rw [hboth]
    exact filter_sublist.filter _
  exact hsublist.length_le.trans_lt (laterThan_length_lt hmem)

/-- Pages of at most `limit` rows, each of the rows stamped later than the last row
of the page before. -/
def pagesBy (stamp : α → Nat) (limit : Nat) (rows : List α) : List α :=
  match _hlast : (rows.take limit).getLast? with
  | none => []
  | some last =>
    rows.take limit ++ pagesBy stamp limit (laterThan stamp (stamp last) rows)
termination_by rows.length
decreasing_by
  exact laterThan_length_lt (mem_of_mem_take (mem_of_getLast? _hlast))

variable {stamp : α → Nat} {limit : Nat} {rows : List α}

theorem pagesBy_of_last {last : α} (hlast : (rows.take limit).getLast? = some last) :
    pagesBy stamp limit rows = rows.take limit ++
      pagesBy stamp limit (laterThan stamp (stamp last) rows) := by
  rw [pagesBy]
  split
  · simp_all
  · simp_all

theorem pagesBy_of_none (hlast : (rows.take limit).getLast? = none) :
    pagesBy stamp limit rows = [] := by
  rw [pagesBy]
  split
  · rfl
  · simp_all

theorem laterThan_take {last : α} (hlast : (rows.take limit).getLast? = some last)
    (hordered : rows.Pairwise fun left right => stamp left ≤ stamp right) :
    laterThan stamp (stamp last) (rows.take limit) = [] := by
  rw [laterThan, filter_eq_nil_iff]
  grind [take_sublist, List.getLast?_eq_some_iff]

theorem laterThan_eq_drop {last : α} (hlast : (rows.take limit).getLast? = some last)
    (hordered : rows.Pairwise fun left right => stamp left ≤ stamp right) :
    laterThan stamp (stamp last) rows = laterThan stamp (stamp last) (rows.drop limit) := by
  have hnone := laterThan_take hlast hordered
  rw [laterThan] at hnone
  grind [take_append_drop, laterThan.eq_1]

theorem pagesBy_sublist (hordered : rows.Pairwise fun left right => stamp left ≤ stamp right) :
    (pagesBy stamp limit rows).Sublist rows := by
  fun_induction pagesBy stamp limit rows with
  | case1 rows hlast => exact nil_sublist _
  | case2 rows last hlast ih =>
    have hrest := laterThan_eq_drop hlast hordered
    have hlater : (pagesBy stamp limit (laterThan stamp (stamp last) rows)).Sublist
        (rows.drop limit) := by
      apply (ih (hordered.filter _)).trans
      rw [hrest]
      exact filter_sublist
    grind [take_append_drop]

theorem pagesBy_of_length_le (hlength : rows.length ≤ limit)
    (hordered : rows.Pairwise fun left right => stamp left ≤ stamp right) :
    pagesBy stamp limit rows = rows := by
  have htake := take_of_length_le hlength
  cases hlast : (rows.take limit).getLast? with
  | none =>
    rw [pagesBy_of_none hlast]
    rw [htake, List.getLast?_eq_none_iff] at hlast
    exact hlast.symm
  | some last =>
    have hnone := laterThan_take hlast hordered
    rw [htake] at hnone
    rw [pagesBy_of_last hlast, hnone, htake, pagesBy_of_none (by simp), append_nil]

/-- No two neighbours on both sides of a page boundary share a stamp. -/
def Seamless (stamp : α → Nat) (limit : Nat) (rows : List α) : Prop :=
  ∀ page left right, rows[(page + 1) * limit - 1]? = some left →
    rows[(page + 1) * limit]? = some right → stamp left ≠ stamp right

theorem seamless_of_length_le (hlength : rows.length ≤ limit) :
    Seamless stamp limit rows := by
  intro page left right _ hright
  have hbound := (List.getElem?_eq_some_iff.mp hright).1
  rw [Nat.add_one_mul] at hbound
  omega

theorem seamless_of_injective (hlimit : 0 < limit) (hnodup : rows.Nodup)
    (hinjective : ∀ left ∈ rows, ∀ right ∈ rows, stamp left = stamp right → left = right) :
    Seamless stamp limit rows := by
  intro page left right hleft hright hstamp
  have hsame := hinjective left (mem_of_getElem? hleft) right
    (mem_of_getElem? hright) hstamp
  have hindex := (List.getElem?_inj (List.getElem?_eq_some_iff.mp hleft).1 hnodup).mp
    (hleft.trans (hsame ▸ hright.symm))
  have hpos : 0 < (page + 1) * limit := Nat.mul_pos (Nat.succ_pos page) hlimit
  omega

theorem seamless_iff_drop (hlimit : 0 < limit) :
    Seamless stamp limit rows ↔
      (∀ left right, rows[limit - 1]? = some left → rows[limit]? = some right →
        stamp left ≠ stamp right) ∧
      Seamless stamp limit (rows.drop limit) := by
  have hshift : ∀ page, (page + 1 + 1) * limit - 1 = limit + ((page + 1) * limit - 1) ∧
      (page + 1 + 1) * limit = limit + (page + 1) * limit := by
    grind
  constructor
  · intro hseamless
    constructor
    · intro left right hleft hright
      exact hseamless 0 left right (by simpa using hleft) (by simpa using hright)
    · intro page left right hleft hright
      rw [List.getElem?_drop] at hleft hright
      exact hseamless (page + 1) left right ((hshift page).1 ▸ hleft)
        ((hshift page).2 ▸ hright)
  · rintro ⟨hfirst, hrest⟩ page left right hleft hright
    cases page with
    | zero => exact hfirst left right (by simpa using hleft) (by simpa using hright)
    | succ page =>
      rw [(hshift page).1, ← List.getElem?_drop] at hleft
      rw [(hshift page).2, ← List.getElem?_drop] at hright
      exact hrest page left right hleft hright

theorem laterThan_eq_drop_of_ne {last right : α}
    (hlast : (rows.take limit).getLast? = some last) (hright : rows[limit]? = some right)
    (hstamp : stamp last ≠ stamp right)
    (hordered : rows.Pairwise fun left right => stamp left ≤ stamp right) :
    laterThan stamp (stamp last) rows = rows.drop limit := by
  obtain ⟨hlimit, hget⟩ := List.getElem?_eq_some_iff.mp hright
  have hcons : rows.drop limit = right :: rows.drop (limit + 1) := by
    rw [drop_eq_getElem_cons hlimit, hget]
  rw [laterThan_eq_drop hlast hordered]
  rw [← take_append_drop limit rows, pairwise_append, hcons] at hordered
  obtain ⟨_, hbehind, hacross⟩ := hordered
  have hle := hacross last (mem_of_getLast? hlast) right mem_cons_self
  apply filter_eq_self.mpr
  intro row hrow
  rw [hcons, mem_cons] at hrow
  rw [decide_eq_true_eq]
  grind [pairwise_cons]

/-- Rows in the order of their stamps are all read if and only if no page boundary
falls between two rows of one stamp. -/
theorem pagesBy_eq_self_iff (hlimit : 0 < limit)
    (hordered : rows.Pairwise fun left right => stamp left ≤ stamp right) :
    pagesBy stamp limit rows = rows ↔ Seamless stamp limit rows := by
  fun_induction pagesBy stamp limit rows with
  | case1 rows hlast =>
    have hnil : rows = [] := by
      rw [List.getLast?_eq_none_iff, take_eq_nil_iff] at hlast
      exact hlast.resolve_left (by omega)
    subst hnil
    exact ⟨fun _ => seamless_of_length_le (Nat.zero_le _), fun _ => rfl⟩
  | case2 rows last hlast ih =>
    by_cases hlength : rows.length ≤ limit
    · have hall := pagesBy_of_length_le hlength hordered
      rw [pagesBy_of_last hlast] at hall
      exact ⟨fun _ => seamless_of_length_le hlength, fun _ => hall⟩
    · have hlimitLt : limit < rows.length := Nat.lt_of_not_le hlength
      obtain ⟨right, hright⟩ : ∃ right, rows[limit]? = some right :=
        ⟨rows[limit], List.getElem?_eq_getElem hlimitLt⟩
      have hleft : rows[limit - 1]? = some last := by
        rw [List.getLast?_eq_getElem?, length_take,
          Nat.min_eq_left hlimitLt.le, List.getElem?_take_of_lt (by omega)] at hlast
        exact hlast
      have hsplit := take_append_drop limit rows
      have hdrop : right ∈ rows.drop limit := by
        grind
      have hcancel : rows.take limit ++
            pagesBy stamp limit (laterThan stamp (stamp last) rows) = rows ↔
          pagesBy stamp limit (laterThan stamp (stamp last) rows) = rows.drop limit := by
        nth_rewrite 3 [← hsplit]
        exact append_right_inj _
      rw [hcancel, seamless_iff_drop hlimit]
      by_cases hstamp : stamp last = stamp right
      · refine iff_of_false ?_ fun hseamless => hseamless.1 last right hleft hright hstamp
        intro hread
        have hmem := (pagesBy_sublist (hordered.filter _)).subset (hread ▸ hdrop)
        have hlt := (mem_filter.mp hmem).2
        simp only [decide_eq_true_eq] at hlt
        omega
      · have hlater := laterThan_eq_drop_of_ne hlast hright hstamp hordered
        have hordered' := hordered.sublist (drop_sublist limit rows)
        rw [hlater] at ih ⊢
        rw [ih hordered']
        simp_all

end Pages

end OrderedStore
