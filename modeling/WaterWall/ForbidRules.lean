/-
The store of forbid rules of hash.c.  Every rule is threaded through the chain of its
name's hash, through `an_forbid_list` and through the list of its group.  A rule for all
groups, gid 0, takes the place of the rules that single groups have for the same name.
-/
import WaterWall.ByteText
import WaterWall.ThreadedStore

namespace WaterWall

open ByteText ThreadedStore List

/-- GROUP_ID_MAX. -/
def groupLists : Int := 256

/-- `while (*name++) hash_r = hash_r*hash_seed + *name;`: the first byte is left out and
the NUL is taken in.  The bytes are signed. -/
def hashWalk : UInt32 → Bytes → UInt32
  | hash, [] => hash
  | hash, _ :: rest => hashWalk (hash * 131 + (rest.headD 0).toInt8.toInt32.toUInt32) rest

def forbidActHashValue (name : CString) : Nat :=
  (hashWalk 0 name.text &&& 0xff).toNat

/-- A name that ends inside an array of 32 bytes. -/
structure RuleName extends CString where
  fits : text.length < 32
  deriving DecidableEq

/-- A `ww_forbidact_t` without its list nodes. -/
structure ForbidRule where
  kind : UInt8
  type : UInt8
  name : RuleName
  gid : Int
  actType : UInt8
  isForbid : UInt8
  enable : UInt16
  option : UInt16
  deriving DecidableEq

def ForbidRule.key (rule : ForbidRule) : Bytes × Int :=
  (rule.name.text, rule.gid)

abbrev ForbidStore := Store ForbidRule Nat Int

/-- What is no C behaviour: a field of a freed node is read, an array is left, or the
walk does not come to an end. -/
inductive RuleFault where
  | useAfterFree | outOfBounds | endless
  deriving DecidableEq, Repr

def readRule (store : ForbidStore) (id : Nat) : Except RuleFault ForbidRule :=
  match store.heap id with
  | some rule => .ok rule
  | none => .error .useAfterFree

/-- The rule answers for the name in the group. -/
def ForbidRule.answers (name : CString) (gid : Int) (rule : ForbidRule) : Bool :=
  rule.name.text = name.text ∧ (rule.gid = 0 ∨ rule.gid = gid)

def forbidActHashFind (store : ForbidStore) (name : CString) (gid : Int) : Option Nat :=
  store.findIn (forbidActHashValue name) (ForbidRule.answers name gid)

def forbidActHashDel (store : ForbidStore) (name : CString) (gid : Int) :
    Int × ForbidStore :=
  match store.findIn (forbidActHashValue name) fun rule =>
      decide (rule.gid = gid) && decide (rule.name.text = name.text) with
  | some id => (0, store.unlink id)
  | none => (-1, store)

/-- The walk keeps the next node before it frees one. -/
def forbidActHashDelAll (store : ForbidStore) : ForbidStore :=
  store.unlinkAll store.all

def forbidActHashDelGroup (store : ForbidStore) (gid : Int) : Except RuleFault ForbidStore :=
  if 0 ≤ gid ∧ gid < groupLists then .ok (store.unlinkAll (store.groups gid))
  else .error .outOfBounds

/-- One node of the walk in `forbid_act_hash_add`: the result that it returns with, if
any, and the store. -/
def addVisit (name : RuleName) (gid : Int) (flag : UInt8) (store : ForbidStore)
    (rule : ForbidRule) : Option Int × ForbidStore :=
  if rule.name.text = name.text then
    if gid ≠ 0 then
      if rule.gid = 0 ∨ rule.gid = gid then
        (if flag = 1 then some (-1) else if flag = 0 then some 0 else none, store)
      else (none, store)
    else if rule.gid = gid then (some (-1), store)
    else (none, (forbidActHashDel store rule.name.toCString rule.gid).2)
  else (none, store)

/-- `hlist_for_each` goes on to the `next` of the node that it has visited. -/
def addScan (name : RuleName) (gid : Int) (flag : UInt8) :
    Nat → Option Nat → ForbidStore → Except RuleFault (Option Int × ForbidStore)
  | 0, _, _ => .error .endless
  | _ + 1, none, store => .ok (none, store)
  | fuel + 1, some id, store => do
      let rule ← readRule store id
      match addVisit name gid flag store rule with
      | (some ret, store) => .ok (some ret, store)
      | (none, store) => do
          let _ ← readRule store id
          addScan name gid flag fuel
            (after (store.buckets (forbidActHashValue name.toCString)) id) store

theorem emptyName_noNul : (0 : Byte) ∉ ([] : Bytes) := not_mem_nil

theorem emptyName_fits : ([] : Bytes).length < 32 := Nat.zero_lt_succ 31

/-- The fields of a new node, which `wys_malloc` has zeroed. -/
def forbidRule (name : RuleName) (gid : Int) (actType isForbid : UInt8) : ForbidRule :=
  if actType = 0 ∨ actType = 3 then
    { kind := if actType = 0 then 1 else 2, type := isForbid + 1, name, gid, actType, isForbid,
      enable := 0, option := 0 }
  else if actType = 2 then
    { kind := 0, type := 0, name, gid, actType, isForbid, enable := 1,
      option := if isForbid ≠ 0 then 3 else 0 }
  else if actType = 1 then
    { kind := 2, type := isForbid + 1, name, gid, actType, isForbid, enable := 0, option := 0 }
  else
    { kind := 0, type := 0, name := ⟨⟨[], emptyName_noNul⟩, emptyName_fits⟩, gid := 0,
      actType := 0, isForbid := 0, enable := 0, option := 0 }

/-- `forbid_act_hash_add`; its `size` is not used. -/
def forbidActHashAdd (allocated : Bool) (store : ForbidStore) (name : RuleName) (gid : Int)
    (actType isForbid flag : UInt8) : Except RuleFault (Int × ForbidStore) := do
  let hash := forbidActHashValue name.toCString
  let (ret, store) ←
    addScan name gid flag ((store.buckets hash).length + 1) (store.buckets hash).head? store
  match ret with
  | some ret => .ok (ret, store)
  | none =>
    if allocated then
      if 0 ≤ gid ∧ gid < groupLists then
        .ok (0, store.link (forbidRule name gid actType isForbid) hash gid)
      else .error .outOfBounds
    else .ok (-1, store)

inductive ForbidOp where
  | add (name : RuleName) (gid : Int) (actType isForbid flag : UInt8)
  | del (name : CString) (gid : Int)
  | delGroup (gid : Int)
  | delAll

/-- The store after an operation, with allocations succeeding. -/
def ForbidOp.run (store : ForbidStore) : ForbidOp → Except RuleFault ForbidStore
  | .add name gid actType isForbid flag => do
      let (_, store) ← forbidActHashAdd true store name gid actType isForbid flag
      return store
  | .del name gid => .ok (forbidActHashDel store name gid).2
  | .delGroup gid => forbidActHashDelGroup store gid
  | .delAll => .ok (forbidActHashDelAll store)

def forbidRun : ForbidStore → List ForbidOp → Except RuleFault ForbidStore
  | store, [] => .ok store
  | store, op :: ops => do
      let store ← op.run store
      forbidRun store ops

/-- The rules as a list, in the order in which they were added. -/
def ForbidOp.apply (rules : List ForbidRule) : ForbidOp → List ForbidRule
  | .add name gid actType isForbid _ =>
    if rules.any (ForbidRule.answers name.toCString gid) then rules
    else rules ++ [forbidRule name gid actType isForbid]
  | .del name gid => rules.filter fun rule => rule.key ≠ (name.text, gid)
  | .delGroup gid => rules.filter fun rule => rule.gid ≠ gid
  | .delAll => []

/-- The calls that are made: a rule for all groups is only added where no group has one
for the name. -/
def ForbidOp.Allowed (rules : List ForbidRule) : ForbidOp → Prop
  | .add name gid actType _ flag =>
    (0 ≤ gid ∧ gid < groupLists) ∧ actType ≤ 3 ∧ flag ≤ 1 ∧
      (gid = 0 → ∀ rule ∈ rules, rule.name.text = name.text → rule.gid = 0)
  | .del _ _ => True
  | .delGroup gid => 0 ≤ gid ∧ gid < groupLists
  | .delAll => True

instance (rules : List ForbidRule) (op : ForbidOp) : Decidable (op.Allowed rules) := by
  cases op <;> unfold ForbidOp.Allowed <;> infer_instance

/-- Every call of the sequence is allowed in the store that it meets. -/
def AllowedRun : ForbidStore → List ForbidOp → Prop
  | _, [] => True
  | store, op :: ops =>
    op.Allowed store.stored ∧ ∀ next, op.run store = .ok next → AllowedRun next ops

/-- No two rules share name and group, and no name has rules for all groups and for
one. -/
structure Separate (rules : List ForbidRule) : Prop where
  distinct : (rules.map ForbidRule.key).Nodup
  exclusive : ∀ left ∈ rules, ∀ right ∈ rules, left.name.text = right.name.text →
    left.gid = 0 → right.gid = 0

def ForbidStore.Coherent (store : ForbidStore) : Prop :=
  ThreadedStore.Coherent (fun rule => forbidActHashValue rule.name.toCString)
    ForbidRule.gid store

section Lookup

variable {store : ForbidStore} {name : RuleName} {gid : Int} {flag : UInt8}

theorem ForbidRule.answers_iff {name : CString} {rule : ForbidRule} :
    rule.answers name gid = true ↔
      rule.name.text = name.text ∧ (rule.gid = 0 ∨ rule.gid = gid) :=
  decide_eq_true_iff

theorem hash_of_text {left right : CString} (htext : left.text = right.text) :
    forbidActHashValue left = forbidActHashValue right := by
  rw [forbidActHashValue, forbidActHashValue, htext]

theorem findIn_isSome_iff (hcoherent : store.Coherent) {name : CString}
    {test : ForbidRule → Bool}
    (hname : ∀ rule, test rule = true → rule.name.text = name.text) :
    (store.findIn (forbidActHashValue name) test).isSome ↔ ∃ rule ∈ store.stored, test rule := by
  rw [ThreadedStore.Coherent.findIn_isSome_iff hcoherent]
  constructor
  · rintro ⟨rule, hmem, _, htest⟩
    exact ⟨rule, hmem, htest⟩
  · rintro ⟨rule, hmem, htest⟩
    exact ⟨rule, hmem, hash_of_text (hname rule htest), htest⟩

/-- What `forbid_act_hash_add` returns if there is a rule already. -/
def addRefusal (gid : Int) (flag : UInt8) : Int :=
  if gid ≠ 0 ∧ flag = 0 then 0 else -1

theorem flag_cases (hflag : flag ≤ 1) : flag = 0 ∨ flag = 1 := by
  rw [UInt8.le_iff_toNat_le] at hflag
  rcases Nat.le_one_iff_eq_zero_or_eq_one.mp hflag with hzero | hone
  · exact Or.inl (UInt8.toNat_inj.mp hzero)
  · exact Or.inr (UInt8.toNat_inj.mp hone)

theorem addVisit_eq {rule : ForbidRule} (hflag : flag ≤ 1)
    (hkeeps : gid = 0 → rule.name.text = name.text → rule.gid = 0) :
    addVisit name gid flag store rule =
      (if rule.answers name.toCString gid then some (addRefusal gid flag) else none, store) := by
  rw [addVisit]
  by_cases hname : rule.name.text = name.text
  · by_cases hgid : gid = 0
    · have hrule := hkeeps hgid hname
      simp [hname, hgid, hrule, ForbidRule.answers, addRefusal]
    · by_cases hsame : rule.gid = 0 ∨ rule.gid = gid
      · grind [ForbidRule.answers, addRefusal]
      · simp [hname, hgid, hsame, ForbidRule.answers]
  · simp [hname, ForbidRule.answers]

theorem readRule_of_some {id : Nat} {rule : ForbidRule} (hid : store.heap id = some rule) :
    readRule store id = .ok rule := by
  rw [readRule, hid]

theorem rule_of_chain (hcoherent : store.Coherent) {front rest : List Nat} {id : Nat}
    (hchain : store.buckets (forbidActHashValue name.toCString) = front ++ id :: rest) :
    ∃ rule, store.heap id = some rule ∧ rule ∈ store.stored := by
  have hmem : id ∈ store.buckets (forbidActHashValue name.toCString) := by
    rw [hchain]
    exact mem_append_right _ mem_cons_self
  obtain ⟨rule, hrule, _⟩ := (hcoherent.mem_bucket _ id).mp hmem
  exact ⟨rule, hrule, (ThreadedStore.Coherent.mem_stored hcoherent).mpr ⟨id, hrule⟩⟩

theorem addScan_next (hcoherent : store.Coherent) {front rest : List Nat} {id : Nat}
    {rule : ForbidRule}
    (hchain : store.buckets (forbidActHashValue name.toCString) = front ++ id :: rest)
    (hrule : store.heap id = some rule)
    (hvisit : addVisit name gid flag store rule = (none, store)) (fuel : Nat) :
    addScan name gid flag (fuel + 1) (some id) store =
      addScan name gid flag fuel rest.head? store := by
  have hnext : after (store.buckets (forbidActHashValue name.toCString)) id = rest.head? := by
    have hnodup := hcoherent.bucketNodup (forbidActHashValue name.toCString)
    rw [hchain] at hnodup ⊢
    exact after_append hnodup
  rw [addScan, readRule_of_some hrule]
  change (match addVisit name gid flag store rule with
    | (some ret, store) => Except.ok (some ret, store)
    | (none, store) => _) = _
  rw [hvisit]
  change (readRule store id >>= fun _ => _) = _
  rw [readRule_of_some hrule, hnext]
  rfl

theorem addScan_chain (hcoherent : store.Coherent) (hflag : flag ≤ 1)
    (hkeeps : gid = 0 → ∀ rule ∈ store.stored, rule.name.text = name.text → rule.gid = 0)
    {front rest : List Nat}
    (hchain : store.buckets (forbidActHashValue name.toCString) = front ++ rest) {fuel : Nat}
    (hfuel : rest.length < fuel) :
    addScan name gid flag fuel rest.head? store =
      .ok (if (rest.find? fun id =>
          (store.heap id).any (ForbidRule.answers name.toCString gid)).isSome
        then some (addRefusal gid flag) else none, store) := by
  induction rest generalizing front fuel with
  | nil =>
    obtain ⟨fuel, rfl⟩ := Nat.exists_eq_succ_of_ne_zero (Nat.ne_of_gt hfuel)
    rfl
  | cons id rest ih =>
    obtain ⟨fuel, rfl⟩ := Nat.exists_eq_succ_of_ne_zero (Nat.ne_zero_of_lt hfuel)
    obtain ⟨rule, hrule, hstored⟩ := rule_of_chain hcoherent hchain
    have hvisit := @addVisit_eq store name gid flag rule hflag fun hgid =>
      hkeeps hgid rule hstored
    have hrest : store.buckets (forbidActHashValue name.toCString) =
        (front ++ [id]) ++ rest := by
      rw [hchain, append_assoc, singleton_append]
    have hlater := ih hrest (Nat.lt_of_succ_lt_succ hfuel)
    rw [List.head?_cons, List.find?_cons, hrule, Option.any_some]
    cases hanswers : rule.answers name.toCString gid with
    | true =>
      rw [hanswers] at hvisit
      rw [addScan, readRule_of_some hrule]
      change (match addVisit name gid flag store rule with
        | (some ret, store) => Except.ok (some ret, store)
        | (none, store) => _) = _
      rw [hvisit]
      rfl
    | false =>
      rw [hanswers] at hvisit
      rw [addScan_next hcoherent hchain hrule hvisit]
      exact hlater

theorem forbidActHashFind_isSome_iff (hcoherent : store.Coherent) (name : CString) :
    (forbidActHashFind store name gid).isSome ↔
      ∃ rule ∈ store.stored, rule.name.text = name.text ∧ (rule.gid = gid ∨ rule.gid = 0) := by
  rw [forbidActHashFind,
    findIn_isSome_iff hcoherent fun rule hrule => (ForbidRule.answers_iff.mp hrule).1]
  simp only [ForbidRule.answers_iff, or_comm]

theorem forbidActHashAdd_eq (hcoherent : store.Coherent) (hflag : flag ≤ 1)
    (hgid : 0 ≤ gid ∧ gid < groupLists)
    (hkeeps : gid = 0 → ∀ rule ∈ store.stored, rule.name.text = name.text → rule.gid = 0)
    (actType isForbid : UInt8) :
    forbidActHashAdd true store name gid actType isForbid flag =
      .ok (if store.stored.any (ForbidRule.answers name.toCString gid)
        then (addRefusal gid flag, store)
        else (0, store.link (forbidRule name gid actType isForbid)
          (forbidActHashValue name.toCString) gid)) := by
  have hscan := @addScan_chain store name gid flag hcoherent hflag hkeeps []
    (store.buckets (forbidActHashValue name.toCString)) rfl _ (Nat.lt_succ_self _)
  have hfound : (store.findIn (forbidActHashValue name.toCString)
      (ForbidRule.answers name.toCString gid)).isSome =
        store.stored.any (ForbidRule.answers name.toCString gid) := by
    rw [Bool.eq_iff_iff, any_eq_true,
      findIn_isSome_iff hcoherent fun rule hrule => (ForbidRule.answers_iff.mp hrule).1]
  rw [← Store.findIn, hfound] at hscan
  rw [forbidActHashAdd, hscan]
  cases store.stored.any (ForbidRule.answers name.toCString gid) with
  | true => rfl
  | false =>
    change (if 0 ≤ gid ∧ gid < groupLists then
      Except.ok (0, store.link (forbidRule name gid actType isForbid) _ gid)
      else Except.error RuleFault.outOfBounds) = _
    rw [if_pos hgid]
    rfl

/-- `forbid_act_hash_del` takes the rule with the name and the group out, and says
whether there was one. -/
theorem forbidActHashDel_spec (hcoherent : store.Coherent)
    (hdistinct : (store.stored.map ForbidRule.key).Nodup) (name : CString) (gid : Int) :
    ((forbidActHashDel store name gid).1 = 0 ↔
        ∃ rule ∈ store.stored, rule.key = (name.text, gid)) ∧
      (forbidActHashDel store name gid).2.Coherent ∧
      (forbidActHashDel store name gid).2.stored =
        store.stored.filter fun rule => rule.key ≠ (name.text, gid) := by
  have htest : ∀ rule : ForbidRule, (decide (rule.gid = gid) &&
      decide (rule.name.text = name.text)) = true ↔ rule.key = (name.text, gid) := by
    intro rule
    rw [Bool.and_eq_true, decide_eq_true_eq, decide_eq_true_eq, ForbidRule.key, Prod.mk.injEq,
      and_comm]
  have hbucket : ∀ rule : ForbidRule, rule.key = (name.text, gid) →
      forbidActHashValue rule.name.toCString = forbidActHashValue name := by
    intro rule hkey
    exact hash_of_text (congrArg Prod.fst hkey)
  rcases ThreadedStore.Coherent.findIn_key hcoherent hdistinct htest hbucket with
    ⟨id, hfind, hrule, hstored⟩ | ⟨hfind, hnone, hstored⟩
  · rw [forbidActHashDel, hfind]
    exact ⟨iff_of_true rfl hrule, ThreadedStore.Coherent.unlink hcoherent id, hstored⟩
  · rw [forbidActHashDel, hfind]
    exact ⟨iff_of_false (by simp) hnone, hcoherent, hstored⟩

end Lookup

section Runs

theorem forbidRule_key {actType : UInt8} (hact : actType ≤ 3) (name : RuleName) (gid : Int)
    (isForbid : UInt8) :
    (forbidRule name gid actType isForbid).name = name ∧
      (forbidRule name gid actType isForbid).gid = gid := by
  have hcases : actType = 0 ∨ actType = 3 ∨ actType = 2 ∨ actType = 1 := by
    rw [UInt8.le_iff_toNat_le] at hact
    simp only [← UInt8.toNat_inj]
    grind
  rcases hcases with rfl | rfl | rfl | rfl <;> exact ⟨rfl, rfl⟩

theorem ForbidOp.run_refines {store : ForbidStore} (hcoherent : store.Coherent)
    (hdistinct : (store.stored.map ForbidRule.key).Nodup) {op : ForbidOp}
    (hallowed : op.Allowed store.stored) :
    ∃ next : ForbidStore, op.run store = .ok next ∧ next.Coherent ∧
      next.stored = op.apply store.stored := by
  cases op with
  | add name gid actType isForbid flag =>
    obtain ⟨hgid, hact, hflag, hkeeps⟩ := hallowed
    obtain ⟨hname, hgroup⟩ := forbidRule_key hact name gid isForbid
    rw [ForbidOp.run, forbidActHashAdd_eq hcoherent hflag hgid hkeeps, ForbidOp.apply]
    cases store.stored.any (ForbidRule.answers name.toCString gid) with
    | true => exact ⟨store, rfl, hcoherent, rfl⟩
    | false =>
      refine ⟨_, rfl, ?_, ThreadedStore.Coherent.stored_link hcoherent _ _ _⟩
      have hlink := ThreadedStore.Coherent.link hcoherent
        (forbidRule name gid actType isForbid)
      rwa [hname, hgroup] at hlink
  | del name gid =>
    obtain ⟨_, hnext, hstored⟩ := forbidActHashDel_spec hcoherent hdistinct name gid
    exact ⟨_, rfl, hnext, hstored⟩
  | delGroup gid =>
    exact ⟨_, if_pos hallowed, ThreadedStore.Coherent.unlinkAll hcoherent _,
      ThreadedStore.Coherent.stored_unlinkGroup hcoherent gid⟩
  | delAll =>
    exact ⟨_, rfl, ThreadedStore.Coherent.unlinkAll hcoherent _,
      ThreadedStore.Coherent.stored_unlinkAll_all hcoherent⟩

theorem Separate.filter {rules : List ForbidRule} (hseparate : Separate rules)
    (keep : ForbidRule → Bool) : Separate (rules.filter keep) where
  distinct := hseparate.distinct.sublist (filter_sublist.map _)
  exclusive left hleft right hright :=
    hseparate.exclusive left (mem_of_mem_filter hleft) right (mem_of_mem_filter hright)

/-- A rule that no stored rule answers for is added, with none of its group on the list
if it is for all groups. -/
theorem Separate.concat {rules : List ForbidRule} (hseparate : Separate rules)
    {rule : ForbidRule}
    (hnew : ∀ other ∈ rules, ¬(other.name.text = rule.name.text ∧
      (other.gid = 0 ∨ other.gid = rule.gid)))
    (hkeeps : rule.gid = 0 → ∀ other ∈ rules, other.name.text = rule.name.text → other.gid = 0) :
    Separate (rules ++ [rule]) where
  distinct := by
    rw [map_append, map_singleton, ← concat_eq_append, nodup_concat]
    grind [distinct, ForbidRule.key.eq_1]
  exclusive := by
    intro left hleft right hright htext hzero
    rw [mem_append, mem_singleton] at hleft hright
    rcases hleft with hleft | rfl <;> rcases hright with hright | rfl
    · exact hseparate.exclusive left hleft right hright htext hzero
    · exact absurd ⟨htext, Or.inl hzero⟩ (hnew left hleft)
    · exact hkeeps hzero right hright htext.symm
    · exact hzero

theorem Separate.apply {rules : List ForbidRule} (hseparate : Separate rules) {op : ForbidOp}
    (hallowed : op.Allowed rules) : Separate (op.apply rules) := by
  cases op with
  | add name gid actType isForbid flag =>
    obtain ⟨_, hact, _, hkeeps⟩ := hallowed
    obtain ⟨hname, hgroup⟩ := forbidRule_key hact name gid isForbid
    rw [ForbidOp.apply]
    by_cases hany : rules.any (ForbidRule.answers name.toCString gid)
    · rwa [if_pos hany]
    · rw [if_neg hany]
      apply hseparate.concat
      · rw [hname, hgroup]
        grind [ForbidRule.answers_iff]
      · rwa [hname, hgroup]
  | del name gid => exact hseparate.filter _
  | delGroup gid => exact hseparate.filter _
  | delAll => exact ⟨nodup_nil, by simp [ForbidOp.apply]⟩

theorem forbidRun_spec {ops : List ForbidOp} {store : ForbidStore} (hcoherent : store.Coherent)
    (hseparate : Separate store.stored) (hallowed : AllowedRun store ops) :
    ∃ final : ForbidStore, forbidRun store ops = .ok final ∧ final.Coherent ∧
      Separate final.stored ∧ final.stored = ops.foldl ForbidOp.apply store.stored := by
  induction ops generalizing store with
  | nil => exact ⟨store, rfl, hcoherent, hseparate, rfl⟩
  | cons op ops ih =>
    obtain ⟨hop, hrest⟩ := hallowed
    obtain ⟨next, hrun, hnext, hstored⟩ := op.run_refines hcoherent hseparate.distinct hop
    have hapart : Separate next.stored := by
      rw [hstored]
      exact hseparate.apply hop
    obtain ⟨final, hfinal, hlast, hlists, hrules⟩ := ih hnext hapart (hrest next hrun)
    refine ⟨final, ?_, hlast, hlists, ?_⟩
    · rw [forbidRun, hrun]
      exact hfinal
    · rw [hrules, hstored, foldl_cons]

/-- The store refines a map: after every allowed run the lists hold the same rules, each
once and in its places, names are not shared, and a search finds what is stored. -/
theorem forbidRun_refines (ops : List ForbidOp) (hallowed : AllowedRun .empty ops) :
    ∃ final : ForbidStore, forbidRun .empty ops = .ok final ∧ final.Coherent ∧
      Separate final.stored ∧
      (∀ (name : CString) (gid : Int), (forbidActHashFind final name gid).isSome ↔
        ∃ rule ∈ final.stored, rule.key = (name.text, gid) ∨ rule.key = (name.text, 0)) ∧
      final.stored = ops.foldl ForbidOp.apply [] := by
  have hseparate : Separate (Store.stored (Store.empty : ForbidStore)) :=
    ⟨nodup_nil, by simp [Store.stored, Store.empty]⟩
  obtain ⟨final, hrun, hcoherent, hfinal, hstored⟩ :=
    forbidRun_spec coherent_empty hseparate hallowed
  refine ⟨final, hrun, hcoherent, hfinal, ?_, hstored⟩
  simp_all [forbidActHashFind_isSome_iff, ForbidRule.key, and_or_left]

end Runs

section ForAllGroups

variable {store : ForbidStore} {name : RuleName} {flag : UInt8}

/-- The visit of a group's rule for the name frees the node that is visited, if no node
before it has the name. -/
theorem heap_addVisit {front rest : List Nat} {id : Nat} {rule : ForbidRule}
    (hchain : store.buckets (forbidActHashValue name.toCString) = front ++ id :: rest)
    (hfront : ∀ other ∈ front,
      (store.heap other).any (fun rule => decide (rule.name.text = name.text)) = false)
    (hid : store.heap id = some rule) (hname : rule.name.text = name.text)
    (hgid : rule.gid ≠ 0) :
    ∃ next : ForbidStore, addVisit name 0 flag store rule = (none, next) ∧
      next.heap id = none := by
  have hfind : store.findIn (forbidActHashValue rule.name.toCString) (fun other =>
      decide (other.gid = rule.gid) && decide (other.name.text = rule.name.text)) = some id := by
    rw [hash_of_text hname, hname]
    apply findIn_append hchain
    · intro other hother
      have hbefore := hfront other hother
      cases hheap : store.heap other with
      | none => rfl
      | some another =>
        rw [hheap, Option.any_some] at hbefore
        rw [Option.any_some, hbefore, Bool.and_false]
    · simp [hid, hname]
  refine ⟨store.unlink id, ?_, Function.update_self _ _ _⟩
  rw [addVisit, if_pos hname, if_neg (by simp), if_neg hgid, forbidActHashDel, hfind]

theorem addScan_stale (hcoherent : store.Coherent)
    (hnone : ∀ rule ∈ store.stored, rule.name.text = name.text → rule.gid ≠ 0)
    {front rest : List Nat}
    (hchain : store.buckets (forbidActHashValue name.toCString) = front ++ rest)
    (hfront : ∀ id ∈ front,
      (store.heap id).any (fun rule => decide (rule.name.text = name.text)) = false)
    (hgroup : ∃ id ∈ rest,
      (store.heap id).any (fun rule => decide (rule.name.text = name.text)) = true)
    {fuel : Nat} (hfuel : rest.length < fuel) :
    addScan name 0 flag fuel rest.head? store = .error .useAfterFree := by
  induction rest generalizing front fuel with
  | nil =>
    obtain ⟨id, hid, _⟩ := hgroup
    exact absurd hid not_mem_nil
  | cons id rest ih =>
    obtain ⟨fuel, rfl⟩ := Nat.exists_eq_succ_of_ne_zero (Nat.ne_zero_of_lt hfuel)
    obtain ⟨rule, hrule, hstored⟩ := rule_of_chain hcoherent hchain
    rw [List.head?_cons]
    by_cases hname : rule.name.text = name.text
    · obtain ⟨next, hvisit, hfreed⟩ := @heap_addVisit store name flag front rest id rule
        hchain hfront hrule hname (hnone rule hstored hname)
      rw [addScan, readRule_of_some hrule]
      change (match addVisit name 0 flag store rule with
        | (some ret, store) => Except.ok (some ret, store)
        | (none, store) => _) = _
      rw [hvisit]
      change (readRule next id >>= fun _ => _) = _
      rw [readRule, hfreed]
      rfl
    · have hother : (store.heap id).any
          (fun rule => decide (rule.name.text = name.text)) = false := by
        rw [hrule, Option.any_some, decide_eq_false hname]
      have hvisit : addVisit name 0 flag store rule = (none, store) := by
        rw [addVisit, if_neg hname]
      have hrest : store.buckets (forbidActHashValue name.toCString) =
          (front ++ [id]) ++ rest := by
        rw [hchain, append_assoc, singleton_append]
      rw [addScan_next hcoherent hchain hrule hvisit]
      apply ih hrest
      · grind
      · grind
      · exact Nat.lt_of_succ_lt_succ hfuel

/-- The new rule is the only one for its name, it is for all groups, and the rules for
other names stay. -/
def Supersedes (store : ForbidStore) (rule : ForbidRule)
    (result : Except RuleFault (Int × ForbidStore)) : Prop :=
  ∃ final : ForbidStore, result = .ok (0, final) ∧ final.Coherent ∧
    (final.stored.filter fun other => other.name.text = rule.name.text) = [rule] ∧
    rule.gid = 0 ∧
    (final.stored.filter fun other => other.name.text ≠ rule.name.text) =
      store.stored.filter fun other => other.name.text ≠ rule.name.text

theorem forbidActHashAdd_fresh (hcoherent : store.Coherent)
    (hnew : ∀ rule ∈ store.stored, rule.name.text ≠ name.text) {actType : UInt8}
    (hact : actType ≤ 3) (isForbid : UInt8) :
    Supersedes store (forbidRule name 0 actType isForbid)
      (forbidActHashAdd true store name 0 actType isForbid 1) := by
  obtain ⟨hname, hgid⟩ := forbidRule_key hact name 0 isForbid
  have hadd := @forbidActHashAdd_eq store name 0 1 hcoherent (by decide) (by decide)
    (fun _ rule hrule htext => absurd htext (hnew rule hrule)) actType isForbid
  have hnone : store.stored.any (ForbidRule.answers name.toCString 0) = false := by
    rw [any_eq_false]
    grind [ForbidRule.answers_iff]
  rw [hnone] at hadd
  have hlink := ThreadedStore.Coherent.link hcoherent (forbidRule name 0 actType isForbid)
  rw [hname, hgid] at hlink
  refine ⟨_, hadd, hlink, ?_, hgid, ?_⟩
  · rw [ThreadedStore.Coherent.stored_link hcoherent, hname, filter_append,
      filter_eq_nil_iff.mpr fun rule hrule => by simpa using hnew rule hrule]
    simp [hname]
  · rw [ThreadedStore.Coherent.stored_link hcoherent, filter_append]
    simp

theorem forbidActHashAdd_stale (hcoherent : store.Coherent)
    (hnone : ∀ rule ∈ store.stored, rule.name.text = name.text → rule.gid ≠ 0)
    (hgroup : ∃ rule ∈ store.stored, rule.name.text = name.text) (actType isForbid : UInt8) :
    forbidActHashAdd true store name 0 actType isForbid flag = .error .useAfterFree := by
  obtain ⟨rule, hrule, hname⟩ := hgroup
  obtain ⟨id, hid⟩ := (ThreadedStore.Coherent.mem_stored hcoherent).mp hrule
  have hmem : id ∈ store.buckets (forbidActHashValue name.toCString) :=
    (hcoherent.mem_bucket _ id).mpr ⟨rule, hid, hash_of_text hname⟩
  have hscan := @addScan_stale store name flag hcoherent hnone []
    (store.buckets (forbidActHashValue name.toCString)) rfl
    (fun id hid => absurd hid not_mem_nil)
    ⟨id, hmem, by rw [hid, Option.any_some, decide_eq_true hname]⟩ _ (Nat.lt_succ_self _)
  rw [forbidActHashAdd, hscan]
  rfl

/-- A rule for all groups takes the place of the rules for its name exactly if there are
none; otherwise the walk reads a node that it has freed. -/
theorem forbidActHashAdd_supersedes_iff (store : ForbidStore) (hcoherent : store.Coherent)
    (name : RuleName)
    (hnone : ∀ rule ∈ store.stored, rule.name.text = name.text → rule.gid ≠ 0)
    (actType isForbid : UInt8) (hact : actType ≤ 3) :
    Supersedes store (forbidRule name 0 actType isForbid)
        (forbidActHashAdd true store name 0 actType isForbid 1) ↔
      ∀ rule ∈ store.stored, rule.name.text ≠ name.text := by
  constructor
  · rintro ⟨final, hadd, _⟩ rule hrule hname
    rw [forbidActHashAdd_stale hcoherent hnone ⟨rule, hrule, hname⟩] at hadd
    cases hadd
  · intro hnew
    exact forbidActHashAdd_fresh hcoherent hnew hact isForbid

end ForAllGroups

namespace ForbidRulesWitness

def game : RuleName := ⟨⟨[103, 97, 109, 101], by decide⟩, by decide⟩

def chat : RuleName := ⟨⟨[113, 113], by decide⟩, by decide⟩

/-- A rule of group 3 for one name. -/
def store : ForbidStore :=
  Store.empty.link (forbidRule game 3 2 1) (forbidActHashValue game.toCString) 3

theorem store_coherent : store.Coherent :=
  ThreadedStore.Coherent.link
    (coherent_empty : ForbidStore.Coherent Store.empty) (forbidRule game 3 2 1)

theorem store_stored : Store.stored store = [forbidRule game 3 2 1] := rfl

theorem supersedes_chat : Supersedes store (forbidRule chat 0 1 1)
    (forbidActHashAdd true store chat 0 1 1 1) := by
  have hnew : ∀ rule ∈ Store.stored store, rule.name.text ≠ chat.text := by
    rw [store_stored]
    decide
  exact (forbidActHashAdd_supersedes_iff store store_coherent chat
    (fun rule hrule hname => absurd hname (hnew rule hrule)) 1 1 (by decide)).mpr hnew

/-- The rule of group 3 is freed and then read. -/
theorem not_supersedes_game : store.Coherent ∧
    (∀ rule ∈ Store.stored store, rule.name.text = game.text → rule.gid ≠ 0) ∧
    forbidActHashAdd true store game 0 2 1 1 = .error .useAfterFree ∧
    ¬Supersedes store (forbidRule game 0 2 1) (forbidActHashAdd true store game 0 2 1 1) := by
  have hadd : forbidActHashAdd true store game 0 2 1 1 = .error .useAfterFree := rfl
  refine ⟨store_coherent, ?_, hadd, ?_⟩
  · rw [store_stored]
    decide
  · rintro ⟨final, hfinal, _⟩
    rw [hadd] at hfinal
    cases hfinal

/-- Two groups get a rule for one name, one of them loses it, and another name gets one
for all groups. -/
def ops : List ForbidOp :=
  [.add game 3 2 1 1, .add game 5 2 0 0, .del game.toCString 3, .add chat 0 1 1 1]

theorem forbidRun_ops : ∃ final : ForbidStore, forbidRun .empty ops = .ok final ∧
    final.Coherent ∧ Separate final.stored ∧
    (∀ (name : CString) (gid : Int), (forbidActHashFind final name gid).isSome ↔
      ∃ rule ∈ final.stored, rule.key = (name.text, gid) ∨ rule.key = (name.text, 0)) ∧
    final.stored = [forbidRule game 5 2 0, forbidRule chat 0 1 1] := by
  have hallowed : AllowedRun .empty ops := by
    refine ⟨by decide, ?_⟩
    rintro _ ⟨⟩
    refine ⟨by decide, ?_⟩
    rintro _ ⟨⟩
    refine ⟨trivial, ?_⟩
    rintro _ ⟨⟩
    refine ⟨by decide, ?_⟩
    rintro _ ⟨⟩
    trivial
  exact forbidRun_refines ops hallowed

end ForbidRulesWitness

end WaterWall
