/-
The store of the rules for encrypted files of hash.c.  Every rule is threaded through
the chain of its name's hash, through `encrypt_all_list` and through the list of its
group.  Unlike a forbid rule, a rule for all groups leaves those of single groups alone.
-/
import WaterWall.ForbidRules
import WaterWall.SsdbStore

namespace WaterWall

open ByteText ThreadedStore List Option

def encryptFileHashValue (name : CString) : Nat :=
  (hashWalk 0 name.text &&& 0xff).toNat

/-- A `ww_encryptfile_t` without its list nodes; the name ends inside its array. -/
structure EncryptRule where
  name : CString
  fits : name.text.length < 256
  gid : Int
  filetype : UInt8
  authority : UInt32
  enable : UInt16

def EncryptRule.key (rule : EncryptRule) : Bytes × Int :=
  (rule.name.text, rule.gid)

abbrev EncryptStore := Store EncryptRule Nat Int

/-- The rule stands in the way of a new one. -/
def EncryptRule.blocks (name : CString) (gid : Int) (rule : EncryptRule) : Bool :=
  name.text = rule.name.text ∧ (rule.gid = 0 ∨ rule.gid = gid)

/-- What the walk of `encrypt_file_hash_add` returns with at such a rule. -/
def encryptRefusal (flag : UInt8) : Option Int :=
  if flag = 1 then some (-1) else if flag = 0 then some 0 else none

/-- The text that `snprintf` leaves in the name. -/
def nameCut (name : CString) (size : Nat) : CString where
  text := (snprintf size name.text).1
  noNul hmem := name.noNul (mem_of_mem_take hmem)

/-- `encrypt_file_hash_add`; its `enable` is not used. -/
def encryptFileHashAdd (allocated : Bool) (store : EncryptStore) (name : CString)
    (nameLen : Nat) (gid : Int) (filetype : UInt8) (authority : UInt32) (flag : UInt8) :
    Except RuleFault (Int × EncryptStore) :=
  let hash := encryptFileHashValue name
  match (store.findIn hash (EncryptRule.blocks name gid)).bind fun _ => encryptRefusal flag with
  | some ret => .ok (ret, store)
  | none =>
    if allocated then
      if hfits : (nameCut name nameLen).text.length < 256 then
        if 0 ≤ gid ∧ gid < groupLists then
          .ok (0, store.link ⟨nameCut name nameLen, hfits, gid, filetype, authority, 1⟩ hash gid)
        else .error .outOfBounds
      else .error .outOfBounds
    else .ok (-1, store)

def encryptFileHashDel (store : EncryptStore) (name : CString) (gid : Int) :
    Int × EncryptStore :=
  match store.findIn (encryptFileHashValue name) fun rule =>
      decide (rule.name.text = name.text) && decide (rule.gid = gid) with
  | some id => (0, store.unlink id)
  | none => (-1, store)

/-- The walk keeps the next node before it frees one. -/
def encryptFileHashDelAll (store : EncryptStore) : EncryptStore :=
  store.unlinkAll store.all

def encryptFileHashDelGroup (store : EncryptStore) (gid : Int) :
    Except RuleFault EncryptStore :=
  if 0 ≤ gid ∧ gid < groupLists then .ok (store.unlinkAll (store.groups gid))
  else .error .outOfBounds

inductive EncryptOp where
  | add (name : CString) (nameLen : Nat) (gid : Int) (filetype : UInt8) (authority : UInt32)
      (flag : UInt8)
  | del (name : CString) (gid : Int)
  | delGroup (gid : Int)
  | delAll

/-- The store after an operation, with allocations succeeding. -/
def EncryptOp.run (store : EncryptStore) : EncryptOp → Except RuleFault EncryptStore
  | .add name nameLen gid filetype authority flag => do
      let (_, store) ← encryptFileHashAdd true store name nameLen gid filetype authority flag
      return store
  | .del name gid => .ok (encryptFileHashDel store name gid).2
  | .delGroup gid => encryptFileHashDelGroup store gid
  | .delAll => .ok (encryptFileHashDelAll store)

def encryptRun : EncryptStore → List EncryptOp → Except RuleFault EncryptStore
  | store, [] => .ok store
  | store, op :: ops => do
      let store ← op.run store
      encryptRun store ops

/-- The length is that of the name with its NUL, which fits into the array. -/
def EncryptOp.Allowed : EncryptOp → Prop
  | .add name nameLen gid _ _ flag =>
    (0 ≤ gid ∧ gid < groupLists) ∧ nameLen = name.text.length + 1 ∧ nameLen ≤ 256 ∧ flag ≤ 1
  | .del _ _ => True
  | .delGroup gid => 0 ≤ gid ∧ gid < groupLists
  | .delAll => True

instance (op : EncryptOp) : Decidable op.Allowed := by
  cases op <;> unfold EncryptOp.Allowed <;> infer_instance

/-- The lists hold the same rules, each once and in its places, and no two share name and
group. -/
structure EncryptStore.Sound (store : EncryptStore) : Prop where
  coherent : ThreadedStore.Coherent (fun rule => encryptFileHashValue rule.name)
    EncryptRule.gid store
  distinct : (store.stored.map EncryptRule.key).Nodup

theorem encryptHash_of_text {left right : CString} (htext : left.text = right.text) :
    encryptFileHashValue left = encryptFileHashValue right := by
  rw [encryptFileHashValue, encryptFileHashValue, htext]

theorem nameCut_eq (name : CString) : nameCut name (name.text.length + 1) = name := by
  simp [nameCut.eq_1, snprintf_fits]

section Steps

variable {store : EncryptStore}

theorem EncryptStore.Sound.empty : EncryptStore.Sound Store.empty :=
  ⟨coherent_empty, nodup_nil⟩

theorem EncryptStore.Sound.link (hsound : store.Sound) (rule : EncryptRule)
    (hfind : store.findIn (encryptFileHashValue rule.name)
      (EncryptRule.blocks rule.name rule.gid) = none) :
    EncryptStore.Sound (store.link rule (encryptFileHashValue rule.name) rule.gid) where
  coherent := hsound.coherent.link rule
  distinct := by
    rw [hsound.coherent.stored_link, map_append, map_singleton,
      ← concat_eq_append, nodup_concat]
    refine ⟨?_, hsound.distinct⟩
    intro hmem
    obtain ⟨other, hother, hkey⟩ := mem_map.mp hmem
    rw [EncryptRule.key, EncryptRule.key, Prod.mk.injEq] at hkey
    have hblocked := hsound.coherent.findIn_isSome_iff.mpr
      ⟨other, hother, encryptHash_of_text hkey.1,
        show EncryptRule.blocks rule.name rule.gid other = true from
          decide_eq_true ⟨hkey.1.symm, Or.inr hkey.2⟩⟩
    rw [hfind] at hblocked
    exact Bool.false_ne_true hblocked

theorem encryptFileHashAdd_sound (hsound : store.Sound) {name : CString} {gid : Int}
    {flag : UInt8} (hgid : 0 ≤ gid ∧ gid < groupLists) (hname : name.text.length + 1 ≤ 256)
    (hflag : flag ≤ 1) (filetype : UInt8) (authority : UInt32) :
    ∃ (ret : Int) (next : EncryptStore), encryptFileHashAdd true store name
      (name.text.length + 1) gid filetype authority flag = .ok (ret, next) ∧ next.Sound := by
  rw [encryptFileHashAdd]
  simp only [nameCut_eq]
  cases hfind : store.findIn (encryptFileHashValue name) (EncryptRule.blocks name gid) with
  | none =>
    refine ⟨0, store.link ⟨name, hname, gid, filetype, authority, 1⟩
      (encryptFileHashValue name) gid, ?_, hsound.link ⟨name, hname, gid, filetype, authority, 1⟩
        hfind⟩
    change (if True then _ else _) = _
    rw [if_pos trivial, dif_pos (Nat.lt_of_succ_le hname), if_pos hgid]
  | some id =>
    have hrefusal : ∃ ret, encryptRefusal flag = some ret := by
      rcases flag_cases hflag with rfl | rfl
      · exact ⟨0, rfl⟩
      · exact ⟨-1, rfl⟩
    obtain ⟨ret, hret⟩ := hrefusal
    refine ⟨ret, store, ?_, hsound⟩
    rw [bind_some, hret]

theorem EncryptStore.Sound.filter (hsound : store.Sound) {ids : List Nat}
    {keep : EncryptRule → Bool} (hstored : (store.unlinkAll ids).stored = store.stored.filter keep) :
    EncryptStore.Sound (store.unlinkAll ids) where
  coherent := hsound.coherent.unlinkAll ids
  distinct := by
    rw [hstored]
    exact hsound.distinct.sublist (filter_sublist.map _)

/-- `encrypt_file_hash_del` takes the rule with the name and the group out, and says
whether there was one. -/
theorem encryptFileHashDel_spec (hsound : store.Sound) (name : CString) (gid : Int) :
    ((encryptFileHashDel store name gid).1 = 0 ↔
        ∃ rule ∈ store.stored, rule.key = (name.text, gid)) ∧
      (encryptFileHashDel store name gid).2.Sound ∧
      (encryptFileHashDel store name gid).2.stored =
        store.stored.filter fun rule => rule.key ≠ (name.text, gid) := by
  have htest : ∀ rule : EncryptRule, (decide (rule.name.text = name.text) &&
      decide (rule.gid = gid)) = true ↔ rule.key = (name.text, gid) := by
    intro rule
    rw [Bool.and_eq_true, decide_eq_true_eq, decide_eq_true_eq, EncryptRule.key, Prod.mk.injEq]
  have hbucket : ∀ rule : EncryptRule, rule.key = (name.text, gid) →
      encryptFileHashValue rule.name = encryptFileHashValue name := by
    intro rule hkey
    exact encryptHash_of_text (congrArg Prod.fst hkey)
  rcases hsound.coherent.findIn_key hsound.distinct htest hbucket with
    ⟨id, hfind, hrule, hstored⟩ | ⟨hfind, hnone, hstored⟩
  · rw [encryptFileHashDel, hfind]
    exact ⟨iff_of_true rfl hrule, @EncryptStore.Sound.filter store hsound [id] _ hstored, hstored⟩
  · rw [encryptFileHashDel, hfind]
    exact ⟨iff_of_false (by simp) hnone, hsound, hstored⟩

theorem EncryptOp.run_sound (hsound : store.Sound) {op : EncryptOp} (hallowed : op.Allowed) :
    ∃ next : EncryptStore, op.run store = .ok next ∧ next.Sound := by
  cases op with
  | add name nameLen gid filetype authority flag =>
    obtain ⟨hgid, rfl, hname, hflag⟩ := hallowed
    obtain ⟨ret, next, hadd, hnext⟩ :=
      encryptFileHashAdd_sound hsound hgid hname hflag filetype authority
    refine ⟨next, ?_, hnext⟩
    rw [EncryptOp.run, hadd]
    rfl
  | del name gid => exact ⟨_, rfl, (encryptFileHashDel_spec hsound name gid).2.1⟩
  | delGroup gid =>
    exact ⟨_, if_pos hallowed, hsound.filter (hsound.coherent.stored_unlinkGroup gid)⟩
  | delAll =>
    refine ⟨_, rfl, @EncryptStore.Sound.filter store hsound store.all (fun _ => false) ?_⟩
    rw [hsound.coherent.stored_unlinkAll_all, filter_false]

theorem encryptRun_sound {ops : List EncryptOp} (hsound : store.Sound)
    (hallowed : ∀ op ∈ ops, op.Allowed) :
    ∃ final : EncryptStore, encryptRun store ops = .ok final ∧ final.Sound := by
  induction ops generalizing store with
  | nil => exact ⟨store, rfl, hsound⟩
  | cons op ops ih =>
    obtain ⟨next, hrun, hnext⟩ := op.run_sound hsound (hallowed op mem_cons_self)
    obtain ⟨final, hfinal, hlast⟩ := ih hnext fun other hother =>
      hallowed other (mem_cons_of_mem op hother)
    refine ⟨final, ?_, hlast⟩
    rw [encryptRun, hrun]
    exact hfinal

end Steps

/-- After every run from empty tables the store is sound, and a deletion there succeeds
exactly on a stored rule, which it takes out. -/
theorem encryptRun_coherent (ops : List EncryptOp) (hallowed : ∀ op ∈ ops, op.Allowed) :
    ∃ final : EncryptStore, encryptRun .empty ops = .ok final ∧ final.Sound ∧
      ∀ (name : CString) (gid : Int),
        ((encryptFileHashDel final name gid).1 = 0 ↔
          ∃ rule ∈ final.stored, rule.key = (name.text, gid)) ∧
        (encryptFileHashDel final name gid).2.stored =
          final.stored.filter fun rule => rule.key ≠ (name.text, gid) := by
  obtain ⟨final, hrun, hsound⟩ := encryptRun_sound EncryptStore.Sound.empty hallowed
  grind [encryptFileHashDel_spec]

/-- The arguments of `encrypt_file_hash_add`, with the length of the name that its callers
pass. -/
structure EncryptAdd where
  name : CString
  gid : Int
  filetype : UInt8
  authority : UInt32
  flag : UInt8
  gidInRange : 0 ≤ gid ∧ gid < groupLists
  nameFits : name.text.length + 1 ≤ 256
  flagIsBool : flag ≤ 1

def EncryptAdd.op (add : EncryptAdd) : EncryptOp :=
  .add add.name (add.name.text.length + 1) add.gid add.filetype add.authority add.flag

def EncryptAdd.rule (add : EncryptAdd) : EncryptRule :=
  ⟨add.name, add.nameFits, add.gid, add.filetype, add.authority, 1⟩

/-- No name has a rule for all groups and one of a single group. -/
def SingleScope (rules : List EncryptRule) : Prop :=
  ∀ rule ∈ rules, ∀ other ∈ rules, rule.name.text = other.name.text → rule.gid = 0 →
    other.gid = 0

/-- After every part of the calls there is a store, in which every name has one scope. -/
def AlwaysSingleScope (adds : List EncryptAdd) : Prop :=
  ∀ front, front <+: adds → ∃ store : EncryptStore,
    encryptRun .empty (front.map EncryptAdd.op) = .ok store ∧ SingleScope store.stored

/-- The first of the calls with a name. -/
def firstOf (text : Bytes) (adds : List EncryptAdd) : Option EncryptAdd :=
  adds.find? fun add => add.name.text = text

/-- A name that is added for all groups is first added for all groups. -/
def AllGroupsFirst (adds : List EncryptAdd) : Prop :=
  ∀ add ∈ adds, add.gid = 0 →
    (firstOf add.name.text adds).map EncryptAdd.gid = some 0

section Scopes

variable {store : EncryptStore} {add : EncryptAdd} {adds : List EncryptAdd} {text : Bytes}

theorem encryptRun_append {ops others : List EncryptOp} {middle : EncryptStore}
    (hrun : encryptRun store ops = .ok middle) :
    encryptRun store (ops ++ others) = encryptRun middle others := by
  induction ops generalizing store with
  | nil =>
    cases hrun
    rfl
  | cons op ops ih =>
    rw [encryptRun] at hrun
    rw [cons_append, encryptRun]
    cases hop : op.run store with
    | error fault =>
      rw [hop] at hrun
      cases hrun
    | ok next =>
      rw [hop] at hrun
      exact ih hrun

theorem EncryptAdd.run_stored (hsound : store.Sound) (add : EncryptAdd) :
    ∃ next : EncryptStore, add.op.run store = .ok next ∧ next.Sound ∧
      next.stored = if store.stored.any (EncryptRule.blocks add.name add.gid) then store.stored
        else store.stored ++ [add.rule] := by
  have hfound : (store.findIn (encryptFileHashValue add.name)
      (EncryptRule.blocks add.name add.gid)).isSome =
        store.stored.any (EncryptRule.blocks add.name add.gid) := by
    rw [Bool.eq_iff_iff, List.any_eq_true, hsound.coherent.findIn_isSome_iff]
    constructor
    · rintro ⟨rule, hrule, _, hblocks⟩
      exact ⟨rule, hrule, hblocks⟩
    · rintro ⟨rule, hrule, hblocks⟩
      have htext : add.name.text = rule.name.text := (of_decide_eq_true hblocks).1
      exact ⟨rule, hrule, encryptHash_of_text htext.symm, hblocks⟩
  rw [← hfound, EncryptAdd.op, EncryptOp.run, encryptFileHashAdd]
  simp only [nameCut_eq]
  cases hfind : store.findIn (encryptFileHashValue add.name)
      (EncryptRule.blocks add.name add.gid) with
  | none =>
    refine ⟨store.link add.rule (encryptFileHashValue add.name) add.gid, ?_,
      hsound.link add.rule hfind, hsound.coherent.stored_link add.rule _ _⟩
    rw [bind_none]
    simp only [if_true, dif_pos (Nat.lt_of_succ_le add.nameFits), if_pos add.gidInRange]
    rfl
  | some id =>
    refine ⟨store, ?_, hsound, rfl⟩
    rcases flag_cases add.flagIsBool with hflag | hflag
    · rw [bind_some, hflag]
      rfl
    · rw [bind_some, hflag]
      rfl

/-- What the calls so far have left in the store, name by name: a rule for all groups if one
was asked for, and one of a single group if such a call was the first. -/
structure Scoped (adds : List EncryptAdd) (rules : List EncryptRule) : Prop where
  allGroups : ∀ text, (∃ rule ∈ rules, rule.name.text = text ∧ rule.gid = 0) ↔
    ∃ add ∈ adds, add.name.text = text ∧ add.gid = 0
  ofGroup : ∀ text, (∃ rule ∈ rules, rule.name.text = text ∧ rule.gid ≠ 0) ↔
    ∃ first, firstOf text adds = some first ∧ first.gid ≠ 0

theorem firstOf_concat (text : Bytes) (adds : List EncryptAdd) (add : EncryptAdd) :
    firstOf text (adds ++ [add]) =
      (firstOf text adds).or (if add.name.text = text then some add else none) := by
  rw [firstOf, List.find?_append, firstOf]
  congr 1
  by_cases htext : add.name.text = text
  · simp [htext]
  · simp [htext]

theorem Scoped.firstOf_eq_none {rules : List EncryptRule} (hscoped : Scoped adds rules)
    (hnone : ∀ rule ∈ rules, rule.name.text ≠ text) : firstOf text adds = none := by
  cases hfirst : firstOf text adds with
  | none => rfl
  | some first =>
    have hname : first.name.text = text := by simpa using List.find?_some hfirst
    by_cases hgid : first.gid = 0
    · obtain ⟨rule, hrule, htext, _⟩ := (hscoped.allGroups text).mpr
        ⟨first, mem_of_find?_eq_some hfirst, hname, hgid⟩
      exact absurd htext (hnone rule hrule)
    · obtain ⟨rule, hrule, htext, _⟩ := (hscoped.ofGroup text).mpr ⟨first, hfirst, hgid⟩
      exact absurd htext (hnone rule hrule)

theorem Scoped.firstOf_isSome {rules : List EncryptRule} (hscoped : Scoped adds rules)
    {rule : EncryptRule} (hrule : rule ∈ rules) (htext : rule.name.text = text) :
    ∃ first, firstOf text adds = some first := by
  by_cases hgid : rule.gid = 0
  · obtain ⟨add, hadd, hname, _⟩ := (hscoped.allGroups text).mp ⟨rule, hrule, htext, hgid⟩
    have hsome : (firstOf text adds).isSome := by
      rw [firstOf, List.find?_isSome]
      exact ⟨add, hadd, by simpa using hname⟩
    exact isSome_iff_exists.mp hsome
  · obtain ⟨first, hfirst, _⟩ := (hscoped.ofGroup text).mp ⟨rule, hrule, htext, hgid⟩
    exact ⟨first, hfirst⟩

theorem Scoped.blocked {rules : List EncryptRule} (hscoped : Scoped adds rules)
    (hblocked : rules.any (EncryptRule.blocks add.name add.gid) = true) :
    Scoped (adds ++ [add]) rules := by
  obtain ⟨rule, hrule, hblocks⟩ := any_eq_true.mp hblocked
  obtain ⟨htext, hgid⟩ := of_decide_eq_true hblocks
  refine ⟨?_, ?_⟩
  · intro text
    rw [hscoped.allGroups text]
    constructor
    · grind
    · rintro ⟨other, hother, hname, hzero⟩
      rcases mem_append.mp hother with hother | hother
      · exact ⟨other, hother, hname, hzero⟩
      · obtain rfl := mem_singleton.mp hother
        refine (hscoped.allGroups text).mp ⟨rule, hrule, htext.symm.trans hname, ?_⟩
        rcases hgid with hgid | hgid
        · exact hgid
        · exact hgid.trans hzero
  · intro text
    rw [hscoped.ofGroup text, firstOf_concat]
    by_cases hname : add.name.text = text
    · obtain ⟨first, hfirst⟩ := hscoped.firstOf_isSome hrule (htext.symm.trans hname)
      rw [hfirst, some_or]
    · rw [if_neg hname, or_none]

/-- A rule that nothing is in the way of decides the scope of a new name, or adds all groups
to single ones. -/
theorem Scoped.stored {rules : List EncryptRule} (hscoped : Scoped adds rules)
    (hfree : rules.any (EncryptRule.blocks add.name add.gid) = false) :
    Scoped (adds ++ [add]) (rules ++ [add.rule]) := by
  have hclear : ∀ rule ∈ rules, rule.name.text = add.name.text →
      rule.gid ≠ 0 ∧ rule.gid ≠ add.gid := by
    grind [EncryptRule.blocks]
  refine ⟨?_, ?_⟩
  · intro text
    simp only [mem_append, mem_singleton, or_and_right, exists_or, exists_eq_left,
      hscoped.allGroups text]
    rfl
  · intro text
    rw [firstOf_concat]
    simp only [mem_append, mem_singleton, or_and_right, exists_or, exists_eq_left,
      hscoped.ofGroup text]
    change _ ∨ add.name.text = text ∧ add.gid ≠ 0 ↔ _
    by_cases hname : add.name.text = text
    · cases hfirst : firstOf text adds with
      | none => simp [hname]
      | some first =>
        -- an earlier call left a rule with the name, which is one of another group
        obtain ⟨rule, hrule, htext⟩ : ∃ rule ∈ rules, rule.name.text = text := by
          by_contra hnone
          push Not at hnone
          rw [hscoped.firstOf_eq_none hnone] at hfirst
          cases hfirst
        obtain ⟨other, hother, hgid⟩ := (hscoped.ofGroup text).mp
          ⟨rule, hrule, htext, (hclear rule hrule (htext.trans hname.symm)).1⟩
        rw [hfirst, Option.some.injEq] at hother
        subst hother
        simp [hgid]
    · simp [hname]

theorem encryptAdds_scoped (adds : List EncryptAdd) :
    ∃ final : EncryptStore, encryptRun .empty (adds.map EncryptAdd.op) = .ok final ∧
      final.Sound ∧ Scoped adds final.stored := by
  induction adds using List.reverseRecOn with
  | nil =>
    refine ⟨.empty, rfl, EncryptStore.Sound.empty, ?_, ?_⟩
    · simp [Store.stored, Store.empty]
    · simp [Store.stored, Store.empty, firstOf]
  | append_singleton adds add ih =>
    obtain ⟨middle, hrun, hsound, hscoped⟩ := ih
    obtain ⟨next, hadd, hnext, hstored⟩ := add.run_stored hsound
    refine ⟨next, ?_, hnext, ?_⟩
    · rw [map_append, encryptRun_append hrun, map_singleton, encryptRun, hadd]
      rfl
    · rw [hstored]
      cases hblocked : middle.stored.any (EncryptRule.blocks add.name add.gid) with
      | true => exact hscoped.blocked hblocked
      | false => exact hscoped.stored hblocked

theorem Scoped.singleScope_iff {rules : List EncryptRule} (hscoped : Scoped adds rules) :
    SingleScope rules ↔ AllGroupsFirst adds := by
  constructor
  · intro hsingle add hadd hzero
    obtain ⟨rule, hrule, htext, hgid⟩ :=
      (hscoped.allGroups add.name.text).mpr ⟨add, hadd, rfl, hzero⟩
    obtain ⟨first, hfirst⟩ := hscoped.firstOf_isSome hrule htext
    rw [hfirst, map_some, Option.some.injEq]
    by_contra hgroup
    obtain ⟨other, hother, hname, hother0⟩ := (hscoped.ofGroup _).mpr ⟨first, hfirst, hgroup⟩
    exact hother0 (hsingle rule hrule other hother (htext.trans hname.symm) hgid)
  · intro hfirst rule hrule other hother htext hgid
    obtain ⟨add, hadd, hname, hzero⟩ := (hscoped.allGroups _).mp ⟨rule, hrule, rfl, hgid⟩
    by_contra hgroup
    obtain ⟨first, hcall, hnot⟩ := (hscoped.ofGroup _).mp ⟨other, hother, rfl, hgroup⟩
    have hall := hfirst add hadd hzero
    rw [hname, htext, hcall, map_some, Option.some.injEq] at hall
    exact hnot hall

theorem AllGroupsFirst.front {front : List EncryptAdd} (hall : AllGroupsFirst adds)
    (hfront : front <+: adds) : AllGroupsFirst front := by
  obtain ⟨rest, rfl⟩ := hfront
  intro add hadd hzero
  have hfirst := hall add (mem_append_left _ hadd) hzero
  have hsome : (firstOf add.name.text front).isSome := by
    rw [firstOf, List.find?_isSome]
    exact ⟨add, hadd, by simp⟩
  grind [isSome_iff_exists, firstOf.eq_1]

end Scopes

/-- Names keep one scope exactly if those that are added for all groups are first added for
all groups. -/
theorem encryptAdds_singleScope_iff (adds : List EncryptAdd) :
    AlwaysSingleScope adds ↔ AllGroupsFirst adds := by
  constructor
  · intro halways
    obtain ⟨store, hrun, hsingle⟩ := halways adds (prefix_refl adds)
    obtain ⟨final, hfinal, _, hscoped⟩ := encryptAdds_scoped adds
    rw [hrun, Except.ok.injEq] at hfinal
    subst hfinal
    exact hscoped.singleScope_iff.mp hsingle
  · intro hall front hfront
    obtain ⟨final, hfinal, _, hscoped⟩ := encryptAdds_scoped front
    exact ⟨final, hfinal, hscoped.singleScope_iff.mpr (hall.front hfront)⟩

namespace EncryptRulesWitness

def plan : CString := ⟨[112, 108, 97, 110], by decide⟩

/-- A rule of group 7 and one for all groups share a name; the group's is deleted. -/
def ops : List EncryptOp :=
  [.add plan 5 7 2 15 1, .add plan 5 0 2 15 1, .del plan 7]

theorem encryptRun_ops : ∃ final : EncryptStore, encryptRun .empty ops = .ok final ∧
    final.Sound ∧ ∀ (name : CString) (gid : Int),
      ((encryptFileHashDel final name gid).1 = 0 ↔
        ∃ rule ∈ final.stored, rule.key = (name.text, gid)) ∧
      (encryptFileHashDel final name gid).2.stored =
        final.stored.filter fun rule => rule.key ≠ (name.text, gid) :=
  encryptRun_coherent ops (by decide)

/-- The two rules, each with the flag that asks for a failure. -/
def forGroup : EncryptAdd := ⟨plan, 7, 2, 15, 1, by decide, by decide, by decide⟩

def forAll : EncryptAdd := ⟨plan, 0, 2, 15, 1, by decide, by decide, by decide⟩

def keysAfter (adds : List EncryptAdd) : Option (List (Bytes × Int)) :=
  match encryptRun .empty (adds.map EncryptAdd.op) with
  | .ok store => some (store.stored.map EncryptRule.key)
  | .error _ => none

/-- The rule for all groups keeps that of the group out, but not the other way round. -/
theorem not_alwaysSingleScope_groupFirst :
    keysAfter [forAll, forGroup] = some [(plan.text, 0)] ∧
      keysAfter [forGroup, forAll] = some [(plan.text, 7), (plan.text, 0)] ∧
      ¬AlwaysSingleScope [forGroup, forAll] := by
  refine ⟨by decide, by decide, ?_⟩
  intro halways
  obtain ⟨store, hrun, hsingle⟩ := halways _ (prefix_refl _)
  obtain ⟨final, hfinal, _, hscoped⟩ := encryptAdds_scoped [forGroup, forAll]
  rw [hrun, Except.ok.injEq] at hfinal
  subst hfinal
  have hfirst := hscoped.singleScope_iff.mp hsingle forAll (by simp) rfl
  exact absurd hfirst (by decide)

end EncryptRulesWitness

end WaterWall
