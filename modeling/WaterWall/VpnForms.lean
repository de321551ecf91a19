/-
What the tunnel pages of vpn.lua have in common: form values that may be missing, the
names derived from the name of a tunnel, and the two ways in which a section is written
anew, by deleting it or by deleting the one under the old name.
-/
import WaterWall.ByteText
import WaterWall.SectionStore

namespace WaterWall

namespace Vpn

open ByteText SectionStore

/-- `luci.http.formvalue`. -/
abbrev Form := Bytes → Option Bytes

namespace Form

def value (form : Form) (key : String) : Option Bytes :=
  form (ascii key)

/-- An option that gets the value of a field of the form. -/
def fieldAs (form : Form) (option key : String) : Bytes × Option (Value Bytes) :=
  (ascii option, (form.value key).map .text)

/-- An option with the name of the field. -/
def field (form : Form) (key : String) : Bytes × Option (Value Bytes) :=
  form.fieldAs key key

end Form

/-- An option with a value of its own. -/
def constant (option : String) (value : Bytes) : Bytes × Option (Value Bytes) :=
  (ascii option, some (.text value))

def listOf (option : String) (values : List Bytes) : Bytes × Option (Value Bytes) :=
  (ascii option, some (.list values))

/-- `utils.isNotEmpty`. -/
def isNotEmpty (text : Option Bytes) : Bool :=
  text.any fun text => text ≠ []

/-- `utils.is_name_exist`. -/
def isNameExist (config : Config Bytes) (type : Bytes) (name : Option Bytes) : Bool :=
  (name.bind config).any fun content => content.type = type

theorem isNameExist_iff {config : Config Bytes} {type name : Bytes} :
    isNameExist config type (some name) = true ↔
      ∃ content, config name = some content ∧ content.type = type := by
  rw [isNameExist, Option.bind_some, Option.any_eq_true]
  simp

/-- The names that a save is about. -/
def newName (form : Form) : Bytes :=
  (form.value "tunnel_name").getD []

def oldName (form : Form) : Bytes :=
  (form.value "old_tunnel_name").getD []

/-- How a save ends: with code 1 because the name exists, with the message that all is saved,
with the message that the data are wrong, or with an error of Lua. -/
inductive Outcome where
  | nameExists
  | saved
  | badData
  | raised
  deriving DecidableEq

def zkTunnel : Bytes := ascii "zk_tunnel"

/-- The names derived from that of a tunnel. -/
inductive Kind where
  | p1Proposal
  | p2Proposal
  | sainfo
  | tunnel
  | remote
  deriving DecidableEq

def Kind.start : Kind → Bytes
  | p1Proposal => ascii "p1_proposal_"
  | p2Proposal => ascii "p2_proposal_"
  | sainfo => ascii "sainfo_"
  | tunnel => ascii "tunnel_"
  | remote => ascii "remote_"

def Kind.of (kind : Kind) (name : Bytes) : Bytes :=
  kind.start ++ name

theorem Kind.of_inj {kind other : Kind} {name another : Bytes} :
    kind.of name = other.of another ↔ kind = other ∧ name = another := by
  constructor
  · intro heq
    have hkind : kind = other := by
      have htwo := congrArg (List.take 2) heq
      cases kind <;> cases other <;> first | rfl | (exact absurd htwo (by simp [Kind.of, start, ascii]))
    subst hkind
    exact ⟨rfl, List.append_cancel_left heq⟩
  · rintro ⟨rfl, rfl⟩
    rfl

section Tables

variable {config : Config Bytes} {type name old other : Bytes} {fields : Settings Bytes}

/-- A section is deleted and written anew. -/
def rewrite (config : Config Bytes) (type name : Bytes) (fields : Settings Bytes) : Config Bytes :=
  ((config.delete name).addSection type name).setAll name fields

/-- The section under an old name is deleted and the one under the name written. -/
def move (config : Config Bytes) (type old name : Bytes) (fields : Settings Bytes) : Config Bytes :=
  ((config.delete old).addSection type name).setAll name fields

theorem rewrite_self : rewrite config type name fields name =
    some ((Section.empty type).setAll fields) :=
  Config.setAll_of_some fields (Config.addSection_of_none type Config.delete_self)

theorem rewrite_of_ne (hne : other ≠ name) : rewrite config type name fields other = config other := by
  rw [rewrite, Config.setAll_of_ne fields hne, Config.addSection_of_ne type hne,
    Config.delete_of_ne hne]

theorem move_of_ne (hold : other ≠ old) (hne : other ≠ name) :
    move config type old name fields other = config other := by
  rw [move, Config.setAll_of_ne fields hne, Config.addSection_of_ne type hne,
    Config.delete_of_ne hold]

theorem move_old (hne : old ≠ name) : move config type old name fields old = none := by
  rw [move, Config.setAll_of_ne fields hne, Config.addSection_of_ne type hne, Config.delete_self]

theorem move_self (hfresh : old ≠ name → config name = none) :
    move config type old name fields name = some ((Section.empty type).setAll fields) := by
  refine Config.setAll_of_some fields (Config.addSection_of_none type ?_)
  by_cases hsame : old = name
  · rw [hsame, Config.delete_self]
  · rw [Config.delete_of_ne (Ne.symm hsame), hfresh hsame]

theorem exists_move_self : ∃ content, move config type old name fields name = some content ∧
    content.type = type := by
  refine ⟨_, Config.setAll_of_some fields (Function.update_self _ _ _), ?_⟩
  rw [Section.setAll_type]

theorem isTunnel_move :
    (∃ content, move config zkTunnel old name fields other = some content ∧
      content.type = zkTunnel) ↔ other = name ∨ other ≠ old ∧
        ∃ content, config other = some content ∧ content.type = zkTunnel := by
  by_cases hname : other = name
  · subst hname
    exact iff_of_true exists_move_self (.inl rfl)
  grind [move_old, move_of_ne]

end Tables

end Vpn

end WaterWall
