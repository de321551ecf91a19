/-
save_tunnel and delete_tunnel of vpn.lua: a tunnel and its four derived sections are
all in the configuration `racoon`, so the name of one tunnel may be a derived name of
another.  The check for an existing name looks at tunnels only and lets it pass.
-/
import WaterWall.VpnForms

namespace WaterWall

namespace Vpn

open ByteText SectionStore

namespace Racoon

/-- `exchange_mode`, which is fixed for a remote that is not known. -/
def exchangeMode (form : Form) : Option Bytes :=
  if form.value "remote" = some (ascii "anonymous") then some (ascii "aggressive,main")
  else form.value "exchange_mode"

def tunnelFields (form : Form) (name : Bytes) : Settings Bytes :=
  constant "name" name ::
    ["enabled", "remote", "network_mode", "local_subnet_ip", "local_subnet_mask",
      "remote_subnet_ip", "remote_subnet_mask", "my_id_type", "my_id", "peer_id_type",
      "peer_id"].map form.field ++
    (ascii "exchange_mode", (exchangeMode form).map .text) ::
    ["pre_shared_key", "authentication_method", "ph1_encryption_algorithm", "ph1_hash_algorithm",
      "dh_group", "ph1_lifetime", "dpd_switch", "dpd_delay", "ph2_encryption_algorithm",
      "ph2_authentication_algorithm", "pfs_group", "ph2_lifetime"].map form.field

def p1Fields (form : Form) (name : Bytes) : Settings Bytes :=
  [constant "name" (Kind.p1Proposal.of name),
    form.fieldAs "lifetime" "ph1_lifetime",
    form.fieldAs "enc_alg" "ph1_encryption_algorithm",
    form.fieldAs "hash_alg" "ph1_hash_algorithm",
    form.fieldAs "auth_method" "authentication_method",
    form.field "dh_group"]

def p2Fields (form : Form) (name : Bytes) : Settings Bytes :=
  [constant "name" (Kind.p2Proposal.of name),
    form.field "pfs_group",
    form.field "ph2_lifetime",
    form.fieldAs "enc_alg" "ph2_encryption_algorithm",
    form.fieldAs "auth_alg" "ph2_authentication_algorithm"]

def sainfoFields (localNet remoteNet name : Bytes) : Settings Bytes :=
  [constant "name" (Kind.sainfo.of name),
    constant "local_net" localNet,
    constant "remote_net" remoteNet,
    constant "p2_proposal" (Kind.p2Proposal.of name)]

def peerFields (form : Form) (name : Bytes) : Settings Bytes :=
  [constant "name" (Kind.tunnel.of name),
    form.field "enabled",
    form.field "remote",
    (ascii "exchange_mode", (exchangeMode form).map .text)] ++
  if isNotEmpty (form.value "dpd_delay") then [form.field "dpd_delay"] else []

/-- Options of a section are set if a condition holds, and else deleted. -/
def setOrUnset (condition : Bool) (form : Form) (keys : List String) (name : Bytes)
    (config : Config Bytes) : Config Bytes :=
  if condition then config.setAll name (keys.map form.field)
  else keys.foldl (fun config key => config.unset name (ascii key)) config

/-- An identifier is given for a type that is a domain name. -/
def isFqdn (form : Form) (typeKey idKey : String) : Bool :=
  isNotEmpty (form.value typeKey) && form.value typeKey = some (ascii "fqdn") &&
    isNotEmpty (form.value idKey)

/-- What else is written to a `tunnel_` section. -/
def peerOptions (form : Form) (name : Bytes) (racoon : Config Bytes) : Config Bytes :=
  let peer := Kind.tunnel.of name
  let racoon := setOrUnset (isNotEmpty (form.value "pre_shared_key")) form ["pre_shared_key"]
    peer racoon
  let racoon := setOrUnset (isFqdn form "my_id_type" "my_id") form ["my_id_type", "my_id"]
    peer racoon
  let racoon := setOrUnset (isFqdn form "peer_id_type" "peer_id") form ["peer_id_type", "peer_id"]
    peer racoon
  let racoon :=
    if form.value "authentication_method" = some (ascii "rsasig") then
      racoon.setAll peer [constant "certificate" (ascii "openwrt")]
    else racoon
  racoon.setAll peer [listOf "p1_proposal" [Kind.p1Proposal.of name],
    listOf "sainfo" [Kind.sainfo.of name]]

def ipsecStatus : Bytes := ascii "ipsec_status"

def enabled : Settings Bytes :=
  [constant "ipsec_enable_status" (ascii "enable")]

/-- The networks, which raise an error if a part of them is nil. -/
def networks (form : Form) : Option (Bytes × Bytes) := do
  let localSubnetIp ← form.value "local_subnet_ip"
  let localSubnetMask ← form.value "local_subnet_mask"
  let remoteSubnetIp ← form.value "remote_subnet_ip"
  let remoteSubnetMask ← form.value "remote_subnet_mask"
  some (localSubnetIp ++ ascii "/" ++ localSubnetMask,
    remoteSubnetIp ++ ascii "/" ++ remoteSubnetMask)

/-- What a save writes. -/
def saveRacoon (form : Form) (localNet remoteNet name old : Bytes) (racoon : Config Bytes) :
    Config Bytes :=
  let racoon := move racoon zkTunnel old name (tunnelFields form name)
  let racoon := rewrite racoon (ascii "p1_proposal") (Kind.p1Proposal.of name) (p1Fields form name)
  let racoon := rewrite racoon (ascii "p2_proposal") (Kind.p2Proposal.of name) (p2Fields form name)
  let racoon := move racoon (ascii "sainfo") (Kind.sainfo.of old) (Kind.sainfo.of name)
    (sainfoFields localNet remoteNet name)
  let racoon := move racoon (ascii "tunnel") (Kind.tunnel.of old) (Kind.tunnel.of name)
    (peerFields form name)
  let racoon := peerOptions form name racoon
  racoon.setAll ipsecStatus enabled

/-- Nothing is committed unless the save is successful. -/
def saveTunnel (form : Form) (racoon : Config Bytes) : Outcome × Config Bytes :=
  let tunnelName := form.value "tunnel_name"
  let oldTunnelName := form.value "old_tunnel_name"
  if oldTunnelName ≠ tunnelName ∧ isNameExist racoon zkTunnel tunnelName then
    (.nameExists, racoon)
  else
    match tunnelName with
    | none => (.badData, racoon)
    | some name =>
      if isNotEmpty (some name) then
        match oldTunnelName, networks form with
        | some old, some nets => (.saved, saveRacoon form nets.1 nets.2 name old racoon)
        | _, _ => (.raised, racoon)
      else (.badData, racoon)

def deleteTunnel (name : Bytes) (racoon : Config Bytes) : Config Bytes :=
  ((((racoon.delete name).delete (Kind.tunnel.of name)).delete (Kind.sainfo.of name)).delete
    (Kind.p1Proposal.of name)).delete (Kind.p2Proposal.of name)

/-- The calls of the two functions. -/
inductive Call where
  | save (form : Form)
  | delete (name : Bytes)

def step (racoon : Config Bytes) : Call → Config Bytes
  | .save form => (saveTunnel form racoon).2
  | .delete name => deleteTunnel name racoon

def run (calls : List Call) : Config Bytes :=
  calls.foldl step fun _ => none

def IsTunnel (racoon : Config Bytes) (name : Bytes) : Prop :=
  ∃ content, racoon name = some content ∧ content.type = zkTunnel

/-- The derived sections of a tunnel. -/
def kinds : List Kind :=
  [.p1Proposal, .p2Proposal, .sainfo, .tunnel]

/-- The sections of a tunnel are the same in both. -/
structure SameTunnel (racoon next : Config Bytes) (name : Bytes) : Prop where
  own : next name = racoon name
  derived : ∀ kind ∈ kinds, next (kind.of name) = racoon (kind.of name)

/-- A tunnel named like a section of the other. -/
def Collide (a b : Bytes) : Prop :=
  ∃ kind ∈ kinds, a = kind.of b ∨ b = kind.of a

/-- The calls about a tunnel that keep its name. -/
def Call.About (name : Bytes) : Call → Prop
  | .save form => form.value "tunnel_name" = some name ∧ form.value "old_tunnel_name" = some name
  | .delete other => other = name

section Frames

variable {form : Form} {racoon : Config Bytes} {name old other : Bytes}

theorem setOrUnset_of_ne (condition : Bool) (keys : List String) (hne : other ≠ name) :
    setOrUnset condition form keys name racoon other = racoon other := by
  rw [setOrUnset]
  split
  · exact Config.setAll_of_ne _ hne
  · induction keys generalizing racoon with
    | nil => rfl
    | cons key keys ih => rw [List.foldl_cons, ih, Config.unset_of_ne _ hne]

theorem peerOptions_of_ne (hne : other ≠ Kind.tunnel.of name) :
    peerOptions form name racoon other = racoon other := by
  rw [peerOptions, Config.setAll_of_ne _ hne]
  grind [Config.setAll_of_ne, setOrUnset_of_ne]

theorem saveRacoon_of_ne {localNet remoteNet : Bytes} (hname : other ≠ name) (hold : other ≠ old)
    (hnameKinds : ∀ kind ∈ kinds, other ≠ Kind.of kind name)
    (holdKinds : ∀ kind ∈ kinds, other ≠ Kind.of kind old) :
    saveRacoon form localNet remoteNet name old racoon other =
      racoon.setAll ipsecStatus enabled other := by
  have hpeer : peerOptions form name (move (move (rewrite (rewrite (move racoon zkTunnel old name
      (tunnelFields form name)) (ascii "p1_proposal") (Kind.p1Proposal.of name)
        (p1Fields form name)) (ascii "p2_proposal") (Kind.p2Proposal.of name) (p2Fields form name))
          (ascii "sainfo") (Kind.sainfo.of old) (Kind.sainfo.of name)
            (sainfoFields localNet remoteNet name)) (ascii "tunnel") (Kind.tunnel.of old)
              (Kind.tunnel.of name) (peerFields form name)) other = racoon other := by
    rw [peerOptions_of_ne (hnameKinds .tunnel (by decide)),
      move_of_ne (holdKinds .tunnel (by decide)) (hnameKinds .tunnel (by decide)),
      move_of_ne (holdKinds .sainfo (by decide)) (hnameKinds .sainfo (by decide)),
      rewrite_of_ne (hnameKinds .p2Proposal (by decide)),
      rewrite_of_ne (hnameKinds .p1Proposal (by decide)), move_of_ne hold hname]
  rw [saveRacoon]
  by_cases hstatus : other = ipsecStatus
  · simp_all [Config.setAll.eq_1]
  · rw [Config.setAll_of_ne _ hstatus, Config.setAll_of_ne _ hstatus, hpeer]

theorem deleteTunnel_of_ne (hname : other ≠ name)
    (hkinds : ∀ kind ∈ kinds, other ≠ Kind.of kind name) :
    deleteTunnel name racoon other = racoon other := by
  rw [deleteTunnel, Config.delete_of_ne (hkinds .p2Proposal (by decide)),
    Config.delete_of_ne (hkinds .p1Proposal (by decide)),
    Config.delete_of_ne (hkinds .sainfo (by decide)),
    Config.delete_of_ne (hkinds .tunnel (by decide)), Config.delete_of_ne hname]

theorem deleteTunnel_eq_none (hother : other = name ∨ ∃ kind ∈ kinds, other = Kind.of kind name) :
    deleteTunnel name racoon other = none := by
  simp only [deleteTunnel, Config.delete, Function.update_apply]
  grind [kinds]

theorem saveTunnel_of_ne (habout : (Call.save form).About name) (hname : other ≠ name)
    (hkinds : ∀ kind ∈ kinds, other ≠ Kind.of kind name) :
    (saveTunnel form racoon).2 other = racoon other ∨
      (saveTunnel form racoon).2 other = racoon.setAll ipsecStatus enabled other := by
  obtain ⟨htunnel, hold⟩ := habout
  rw [saveTunnel, htunnel, hold, if_neg (by simp)]
  simp only
  split
  · cases networks form with
    | none => exact .inl rfl
    | some nets => exact .inr (saveRacoon_of_ne hname hname hkinds hkinds)
  · exact .inl rfl

end Frames

/-- The status is set in its section, if there is one. -/
def StatusSet (racoon : Config Bytes) : Prop :=
  ∀ content, racoon ipsecStatus = some content → content.setAll enabled = content

section Status

variable {racoon : Config Bytes}

theorem setAll_enabled_idem (content : Section Bytes) :
    (content.setAll enabled).setAll enabled = content.setAll enabled := by
  change Section.mk _ (Function.update (Function.update _ _ _) _ _) = _
  rw [Function.update_idem]
  rfl

theorem StatusSet.setAll (hset : StatusSet racoon) (other : Bytes) :
    racoon.setAll ipsecStatus enabled other = racoon other := by
  by_cases hstatus : other = ipsecStatus
  · subst hstatus
    rw [Config.setAll, Function.update_self]
    cases hcontent : racoon ipsecStatus with
    | none => rfl
    | some content => rw [Option.map_some, hset content hcontent]
  · exact Config.setAll_of_ne _ hstatus

theorem statusSet_setAll (config : Config Bytes) :
    StatusSet (config.setAll ipsecStatus enabled) := by
  intro content hcontent
  rw [Config.setAll, Function.update_self] at hcontent
  obtain ⟨before, -, rfl⟩ := Option.map_eq_some_iff.mp hcontent
  exact setAll_enabled_idem before

theorem StatusSet.saveTunnel (hset : StatusSet racoon) (form : Form) :
    StatusSet (saveTunnel form racoon).2 := by
  rw [Racoon.saveTunnel]
  split
  · exact hset
  · cases form.value "tunnel_name" with
    | none => exact hset
    | some name =>
      simp only
      split
      · cases form.value "old_tunnel_name" with
        | none => exact hset
        | some old =>
          cases networks form with
          | none => exact hset
          | some nets => exact statusSet_setAll _
      · exact hset

theorem StatusSet.delete (hset : StatusSet racoon) (name : Bytes) :
    StatusSet (racoon.delete name) := by
  intro content hcontent
  by_cases hstatus : ipsecStatus = name
  · rw [hstatus, Config.delete_self] at hcontent
    cases hcontent
  · rw [Config.delete_of_ne hstatus] at hcontent
    exact hset content hcontent

theorem StatusSet.step (hset : StatusSet racoon) (call : Call) : StatusSet (step racoon call) := by
  cases call with
  | save form => exact hset.saveTunnel form
  | delete name => exact ((((hset.delete _).delete _).delete _).delete _).delete _

theorem run_statusSet (calls : List Call) : StatusSet (run calls) := by
  have hfold (racoon : Config Bytes) (hset : StatusSet racoon) :
      StatusSet (calls.foldl Racoon.step racoon) := by
    induction calls generalizing racoon with
    | nil => exact hset
    | cons call calls ih => exact ih _ (hset.step call)
  exact hfold _ fun _ hcontent => by cases hcontent

end Status

section Apart

variable {racoon : Config Bytes} {a b other : Bytes}

theorem ne_of_not_collide (hne : a ≠ b) (hapart : ¬ Collide a b)
    (hother : other = b ∨ ∃ kind ∈ kinds, other = Kind.of kind b) :
    other ≠ a ∧ ∀ kind ∈ kinds, other ≠ Kind.of kind a := by
  rw [Collide] at hapart
  push Not at hapart
  obtain rfl | ⟨kind, hkind, rfl⟩ := hother
  · exact ⟨Ne.symm hne, fun kind hkind => (hapart kind hkind).2⟩
  simp_all [Ne.symm, Kind.of_inj]

theorem step_sameTunnel (hset : StatusSet racoon) (hne : a ≠ b) (hapart : ¬ Collide a b)
    {call : Call} (habout : call.About a) : SameTunnel racoon (step racoon call) b := by
  have hsame {other : Bytes} (hother : other = b ∨ ∃ kind ∈ kinds, other = Kind.of kind b) :
      step racoon call other = racoon other := by
    obtain ⟨hown, hkinds⟩ := ne_of_not_collide hne hapart hother
    cases call with
    | save form =>
      obtain hkept | hstatus := saveTunnel_of_ne habout hown hkinds
      · exact hkept
      · exact hstatus.trans (hset.setAll other)
    | delete name =>
      obtain rfl : name = a := habout
      exact deleteTunnel_of_ne hown hkinds
  exact ⟨hsame (.inl rfl), fun kind hkind => hsame (.inr ⟨kind, hkind, rfl⟩)⟩

theorem not_sameTunnel_delete (ha : IsTunnel racoon a) (hb : IsTunnel racoon b)
    (hcollide : Collide a b) : ¬ SameTunnel racoon (deleteTunnel a racoon) b := by
  rintro ⟨hown, hderived⟩
  obtain ⟨kind, hkind, rfl | rfl⟩ := hcollide
  · obtain ⟨content, hcontent, -⟩ := ha
    have hgone := hderived kind hkind
    rw [deleteTunnel_eq_none (.inl rfl), hcontent] at hgone
    cases hgone
  · obtain ⟨content, hcontent, -⟩ := hb
    rw [deleteTunnel_eq_none (.inr ⟨kind, hkind, rfl⟩), hcontent] at hown
    cases hown

end Apart

namespace RacoonWitness

/-- A new tunnel, with the other fields filled in. -/
def formOf (name : Bytes) : Form := fun key =>
  if key = ascii "tunnel_name" then some name
  else if key = ascii "old_tunnel_name" then some []
  else some (ascii "1")

def twoTunnels (a b : Bytes) : List Call :=
  [.save (formOf a), .save (formOf b)]

end RacoonWitness

end Racoon

end Vpn

end WaterWall
