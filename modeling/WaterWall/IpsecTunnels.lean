/-
save_ipsec_tunnel and delete_ipsec_tunnel of vpn.lua: a tunnel is a section of the
configuration `update` and four derived ones of `ipsec`.  A save under a new name
deletes the old tunnel, its `tunnel_` and its `remote_` section, but of the proposals
only those under the new name, so that a rename leaves the old proposals behind.
-/
import WaterWall.VpnForms
import Mathlib.Data.Set.Insert

namespace WaterWall

namespace Vpn

open ByteText SectionStore List Option

namespace Ipsec

/-- The two configurations. -/
structure Configs where
  (update ipsec : Config Bytes)

/-- The values that are put together with `..`, which raises an error if one is nil. -/
structure Texts where
  (ph1Encryption ph2Encryption localSubnet user ikelifetime lifetime remoteSubnet : Bytes)

def texts (form : Form) : Option Texts := do
  let ph1EncryptionAlgorithm ← form.value "ph1_encryption_algorithm"
  let ph1KeyLength ← form.value "ph1_key_length"
  let ph2EncryptionAlgorithm ← form.value "ph2_encryption_algorithm"
  let ph2KeyLength ← form.value "ph2_key_length"
  let localSubnetIp ← form.value "local_subnet_ip"
  let localSubnetMask ← form.value "local_subnet_mask"
  let ph1User ← form.value "ph1_user"
  let ph1Pass ← form.value "ph1_pass"
  let ph1Lifetime ← form.value "ph1_lifetime"
  let ph2Lifetime ← form.value "ph2_lifetime"
  let remoteSubnetIp ← form.value "remote_subnet_ip"
  let remoteSubnetMask ← form.value "remote_subnet_mask"
  some {
    ph1Encryption := ph1EncryptionAlgorithm ++ ph1KeyLength
    ph2Encryption := ph2EncryptionAlgorithm ++ ph2KeyLength
    localSubnet := localSubnetIp ++ ascii "/" ++ localSubnetMask
    user := ph1User ++ ascii "/" ++ ph1Pass
    ikelifetime := ph1Lifetime ++ ascii "s"
    lifetime := ph2Lifetime ++ ascii "s"
    remoteSubnet := remoteSubnetIp ++ ascii "/" ++ remoteSubnetMask }

/-- The options of the tunnel in `update`. -/
def updateFields (form : Form) (name : Bytes) : Settings Bytes :=
  constant "name" name ::
    ["enabled", "remote", "local_subnet_ip", "local_subnet_mask", "remote_subnet_ip",
      "remote_subnet_mask", "remote_subnet_ip", "remote_subnet_mask", "local_identifier",
      "remote_identifier", "key_exchange", "pre_shared_key", "authentication_method",
      "ph1_encryption_algorithm", "ph1_hash_algorithm", "dh_group", "ph1_lifetime", "dpd_switch",
      "dpd_delay", "ph2_encryption_algorithm", "ph2_authentication_algorithm", "pfs_group",
      "ph2_lifetime", "peerid_type", "myid_type", "ph1_user", "ph1_pass", "certref", "caref",
      "ph1_key_length", "ipsecvpn_mode", "dpd_switch_action", "ph2_key_length", "sub_arry",
      "user_arry", "xauth_mode", "virtual_ip", "virtual_ip_mask", "auto_negotiation"].map form.field

def p1Fields (form : Form) (texts : Texts) (name : Bytes) : Settings Bytes :=
  [constant "name" (Kind.p1Proposal.of name),
    constant "encryption_algorithm" texts.ph1Encryption,
    form.fieldAs "hash_algorithm" "ph1_hash_algorithm",
    form.field "dh_group"]

def p2Fields (form : Form) (texts : Texts) (name : Bytes) : Settings Bytes :=
  constant "name" (Kind.p2Proposal.of name) ::
    (if form.value "pfs_group" ≠ some (ascii "0") then [form.field "pfs_group"] else []) ++
    [constant "encryption_algorithm" texts.ph2Encryption,
      form.fieldAs "authentication_algorithm" "ph2_authentication_algorithm"]

/-- The options of a `tunnel_` section behind its reference. -/
def tunnelRest (split : Bytes → List Bytes) (form : Form) (texts : Texts) : Settings Bytes :=
  [form.field "key_exchange",
    constant "mode" (ascii "start"),
    constant "force_crypto_proposal" (ascii "1"),
    form.field "dpd_delay",
    form.fieldAs "dpd_action" "dpd_switch_action",
    form.field "dpd_switch",
    constant "ikelifetime" texts.ikelifetime,
    constant "lifetime" texts.lifetime,
    form.fieldAs "aggressive" "ipsecvpn_mode",
    form.fieldAs "cert" "certref",
    form.fieldAs "ca" "caref",
    form.field "xauth_mode",
    if form.value "xauth_mode" = some (ascii "server") then
      constant "virtual_addr_pool" texts.remoteSubnet
    else listOf "remote_subnet" (texts.remoteSubnet :: ((form.value "sub_arry").map split).getD []),
    form.field "auto_negotiation"]

/-- All options of a `tunnel_` section, except that its `name` is set in the section nil. -/
def tunnelFields (split : Bytes → List Bytes) (form : Form) (texts : Texts) (name : Bytes) :
    Settings Bytes :=
  [constant "local_subnet" texts.localSubnet,
    listOf "user" (texts.user :: ((form.value "user_arry").map split).getD [])] ++
  constant "crypto_proposal" (Kind.p2Proposal.of name) :: tunnelRest split form texts

def remoteFields (form : Form) (name : Bytes) : Settings Bytes :=
  [constant "name" (Kind.remote.of name),
    form.field "enabled",
    (ascii "gateway", (form.value "remote").map fun remote =>
      .text (if remote = ascii "0.0.0.0" then ascii "any" else remote)),
    form.field "authentication_method",
    form.field "local_identifier",
    form.field "remote_identifier",
    form.field "peerid_type",
    form.field "myid_type"]

/-- The references of a `remote_` section, which are set last. -/
def remoteLists (name : Bytes) : Settings Bytes :=
  [listOf "crypto_proposal" [Kind.p1Proposal.of name], listOf "tunnel" [Kind.tunnel.of name]]

/-- The part of the save that writes to `ipsec`. -/
def saveIpsec (split : Bytes → List Bytes) (form : Form) (texts : Texts) (name old : Bytes)
    (ipsec : Config Bytes) : Config Bytes :=
  let ipsec := rewrite ipsec (ascii "p1_proposal") (Kind.p1Proposal.of name)
    (p1Fields form texts name)
  let ipsec := rewrite ipsec (ascii "p2_proposal") (Kind.p2Proposal.of name)
    (p2Fields form texts name)
  let ipsec := move ipsec (ascii "tunnel") (Kind.tunnel.of old) (Kind.tunnel.of name)
    (tunnelFields split form texts name)
  let ipsec := move ipsec (ascii "remote") (Kind.remote.of old) (Kind.remote.of name)
    (remoteFields form name)
  let ipsec :=
    if isNotEmpty (form.value "pre_shared_key") then
      ipsec.setAll (Kind.remote.of name) [form.field "pre_shared_key"]
    else ipsec.unset (Kind.remote.of name) (ascii "pre_shared_key")
  ipsec.setAll (Kind.remote.of name) (remoteLists name)

/-- `update` is committed before `ipsec` is written; an error of Lua leaves `ipsec` as it was. -/
def saveIpsecTunnel (split : Bytes → List Bytes) (form : Form) (configs : Configs) :
    Outcome × Configs :=
  let tunnelName := form.value "tunnel_name"
  let oldTunnelName := form.value "old_tunnel_name"
  if oldTunnelName ≠ tunnelName ∧ isNameExist configs.update zkTunnel tunnelName then
    (.nameExists, configs)
  else
    match tunnelName with
    | none => (.badData, configs)
    | some name =>
      if isNotEmpty (some name) then
        let update := (oldTunnelName.map configs.update.delete).getD configs.update
        let update := (update.addSection zkTunnel name).setAll name (updateFields form name)
        match oldTunnelName, texts form with
        | some old, some texts =>
          (.saved, ⟨update, saveIpsec split form texts name old configs.ipsec⟩)
        | _, _ => (.raised, ⟨update, configs.ipsec⟩)
      else (.badData, configs)

def deleteIpsecTunnel (name : Bytes) (configs : Configs) : Configs where
  update := configs.update.delete name
  ipsec := (((configs.ipsec.delete (Kind.tunnel.of name)).delete (Kind.remote.of name)).delete
    (Kind.p1Proposal.of name)).delete (Kind.p2Proposal.of name)

/-- The calls of the two functions. -/
inductive Call where
  | save (form : Form)
  | delete (name : Bytes)

/-- A save counts if it is successful. -/
def step (split : Bytes → List Bytes) (configs : Configs) : Call → Option Configs
  | .save form =>
    let result := saveIpsecTunnel split form configs
    if result.1 = .saved then some result.2 else none
  | .delete name => some (deleteIpsecTunnel name configs)

def run (split : Bytes → List Bytes) (configs : Configs) : List Call → Option Configs
  | [] => some configs
  | call :: calls => (step split configs call).bind fun next => run split next calls

def empty : Configs :=
  ⟨fun _ => none, fun _ => none⟩

namespace Configs

/-- The tunnels that the list shows. -/
def IsTunnel (configs : Configs) (name : Bytes) : Prop :=
  ∃ content, configs.update name = some content ∧ content.type = zkTunnel

/-- The names in an option. -/
def names : Option (Value Bytes) → List Bytes
  | none => []
  | some (.text name) => [name]
  | some (.list names) => names

/-- The sections to which a section refers. -/
def references (content : Section Bytes) : List Bytes :=
  names (content.options (ascii "crypto_proposal")) ++ names (content.options (ascii "tunnel"))

/-- The sections of a tunnel. -/
def kinds : List Kind :=
  [.p1Proposal, .p2Proposal, .tunnel, .remote]

/-- The sections of `ipsec` are those of the tunnels, and all references are to one of them. -/
structure Matches (configs : Configs) : Prop where
  sections : ∀ name, (configs.ipsec name).isSome ↔
    ∃ tunnel, configs.IsTunnel tunnel ∧ ∃ kind ∈ kinds, name = kind.of tunnel
  references : ∀ name content, configs.ipsec name = some content →
    ∀ reference ∈ references content, (configs.ipsec reference).isSome

end Configs

/-- The references of the sections of a tunnel. -/
def referencesOf (name : Bytes) : Kind → List Bytes
  | .p1Proposal => []
  | .p2Proposal => []
  | .sainfo => []
  | .tunnel => [Kind.p2Proposal.of name]
  | .remote => [Kind.p1Proposal.of name, Kind.tunnel.of name]

section SaveIpsec

variable {split : Bytes → List Bytes} {form : Form} {texts : Texts} {name old other : Bytes}
  {ipsec : Config Bytes}

open Configs (references)

theorem saveIpsec_of_ne (hold : other ≠ Kind.remote.of old) (hname : other ≠ Kind.remote.of name) :
    saveIpsec split form texts name old ipsec other =
      move (rewrite (rewrite ipsec (ascii "p1_proposal") (Kind.p1Proposal.of name)
        (p1Fields form texts name)) (ascii "p2_proposal") (Kind.p2Proposal.of name)
          (p2Fields form texts name)) (ascii "tunnel") (Kind.tunnel.of old) (Kind.tunnel.of name)
            (tunnelFields split form texts name) other := by
  rw [saveIpsec, Config.setAll_of_ne _ hname]
  grind [Config.setAll_of_ne, move_of_ne, Config.unset_of_ne]

theorem options_empty_setAll {type option : Bytes} {fields : Settings Bytes}
    (hnot : option ∉ fields.map Prod.fst) :
    ((Section.empty type).setAll fields).options option = none :=
  Section.setAll_options_of_not_mem hnot

theorem references_eq_nil {type : Bytes} {fields : Settings Bytes}
    (hcrypto : ascii "crypto_proposal" ∉ fields.map Prod.fst)
    (htunnel : ascii "tunnel" ∉ fields.map Prod.fst) :
    references ((Section.empty type).setAll fields) = [] := by
  rw [references, options_empty_setAll hcrypto, options_empty_setAll htunnel]
  rfl

theorem p1Fields_keys : (p1Fields form texts name).map Prod.fst =
    [ascii "name", ascii "encryption_algorithm", ascii "hash_algorithm", ascii "dh_group"] :=
  rfl

theorem p2Fields_keys : (p2Fields form texts name).map Prod.fst ⊆ [ascii "name",
    ascii "pfs_group", ascii "encryption_algorithm", ascii "authentication_algorithm"] := by
  rw [p2Fields]
  split
  · exact List.Subset.refl _
  · exact cons_subset_cons _ (subset_cons_self _ _)

theorem tunnelRest_keys : (tunnelRest split form texts).map Prod.fst =
    [ascii "key_exchange", ascii "mode", ascii "force_crypto_proposal", ascii "dpd_delay",
      ascii "dpd_action", ascii "dpd_switch", ascii "ikelifetime", ascii "lifetime",
      ascii "aggressive", ascii "cert", ascii "ca", ascii "xauth_mode",
      if form.value "xauth_mode" = some (ascii "server") then ascii "virtual_addr_pool"
      else ascii "remote_subnet", ascii "auto_negotiation"] := by
  rw [tunnelRest]
  by_cases hserver : form.value "xauth_mode" = some (ascii "server")
  · rw [if_pos hserver, if_pos hserver]
    rfl
  · rw [if_neg hserver, if_neg hserver]
    rfl

theorem saveIpsec_p1 : ∃ content, saveIpsec split form texts name old ipsec
    (Kind.p1Proposal.of name) = some content ∧ references content = [] := by
  refine ⟨(Section.empty (ascii "p1_proposal")).setAll (p1Fields form texts name), ?_,
    references_eq_nil ?_ ?_⟩
  · rw [saveIpsec_of_ne, move_of_ne, rewrite_of_ne, rewrite_self] <;> simp [Kind.of_inj]
  · rw [p1Fields_keys]
    decide
  · rw [p1Fields_keys]
    decide

theorem saveIpsec_p2 : ∃ content, saveIpsec split form texts name old ipsec
    (Kind.p2Proposal.of name) = some content ∧ references content = [] := by
  refine ⟨(Section.empty (ascii "p2_proposal")).setAll (p2Fields form texts name), ?_,
    references_eq_nil (fun hmem => ?_) (fun hmem => ?_)⟩
  · rw [saveIpsec_of_ne, move_of_ne, rewrite_self] <;> simp [Kind.of_inj]
  · exact absurd (p2Fields_keys hmem) (by decide)
  · exact absurd (p2Fields_keys hmem) (by decide)

theorem saveIpsec_tunnel (hfresh : old ≠ name → ipsec (Kind.tunnel.of name) = none) :
    ∃ content, saveIpsec split form texts name old ipsec (Kind.tunnel.of name) = some content ∧
      references content = [Kind.p2Proposal.of name] := by
  refine ⟨(Section.empty (ascii "tunnel")).setAll (tunnelFields split form texts name), ?_, ?_⟩
  · rw [saveIpsec_of_ne (by simp [Kind.of_inj]) (by simp [Kind.of_inj]), move_self]
    grind [rewrite_of_ne, Kind.of_inj]
  · have hcrypto : ((Section.empty (ascii "tunnel")).setAll
        (tunnelFields split form texts name)).options (ascii "crypto_proposal") =
          some (.text (Kind.p2Proposal.of name)) := by
      refine Section.setAll_options ?_
      rw [tunnelRest_keys]
      split <;> decide
    have htunnel : ((Section.empty (ascii "tunnel")).setAll
        (tunnelFields split form texts name)).options (ascii "tunnel") = none := by
      refine options_empty_setAll ?_
      change _ ∉ [ascii "local_subnet", ascii "user", ascii "crypto_proposal"] ++
        (tunnelRest split form texts).map Prod.fst
      rw [tunnelRest_keys]
      split <;> decide
    rw [references, hcrypto, htunnel]
    rfl

theorem saveIpsec_remote : ∃ content, saveIpsec split form texts name old ipsec
    (Kind.remote.of name) = some content ∧
      references content = [Kind.p1Proposal.of name, Kind.tunnel.of name] := by
  have hlists (content : Section Bytes) : references (content.setAll (remoteLists name)) =
      [Kind.p1Proposal.of name, Kind.tunnel.of name] := by
    have hcrypto : (content.setAll (remoteLists name)).options (ascii "crypto_proposal") =
        some (.list [Kind.p1Proposal.of name]) :=
      @Section.setAll_options _ _ content [] [listOf "tunnel" [Kind.tunnel.of name]] _ _
        (by change _ ∉ [ascii "tunnel"]; decide)
    have htunnel : (content.setAll (remoteLists name)).options (ascii "tunnel") =
        some (.list [Kind.tunnel.of name]) :=
      @Section.setAll_options _ _ content [listOf "crypto_proposal" [Kind.p1Proposal.of name]] [] _ _
        (by simp)
    rw [references, hcrypto, htunnel]
    rfl
  rw [saveIpsec]
  obtain ⟨content, hcontent, -⟩ := @exists_move_self (move (rewrite (rewrite ipsec
    (ascii "p1_proposal") (Kind.p1Proposal.of name) (p1Fields form texts name))
      (ascii "p2_proposal") (Kind.p2Proposal.of name) (p2Fields form texts name)) (ascii "tunnel")
        (Kind.tunnel.of old) (Kind.tunnel.of name) (tunnelFields split form texts name))
          (ascii "remote") (Kind.remote.of name) (Kind.remote.of old) (remoteFields form name)
  split
  · exact ⟨_, Config.setAll_of_some _ (Config.setAll_of_some _ hcontent), hlists _⟩
  · exact ⟨_, Config.setAll_of_some _ (Config.unset_of_some _ hcontent), hlists _⟩

theorem saveIpsec_old (hne : old ≠ name) :
    saveIpsec split form texts name old ipsec (Kind.tunnel.of old) = none ∧
      saveIpsec split form texts name old ipsec (Kind.remote.of old) = none := by
  have hremote : Kind.remote.of old ≠ Kind.remote.of name := by
    simp [Kind.of_inj, hne]
  constructor
  · rw [saveIpsec_of_ne, move_old] <;> simp [Kind.of_inj, hne]
  · rw [saveIpsec, Config.setAll_of_ne _ hremote]
    grind [Config.setAll_of_ne, move_old, Config.unset_of_ne]

theorem saveIpsec_other (hp1 : other ≠ Kind.p1Proposal.of name)
    (hp2 : other ≠ Kind.p2Proposal.of name) (htunnel : other ≠ Kind.tunnel.of name)
    (hremote : other ≠ Kind.remote.of name) (holdTunnel : other ≠ Kind.tunnel.of old)
    (holdRemote : other ≠ Kind.remote.of old) :
    saveIpsec split form texts name old ipsec other = ipsec other := by
  rw [saveIpsec_of_ne holdRemote hremote, move_of_ne holdTunnel htunnel, rewrite_of_ne hp2,
    rewrite_of_ne hp1]

theorem saveIpsec_new (hfresh : old ≠ name → ipsec (Kind.tunnel.of name) = none) {kind : Kind}
    (hkind : kind ≠ .sainfo) :
    ∃ content, saveIpsec split form texts name old ipsec (kind.of name) = some content ∧
      references content = referencesOf name kind := by
  cases kind with
  | p1Proposal => exact saveIpsec_p1
  | p2Proposal => exact saveIpsec_p2
  | sainfo => exact absurd rfl hkind
  | tunnel => exact saveIpsec_tunnel hfresh
  | remote => exact saveIpsec_remote

theorem saveIpsec_kind {tunnel : Bytes} {kind : Kind} (hne : tunnel ≠ name ∨ kind = .sainfo) :
    saveIpsec split form texts name old ipsec (kind.of tunnel) =
      if tunnel = old ∧ (kind = .tunnel ∨ kind = .remote) then none
      else ipsec (kind.of tunnel) := by
  split
  · next hold =>
      obtain ⟨rfl, rfl | rfl⟩ := hold
      · exact (saveIpsec_old (hne.resolve_right Kind.noConfusion)).1
      · exact (saveIpsec_old (hne.resolve_right Kind.noConfusion)).2
  · next hkept =>
      apply saveIpsec_other <;> rw [ne_eq, Kind.of_inj] <;> rintro ⟨rfl, rfl⟩
      · simp at hne
      · simp at hne
      · simp at hne
      · simp at hne
      · exact hkept ⟨rfl, .inl rfl⟩
      · exact hkept ⟨rfl, .inr rfl⟩

end SaveIpsec

theorem saveIpsecTunnel_saved {split : Bytes → List Bytes} {form : Form} {configs : Configs}
    (hsaved : (saveIpsecTunnel split form configs).1 = .saved) :
    (oldName form ≠ newName form → ¬ configs.IsTunnel (newName form)) ∧
      ∃ texts, (saveIpsecTunnel split form configs).2 =
        ⟨((configs.update.delete (oldName form)).addSection zkTunnel (newName form)).setAll
          (newName form) (updateFields form (newName form)),
          saveIpsec split form texts (newName form) (oldName form) configs.ipsec⟩ := by
  rw [saveIpsecTunnel] at hsaved ⊢
  split at hsaved
  · cases hsaved
  · next hnot =>
      rw [if_neg hnot]
      cases hname : form.value "tunnel_name" with
      | none =>
        rw [hname] at hsaved
        cases hsaved
      | some name =>
        rw [hname] at hsaved hnot
        cases hold : form.value "old_tunnel_name" with
        | none =>
          rw [hold] at hsaved
          dsimp only at hsaved
          split at hsaved <;> cases hsaved
        | some old =>
          rw [hold] at hsaved hnot
          have hnew : newName form = name := by
            rw [newName, hname]
            rfl
          have holdName : oldName form = old := by
            rw [oldName, hold]
            rfl
          rw [hnew, holdName]
          refine ⟨fun hne htunnel => hnot ⟨by simpa using hne, isNameExist_iff.mpr htunnel⟩, ?_⟩
          cases htexts : texts form with
          | none =>
            rw [htexts] at hsaved
            dsimp only at hsaved
            split at hsaved <;> cases hsaved
          | some texts =>
            rw [htexts] at hsaved
            dsimp only at hsaved ⊢
            split at hsaved
            · next hnotEmpty =>
                rw [if_pos hnotEmpty]
                exact ⟨texts, rfl⟩
            · cases hsaved

theorem step_save {split : Bytes → List Bytes} {form : Form} {configs next : Configs}
    (hstep : step split configs (.save form) = some next) :
    (oldName form ≠ newName form → ¬ configs.IsTunnel (newName form)) ∧
      ∃ texts, next = ⟨((configs.update.delete (oldName form)).addSection zkTunnel
        (newName form)).setAll (newName form) (updateFields form (newName form)),
          saveIpsec split form texts (newName form) (oldName form) configs.ipsec⟩ := by
  rw [step] at hstep
  grind [saveIpsecTunnel_saved]

/-- The tunnels and the names whose proposals exist. -/
structure Names where
  (tunnels proposals : Set Bytes)

namespace Names

/-- What a call does to them. -/
def step (names : Names) : Call → Names
  | .save form => ⟨insert (newName form) (names.tunnels \ {oldName form}),
      insert (newName form) names.proposals⟩
  | .delete name => ⟨names.tunnels \ {name}, names.proposals \ {name}⟩

/-- The names that have a section of the kind. -/
def holders (names : Names) : Kind → Set Bytes
  | .p1Proposal => names.proposals
  | .p2Proposal => names.proposals
  | .sainfo => ∅
  | .tunnel => names.tunnels
  | .remote => names.tunnels

end Names

/-- The configurations hold just the sections of these names. -/
structure Tracks (configs : Configs) (names : Names) : Prop where
  tunnels : ∀ name, configs.IsTunnel name ↔ name ∈ names.tunnels
  updates : ∀ name, (configs.update name).isSome → name ∈ names.tunnels
  subset : names.tunnels ⊆ names.proposals
  derived : ∀ name, (configs.ipsec name).isSome → ∃ kind tunnel, name = Kind.of kind tunnel
  holders : ∀ kind tunnel,
    (configs.ipsec (Kind.of kind tunnel)).isSome ↔ tunnel ∈ names.holders kind
  references : ∀ kind tunnel content, configs.ipsec (Kind.of kind tunnel) = some content →
    Configs.references content = referencesOf tunnel kind

section Steps

variable {split : Bytes → List Bytes} {configs next : Configs} {names : Names}

theorem Tracks.save (htracks : Tracks configs names) {form : Form}
    (hstep : step split configs (.save form) = some next) :
    Tracks next (names.step (.save form)) := by
  obtain ⟨hexists, texts, hnext⟩ := step_save hstep
  generalize hname : newName form = name at hexists hnext
  generalize hold : oldName form = old at hexists hnext
  have hupdate : next.update = move configs.update zkTunnel old name (updateFields form name) := by
    rw [hnext]
    rfl
  have hipsec : next.ipsec = saveIpsec split form texts name old configs.ipsec := by
    rw [hnext]
  have hnames : names.step (.save form) =
      ⟨insert name (names.tunnels \ {old}), insert name names.proposals⟩ := by
    rw [Names.step, hname, hold]
  have hfresh : old ≠ name → configs.ipsec (Kind.tunnel.of name) = none := by
    intro hne
    rw [← not_isSome_iff_eq_none, htracks.holders]
    exact (htracks.tunnels name).not.mp (hexists hne)
  -- What is under a derived name, for the new name and for others.
  have hnew {kind : Kind} (hkind : kind ≠ .sainfo) : ∃ content,
      next.ipsec (kind.of name) = some content ∧
        Configs.references content = referencesOf name kind := by
    rw [hipsec]
    exact saveIpsec_new hfresh hkind
  have hother {kind : Kind} {tunnel : Bytes} (hne : tunnel ≠ name ∨ kind = .sainfo) :
      next.ipsec (kind.of tunnel) = if tunnel = old ∧ (kind = .tunnel ∨ kind = .remote) then none
        else configs.ipsec (kind.of tunnel) := by
    rw [hipsec]
    exact saveIpsec_kind hne
  have hat (kind : Kind) (tunnel : Bytes) : (next.ipsec (kind.of tunnel)).isSome ↔
      tunnel ∈ (names.step (.save form)).holders kind := by
    rw [hnames]
    by_cases hnew' : tunnel = name ∧ kind ≠ .sainfo
    · obtain ⟨rfl, hkind⟩ := hnew'
      obtain ⟨content, hcontent, -⟩ := hnew hkind
      rw [hcontent]
      cases kind <;> simp [Names.holders] at hkind ⊢
    · have hne : tunnel ≠ name ∨ kind = .sainfo := by
        tauto
      rw [hother hne]
      have hiff := htracks.holders kind tunnel
      cases kind <;> by_cases hold : tunnel = old <;> simp_all [Names.holders]
  refine ⟨fun other => ?_, fun other hsome => ?_, ?_, fun other hsome => ?_, hat, ?_⟩
  · rw [hnames, Configs.IsTunnel, hupdate, isTunnel_move, ← Configs.IsTunnel, htracks.tunnels]
    simp [and_comm]
  · rw [hnames]
    by_cases hother' : other = name
    · exact .inl hother'
    · rw [hupdate] at hsome
      by_cases hold' : other = old
      · rw [hold', move_old (hold' ▸ hother')] at hsome
        cases hsome
      · rw [move_of_ne hold' hother'] at hsome
        exact .inr ⟨htracks.updates other hsome, hold'⟩
  · rw [hnames]
    exact Set.insert_subset_insert (Set.sdiff_subset.trans htracks.subset)
  · by_contra hkind
    push Not at hkind
    have hsame : next.ipsec other = configs.ipsec other := by
      rw [hipsec]
      apply saveIpsec_other <;> exact hkind _ _
    rw [hsame] at hsome
    obtain ⟨kind, tunnel, heq⟩ := htracks.derived other hsome
    exact hkind kind tunnel heq
  · intro kind tunnel content hcontent
    by_cases hnew' : tunnel = name ∧ kind ≠ .sainfo
    · obtain ⟨rfl, hkind⟩ := hnew'
      obtain ⟨content', hcontent', hreferences⟩ := hnew hkind
      rw [hcontent] at hcontent'
      cases hcontent'
      exact hreferences
    · rw [hother (by tauto)] at hcontent
      split at hcontent
      · cases hcontent
      · exact htracks.references kind tunnel content hcontent

theorem Tracks.delete (htracks : Tracks configs names) (name : Bytes) :
    Tracks (deleteIpsecTunnel name configs) (names.step (.delete name)) := by
  have hgone {kind : Kind} (hkind : kind ≠ .sainfo) :
      (deleteIpsecTunnel name configs).ipsec (kind.of name) = none := by
    cases kind <;> simp [deleteIpsecTunnel, Config.delete, Kind.of_inj] at hkind ⊢
  have hkept {other : Bytes} (hother : ∀ kind ∈ Configs.kinds, other ≠ Kind.of kind name) :
      (deleteIpsecTunnel name configs).ipsec other = configs.ipsec other := by
    simp_all [Configs.kinds, deleteIpsecTunnel, Config.delete_of_ne]
  have hkept' {kind : Kind} {tunnel : Bytes} (hne : tunnel ≠ name ∨ kind = .sainfo) :
      (deleteIpsecTunnel name configs).ipsec (kind.of tunnel) =
        configs.ipsec (kind.of tunnel) := by
    grind [Kind.of_inj, Configs.kinds]
  have hupdate {other : Bytes} (hne : other ≠ name) :
      (deleteIpsecTunnel name configs).update other = configs.update other :=
    Config.delete_of_ne hne
  have hdeleted : (deleteIpsecTunnel name configs).update name = none :=
    Config.delete_self
  refine ⟨fun other => ?_, fun other hsome => ?_, ?_, fun other hsome => ?_,
    fun kind tunnel => ?_, fun kind tunnel content hcontent => ?_⟩
  · by_cases hne : other = name
    · subst hne
      simp [Configs.IsTunnel, hdeleted, Names.step]
    · rw [Configs.IsTunnel, hupdate hne, ← Configs.IsTunnel, htracks.tunnels]
      simp [Names.step, hne]
  · by_cases hne : other = name
    · rw [hne, hdeleted] at hsome
      cases hsome
    · rw [hupdate hne] at hsome
      exact ⟨htracks.updates other hsome, hne⟩
  · exact Set.sdiff_subset_sdiff_left htracks.subset
  · by_contra hkind
    push Not at hkind
    rw [hkept fun kind _ => hkind kind name] at hsome
    obtain ⟨kind, tunnel, heq⟩ := htracks.derived other hsome
    exact hkind kind tunnel heq
  · by_cases hgone' : tunnel = name ∧ kind ≠ .sainfo
    · obtain ⟨rfl, hkind⟩ := hgone'
      rw [hgone hkind]
      cases kind <;> simp [Names.holders, Names.step]
    · rw [hkept' (by tauto), htracks.holders]
      cases kind <;> simp_all [Names.holders, Names.step]
  · by_cases hgone' : tunnel = name ∧ kind ≠ .sainfo
    · obtain ⟨rfl, hkind⟩ := hgone'
      rw [hgone hkind] at hcontent
      cases hcontent
    · rw [hkept' (by tauto)] at hcontent
      exact htracks.references kind tunnel content hcontent

end Steps

section Runs

variable {split : Bytes → List Bytes} {configs next last : Configs} {names : Names}

theorem Tracks.step (htracks : Tracks configs names) {call : Call}
    (hstep : step split configs call = some next) : Tracks next (names.step call) := by
  cases call with
  | save form => exact htracks.save hstep
  | delete name =>
    cases hstep
    exact htracks.delete name

theorem Tracks.run (htracks : Tracks configs names) {calls : List Call}
    (hrun : run split configs calls = some last) : Tracks last (calls.foldl Names.step names) := by
  induction calls generalizing configs names with
  | nil =>
    cases hrun
    exact htracks
  | cons call calls ih =>
    obtain ⟨next, hstep, hrest⟩ := bind_eq_some_iff.mp hrun
    exact ih (htracks.step hstep) hrest

theorem tracks_empty : Tracks empty ⟨∅, ∅⟩ where
  tunnels name := by simp [Configs.IsTunnel, empty]
  updates name hsome := by cases hsome
  subset := Set.Subset.rfl
  derived name hsome := by cases hsome
  holders kind tunnel := by cases kind <;> simp [empty, Names.holders]
  references kind tunnel content hcontent := by cases hcontent

theorem Tracks.matches_iff (htracks : Tracks configs names) :
    configs.Matches ↔ names.proposals ⊆ names.tunnels := by
  constructor
  · intro hmatches name hname
    obtain ⟨tunnel, htunnel, kind, -, heq⟩ :=
      (hmatches.sections (Kind.p1Proposal.of name)).mp ((htracks.holders .p1Proposal name).mpr hname)
    obtain ⟨-, rfl⟩ := Kind.of_inj.mp heq
    exact (htracks.tunnels name).mp htunnel
  · intro hsubset
    have hholders (kind : Kind) (tunnel : Bytes) : tunnel ∈ names.holders kind ↔
        kind ∈ Configs.kinds ∧ tunnel ∈ names.tunnels := by
      have hboth : tunnel ∈ names.proposals ↔ tunnel ∈ names.tunnels :=
        ⟨fun hmem => hsubset hmem, fun hmem => htracks.subset hmem⟩
      cases kind <;> simp [Names.holders, Configs.kinds, hboth]
    refine ⟨fun name => ⟨fun hsome => ?_, ?_⟩, fun name content hcontent reference hmem => ?_⟩
    · obtain ⟨kind, tunnel, rfl⟩ := htracks.derived name hsome
      obtain ⟨hkind, htunnel⟩ := (hholders kind tunnel).mp ((htracks.holders kind tunnel).mp hsome)
      exact ⟨tunnel, (htracks.tunnels tunnel).mpr htunnel, kind, hkind, rfl⟩
    · rintro ⟨tunnel, htunnel, kind, hkind, rfl⟩
      exact (htracks.holders kind tunnel).mpr
        ((hholders kind tunnel).mpr ⟨hkind, (htracks.tunnels tunnel).mp htunnel⟩)
    · have hsome : (configs.ipsec name).isSome := by
        rw [hcontent]
        rfl
      obtain ⟨kind, tunnel, rfl⟩ := htracks.derived name hsome
      have hholds := (htracks.holders kind tunnel).mp hsome
      rw [htracks.references kind tunnel content hcontent] at hmem
      cases kind with
      | p1Proposal => cases hmem
      | p2Proposal => cases hmem
      | sainfo => cases hmem
      | tunnel =>
        obtain rfl := mem_singleton.mp hmem
        exact (htracks.holders .p2Proposal tunnel).mpr (htracks.subset hholds)
      | remote =>
        obtain rfl | hmem := mem_cons.mp hmem
        · exact (htracks.holders .p1Proposal tunnel).mpr (htracks.subset hholds)
        · obtain rfl := mem_singleton.mp hmem
          exact (htracks.holders .tunnel tunnel).mpr hholds

end Runs

/-- A call that deletes the proposals of a name or writes them anew. -/
def Call.Renews (name : Bytes) : Call → Prop
  | .save form => newName form = name
  | .delete other => other = name

/-- A tunnel of that name was renamed, and its name has not been used since. -/
def LeftBehind (split : Bytes → List Bytes) (calls : List Call) (name : Bytes) : Prop :=
  ∃ before form behind configs, calls = before ++ Call.save form :: behind ∧
    run split empty before = some configs ∧ configs.IsTunnel name ∧ oldName form = name ∧
      newName form ≠ name ∧ ∀ call ∈ behind, ¬ call.Renews name

section Histories

variable {split : Bytes → List Bytes} {last : Configs} {calls : List Call} {name : Bytes}

theorem run_concat {configs : Configs} {call : Call}
    (hrun : run split configs (calls ++ [call]) = some last) :
    ∃ middle, run split configs calls = some middle ∧ step split middle call = some last := by
  induction calls generalizing configs with
  | nil =>
    obtain ⟨next, hstep, hrest⟩ := bind_eq_some_iff.mp hrun
    cases hrest
    exact ⟨configs, rfl, hstep⟩
  | cons first calls ih =>
    obtain ⟨next, hstep, hrest⟩ := bind_eq_some_iff.mp hrun
    obtain ⟨middle, hmiddle, hlast⟩ := ih hrest
    exact ⟨middle, bind_eq_some_iff.mpr ⟨next, hstep, hmiddle⟩, hlast⟩

theorem leftBehind_concat {middle : Configs} {call : Call}
    (hmiddle : run split empty calls = some middle) :
    LeftBehind split (calls ++ [call]) name ↔ LeftBehind split calls name ∧ ¬ call.Renews name ∨
      ∃ form, call = .save form ∧ middle.IsTunnel name ∧ oldName form = name ∧
        newName form ≠ name := by
  constructor
  · rintro ⟨before, form, behind, configs, hcalls, hbefore, htunnel, hold, hnew, hbehind⟩
    obtain rfl | ⟨init, final, hconcat⟩ := eq_nil_or_concat behind
    · simp_all
    · rw [concat_eq_append] at hconcat
      subst hconcat
      rw [← cons_append, ← append_assoc] at hcalls
      obtain ⟨rfl, hcall⟩ := append_inj' hcalls rfl
      obtain rfl := singleton_injective hcall
      rw [forall_mem_append, forall_mem_singleton] at hbehind
      exact .inl ⟨⟨before, form, init, configs, rfl, hbefore, htunnel, hold, hnew, hbehind.1⟩,
        hbehind.2⟩
  · rintro (⟨⟨before, form, behind, configs, rfl, hbefore, htunnel, hold, hnew, hbehind⟩, hnot⟩ |
      ⟨form, rfl, htunnel, hold, hnew⟩)
    · refine ⟨before, form, behind ++ [call], configs, by simp, hbefore, htunnel, hold, hnew, ?_⟩
      rw [forall_mem_append, forall_mem_singleton]
      exact ⟨hbehind, hnot⟩
    · exact ⟨calls, form, [], middle, rfl, hmiddle, htunnel, hold, hnew, by simp⟩

theorem mem_sdiff_iff_leftBehind (hrun : run split empty calls = some last) :
    name ∈ (calls.foldl Names.step ⟨∅, ∅⟩).proposals \ (calls.foldl Names.step ⟨∅, ∅⟩).tunnels ↔
      LeftBehind split calls name := by
  induction calls using List.reverseRecOn generalizing last with
  | nil =>
    refine iff_of_false (fun hmem => hmem.1) ?_
    rintro ⟨before, form, behind, configs, hcalls, -⟩
    simp at hcalls
  | append_singleton calls call ih =>
    obtain ⟨middle, hmiddle, hstep⟩ := run_concat hrun
    have htracks := tracks_empty.run hmiddle
    rw [leftBehind_concat hmiddle, ← ih hmiddle, foldl_append, foldl_cons,
      foldl_nil, htracks.tunnels]
    have hsubset := @htracks.subset name
    cases call with
    | save form =>
      grind [Names.step, Call.Renews]
    | delete other =>
      simp only [Names.step, Call.Renews, Set.mem_sdiff, Set.mem_singleton_iff]
      grind

end Histories

namespace IpsecWitness

/-- A form with these two names and all other fields filled in. -/
def formOf (name old : Bytes) : Form := fun key =>
  if key = ascii "tunnel_name" then some name
  else if key = ascii "old_tunnel_name" then some old
  else some (ascii "1")

def splitText (text : Bytes) : List Bytes :=
  [text]

/-- Two tunnels are saved under their own names, and one is deleted. -/
def edits : List Call :=
  [.save (formOf (ascii "a") (ascii "a")), .save (formOf (ascii "b") (ascii "b")),
    .delete (ascii "a")]

/-- A new tunnel is renamed. -/
def rename : List Call :=
  [.save (formOf (ascii "a") []), .save (formOf (ascii "b") (ascii "a"))]

end IpsecWitness

end Ipsec

end Vpn

end WaterWall
