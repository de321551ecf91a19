/-
save_client_config of vpn.lua: the settings of the PPTP client are written by shell
commands, with the values of the form put between single quotes as they are.
-/
import WaterWall.ShellWords
import WaterWall.VpnForms

namespace WaterWall

namespace Vpn

namespace Pptp

open ByteText ShellWords List

/-- A command: a fixed text, or the setting of an option to a value that is not nil. -/
inductive Entry where
  | fixed (text : String)
  | setting (key : String) (value : Option Bytes)

namespace Entry

/-- The text for the shell; `..` raises an error for a value that is nil. -/
def text : Entry → Option Bytes
  | .fixed text => some (ascii text)
  | .setting key value => value.map fun value =>
    ascii "uci set network.vpn." ++ ascii key ++ ascii "='" ++ value ++ ascii "'"

/-- The command that is meant. -/
def command : Entry → List Bytes
  | .fixed text => (ascii text).splitOn 32
  | .setting key value => [ascii "uci", ascii "set",
      ascii "network.vpn." ++ ascii key ++ ascii "=" ++ value.getD []]

end Entry

/-- `disabled`, which is a global number. -/
def disabledText (form : Form) : Bytes :=
  if form.value "useState" = some (ascii "disabled") then ascii "1" else ascii "0"

def entries (form : Form) : List Entry :=
  [.fixed "uci set network.vpn=interface",
    .setting "proto" (some (ascii "pptp")),
    .setting "keepalive" (some (ascii "10 10")),
    .setting "ipv6" (some (ascii "0")),
    .setting "username" (form.value "username"),
    .setting "password" (form.value "userpwd"),
    .setting "server" (form.value "serverIp"),
    .setting "defaultroute" (some (ascii "0")),
    .setting "peerdns" (form.value "serdns"),
    .setting "disabled" (some (disabledText form)),
    .setting "auto" (some (ascii "1")),
    .setting "remotenet" (form.value "remote_net"),
    .setting "remotemask" (form.value "remote_mask"),
    .fixed "uci commit network"]

/-- The form is complete enough to be saved. -/
def isSaved (form : Form) : Bool :=
  isNotEmpty (form.value "useState") && (form.value "useState" = some (ascii "disabled") ||
    isNotEmpty (form.value "serverIp") && isNotEmpty (form.value "username") &&
      isNotEmpty (form.value "userpwd"))

/-- The lines that `luci.sys.exec` gives to the shell, each up to a NUL, until a value is nil. -/
def saveClientConfig (form : Form) : List Bytes :=
  if isSaved form then
    ((((entries form).map Entry.text).takeWhile Option.isSome).reduceOption).map cstr
  else []

/-- The six values of the form that go into a command. -/
structure Values where
  (username userpwd serverIp serdns remoteNet remoteMask : CString)

namespace Values

def all (values : Values) : List CString :=
  [values.username, values.userpwd, values.serverIp, values.serdns, values.remoteNet,
    values.remoteMask]

/-- The form has these values. -/
structure In (values : Values) (form : Form) : Prop where
  username : form.value "username" = some values.username.text
  userpwd : form.value "userpwd" = some values.userpwd.text
  serverIp : form.value "serverIp" = some values.serverIp.text
  serdns : form.value "serdns" = some values.serdns.text
  remoteNet : form.value "remote_net" = some values.remoteNet.text
  remoteMask : form.value "remote_mask" = some values.remoteMask.text

end Values

/-- Every line is one simple command, and the one that is meant. -/
def Faithful (form : Form) : Prop :=
  (saveClientConfig form).map simpleCommand =
    if isSaved form then (entries form).map fun entry => some entry.command else []

/-- The keys of the settings. -/
def keys : List String :=
  ["proto", "keepalive", "ipv6", "username", "password", "server", "defaultroute", "peerdns",
    "disabled", "auto", "remotenet", "remotemask"]

/-- An entry with a key of these and a value without a NUL. -/
def Entry.Good : Entry → Prop
  | .fixed text => (0 : Byte) ∉ ascii text ∧
      simpleCommand (ascii text) = some (Entry.fixed text).command
  | .setting key value => key ∈ keys ∧ ∃ text : CString, value = some text.text

/-- No single quote in the value. -/
def Entry.QuoteFree : Entry → Prop
  | .fixed _ => True
  | .setting _ value => (39 : Byte) ∉ value.getD []

section Lines

variable {form : Form} {values : Values}

theorem keys_ordinary {key : String} (hkey : key ∈ keys) :
    ∀ char ∈ ascii "network.vpn." ++ ascii key ++ ascii "=", isOrdinary char := by
  have hall : ∀ key ∈ keys, ∀ char ∈ ascii "network.vpn." ++ ascii key ++ ascii "=",
      isOrdinary char := by
    simp only [forall_mem_append]
    simp [keys, ascii, isOrdinary, isOperator, isExpansion]
  exact hall key hkey

theorem setting_text (key : String) (value : Bytes) :
    ascii "uci set network.vpn." ++ ascii key ++ ascii "='" ++ value ++ ascii "'" =
      ascii "uci" ++ 32 :: (ascii "set" ++ 32 ::
        ((ascii "network.vpn." ++ ascii key ++ ascii "=") ++ 39 :: (value ++ [39]))) := by
  simp [ascii]

theorem setting_noNul {key : String} (hkey : key ∈ keys) (value : CString) :
    (0 : Byte) ∉ ascii "uci set network.vpn." ++ ascii key ++ ascii "='" ++ value.text ++
      ascii "'" := by
  have hkeys : ∀ key ∈ keys, (0 : Byte) ∉ ascii key := by
    decide
  have hrest : (0 : Byte) ∉ ascii "uci set network.vpn." ∧ (0 : Byte) ∉ ascii "='" ∧
      (0 : Byte) ∉ ascii "'" := by
    decide
  simp_all [CString.noNul]

theorem simpleCommand_text {entry : Entry} (hgood : entry.Good) :
    simpleCommand (cstr (entry.text.getD [])) = some entry.command ↔ entry.QuoteFree := by
  cases entry with
  | fixed text =>
    obtain ⟨hnul, hcommand⟩ := hgood
    change simpleCommand (cstr (ascii text)) = _ ↔ _
    rw [cstr_eq_self hnul]
    exact iff_of_true hcommand trivial
  | setting key value =>
    obtain ⟨hkey, text, rfl⟩ := hgood
    simp only [Entry.text, Option.map_some, Option.getD_some]
    rw [cstr_eq_self (setting_noNul hkey text), setting_text]
    refine simpleCommand_quoted_iff ?_ ?_ ?_ ?_ ?_ (keys_ordinary hkey)
    · decide
    · decide +kernel
    · decide
    · decide +kernel
    · simp [ascii]

theorem disabledText_eq (form : Form) :
    disabledText form = ascii "1" ∨ disabledText form = ascii "0" := by
  rw [disabledText]
  split
  · exact .inl rfl
  · exact .inr rfl

theorem entries_good (hvalues : values.In form) : ∀ entry ∈ entries form, entry.Good := by
  have hfixed {key : String} (hkey : key ∈ keys) {text : Bytes} (htext : (0 : Byte) ∉ text) :
      (Entry.setting key (some text)).Good :=
    ⟨hkey, ⟨text, htext⟩, rfl⟩
  have hdisabled : (0 : Byte) ∉ disabledText form := by
    obtain htext | htext := disabledText_eq form <;> rw [htext] <;> decide
  simp only [entries, forall_mem_cons]
  refine ⟨⟨by decide, by decide +kernel⟩, hfixed (by decide) (by decide),
    hfixed (by decide) (by decide), hfixed (by decide) (by decide),
    ⟨by decide, values.username, hvalues.username⟩, ⟨by decide, values.userpwd, hvalues.userpwd⟩,
    ⟨by decide, values.serverIp, hvalues.serverIp⟩, hfixed (by decide) (by decide),
    ⟨by decide, values.serdns, hvalues.serdns⟩, hfixed (by decide) hdisabled,
    hfixed (by decide) (by decide), ⟨by decide, values.remoteNet, hvalues.remoteNet⟩,
    ⟨by decide, values.remoteMask, hvalues.remoteMask⟩, ⟨by decide, by decide +kernel⟩, by simp⟩

theorem quoteFree_iff (hvalues : values.In form) :
    (∀ entry ∈ entries form, entry.QuoteFree) ↔
      ∀ value ∈ values.all, (39 : Byte) ∉ value.text := by
  have hdisabled : (39 : Byte) ∉ disabledText form := by
    obtain htext | htext := disabledText_eq form <;> rw [htext] <;> decide
  have hfixed : (39 : Byte) ∉ ascii "pptp" ∧ (39 : Byte) ∉ ascii "10 10" ∧
      (39 : Byte) ∉ ascii "0" ∧ (39 : Byte) ∉ ascii "1" := by
    decide
  simp [entries, Values.all, Entry.QuoteFree, hvalues.username, hvalues.userpwd,
    hvalues.serverIp, hvalues.serdns, hvalues.remoteNet, hvalues.remoteMask, hdisabled, hfixed]

theorem lines_eq (hgood : ∀ entry ∈ entries form, entry.Good) :
    (((entries form).map Entry.text).takeWhile Option.isSome).reduceOption =
      (entries form).map fun entry => entry.text.getD [] := by
  have htexts : (entries form).map Entry.text =
      (entries form).map (some ∘ fun entry => entry.text.getD []) := by
    rw [map_inj_left]
    intro entry hentry
    cases entry with
    | fixed text => rfl
    | setting key value =>
      obtain ⟨-, text, rfl⟩ := hgood _ hentry
      rfl
  have hall : ((entries form).map Entry.text).takeWhile Option.isSome =
      (entries form).map Entry.text := by
    rw [takeWhile_eq_self_iff, htexts]
    simp
  rw [hall, htexts, List.reduceOption, filterMap_map]
  exact congrFun filterMap_eq_map' _

theorem Faithful.ne_none (hfaithful : Faithful form) {line : Bytes}
    (hline : line ∈ saveClientConfig form) : simpleCommand line ≠ none := by
  intro hnone
  have hmem : none ∈ (saveClientConfig form).map simpleCommand :=
    mem_map.mpr ⟨line, hline, hnone⟩
  rw [hfaithful] at hmem
  split at hmem <;> simp at hmem

end Lines

namespace PptpWitness

theorem address_noNul : (0 : Byte) ∉ ascii "10.0.0.1" := by
  decide

def address : CString := ⟨ascii "10.0.0.1", address_noNul⟩

/-- The client is enabled with a user name and otherwise plain values. -/
def formOf (username : CString) : Form := fun key =>
  if key = ascii "username" then some username.text
  else if key = ascii "useState" then some (ascii "enable")
  else some address.text

def valuesOf (username : CString) : Values where
  username := username
  userpwd := address
  serverIp := address
  serdns := address
  remoteNet := address
  remoteMask := address

theorem valuesOf_in (username : CString) : (valuesOf username).In (formOf username) where
  username := rfl
  userpwd := rfl
  serverIp := rfl
  serdns := rfl
  remoteNet := rfl
  remoteMask := rfl

theorem plain_noNul : (0 : Byte) ∉ ascii "li lin;$x" := by
  decide

def plain : CString := ⟨ascii "li lin;$x", plain_noNul⟩

theorem reboot_noNul : (0 : Byte) ∉ ascii "'; reboot; '" := by
  decide

def reboot : CString := ⟨ascii "'; reboot; '", reboot_noNul⟩

end PptpWitness

end Pptp

end Vpn

end WaterWall
