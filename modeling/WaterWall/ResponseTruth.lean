/-
The response that http.lua and access.lua make of what `alloc` leaves: `combine`, and the
error page when `combine` raises an error.
-/
import WaterWall.AccessDispatch
import WaterWall.MessageText

namespace WaterWall

namespace Response

open ByteText MessageText List Option

/-- The order in which `pairs` goes through a table. -/
structure Traversal where
  order : Fields → Fields
  perm : ∀ fields, (order fields).Perm fields

/-- The fields whose values are true; one that `..` does not take raises an error. -/
def emitted : Fields → Option (List (Bytes × Bytes))
  | [] => some []
  | (name, value) :: rest =>
    if value.truthy then do
      let text ← value.concatText
      let entries ← emitted rest
      return (name, text) :: entries
    else emitted rest

def headerText (fields : Fields) : Option Bytes :=
  (emitted fields).map fun entries =>
    entries.flatMap fun entry => entry.1 ++ ascii ": " ++ entry.2 ++ ascii "\r\n"

/-- What `table.concat` makes of the element `content`, which is not there when it is nil. -/
def contentText : LuaValue → Option Bytes
  | .nil => some []
  | content => content.concatText

def closeConnection (fields : Fields) : Fields :=
  fields.put (ascii "Connection") (.string (ascii "close"))

def combine (pairs : Traversal) (x : Exchange) (content : LuaValue) : Option Bytes := do
  let fields ← x.set
  let control ← x.redirectControl
  if control.flag.truthy then
    let location ← control.location.concatText
    let header ← headerText (pairs.order (closeConnection fields))
    return ascii "HTTP/1.1 302 Moved Permanently\r\n" ++
      (ascii "Location: " ++ location ++ ascii "\r\n") ++ header ++ ascii "\r\n"
  else
    let header ← headerText (pairs.order (closeConnection fields))
    let body ← contentText content
    return ascii "HTTP/1.1 200 OK\r\n" ++ header ++ ascii "\r\n" ++ body

def serverErrorInfo (pairs : Traversal) (x : Exchange) (status : LuaValue) : Option Bytes := do
  let (content, x) ← createErrorPage x status
  let fields ← x.set
  let header ← headerText (pairs.order fields)
  return ascii "HTTP/1.1 500 ERROR\r\n" ++ header ++ ascii "\r\n" ++ content

/-- `access` once `alloc` has returned, with the message of an error in `combine`, which has
set the connection field by then.  An error in `serverErrorInfo` leaves no response. -/
def answer (pairs : Traversal) (message : Bytes) (x : Exchange) (content : LuaValue) :
    Option Bytes :=
  match combine pairs x content with
  | some http => some http
  | none => serverErrorInfo pairs { x with set := x.set.map closeConnection } (.string message)

def Redirected (x : Exchange) : Prop :=
  ∃ control, x.redirectControl = some control ∧ control.flag.truthy

/-- The status is the one of the line that is sent, and a redirection has not dropped a body. -/
def Accords (pairs : Traversal) (uri : Bytes) (x : Exchange) (data : LuaValue) : Prop :=
  combine pairs x data = none ∧ x.status = 500 ∨
    combine pairs x data ≠ none ∧
      (Redirected x ∧ x.status = 302 ∧ (uri = ascii "/" ∨ data = .string []) ∨
        ¬ Redirected x ∧ x.status = 200)

/-- The header fields keep to their lines, and none is a content length under another spelling. -/
def CleanFields (fields : Fields) : Prop :=
  ∀ name value text, (name, value) ∈ fields → value.concatText = some text →
    CleanField (name, text) ∧ (SameName name lengthName → name = lengthName)

structure Clean (x : Exchange) : Prop where
  fields : ∀ fields, x.set = some fields → CleanFields fields
  location : ∀ control text, x.redirectControl = some control →
    control.location.concatText = some text → (10 : Byte) ∉ text

section Fields

variable {fields : Fields} {name other : Bytes} {value : LuaValue}

theorem mem_put {entry : Bytes × LuaValue} :
    entry ∈ fields.put name value ↔
      entry = (name, value) ∨ entry.1 ≠ name ∧ entry ∈ fields := by
  simp only [Fields.put, mem_cons, mem_filter, decide_eq_true_eq]
  rw [and_comm]

theorem truthy_of_concatText {text : Bytes} (htext : value.concatText = some text) :
    value.truthy = true := by
  cases value with
  | nil => cases htext
  | boolean value => cases htext
  | number text => rfl
  | string text => rfl
  | table => cases htext

theorem mem_emitted {entries : List (Bytes × Bytes)} (hentries : emitted fields = some entries)
    (entry : Bytes × Bytes) :
    entry ∈ entries ↔ ∃ value, (entry.1, value) ∈ fields ∧ value.concatText = some entry.2 := by
  induction fields generalizing entries with
  | nil =>
    cases hentries
    simp
  | cons first fields ih =>
    obtain ⟨name, value⟩ := first
    rw [emitted] at hentries
    split at hentries
    · obtain ⟨text, htext, hentries⟩ := bind_eq_some_iff.mp hentries
      grind [bind_eq_some_iff]
    · next hfalse =>
        rw [ih hentries]
        refine exists_congr fun value' => and_congr_left fun htext => ?_
        rw [mem_cons, or_iff_right]
        rintro heq
        cases heq
        exact hfalse (truthy_of_concatText htext)

theorem headerText_eq_some {header : Bytes} (hheader : headerText fields = some header) :
    ∃ entries, emitted fields = some entries ∧
      header = (entries.map field).flatMap fun line => line ++ [13, 10] := by
  obtain ⟨entries, hentries, rfl⟩ := map_eq_some_iff.mp hheader
  have hcolon : ascii ": " = [58, 32] := by
    decide
  have hend : ascii "\r\n" = [13, 10] := by
    decide
  refine ⟨entries, hentries, ?_⟩
  rw [flatMap_map, hcolon, hend]
  simp [field]

theorem CleanFields.put (hclean : CleanFields fields)
    (hvalue : ∀ text, value.concatText = some text →
      CleanField (name, text) ∧ (SameName name lengthName → name = lengthName)) :
    CleanFields (fields.put name value) := by
  intro name' value' text hmem htext
  obtain heq | ⟨-, hmem⟩ := mem_put.mp hmem
  · cases heq
    exact hvalue text htext
  · exact hclean name' value' text hmem htext

theorem cleanFields_close (hclean : CleanFields fields) : CleanFields (closeConnection fields) := by
  refine hclean.put ?_
  rintro text ⟨⟩
  exact ⟨⟨by decide, by decide, by decide⟩, fun hsame => absurd hsame (by decide)⟩

/-- The fields have one content length. -/
def Measured (fields : Fields) (length : Nat) : Prop :=
  ∀ value, (lengthName, value) ∈ fields ↔ value = .number (decimal length)

theorem measured_put (fields : Fields) (length : Nat) :
    Measured (fields.put lengthName (.number (decimal length))) length := by
  intro value
  rw [mem_put]
  simp

theorem mem_close {value' : LuaValue} :
    (lengthName, value') ∈ closeConnection fields ↔ (lengthName, value') ∈ fields := by
  have hne : lengthName ≠ ascii "Connection" := by
    decide
  rw [closeConnection, mem_put]
  simp [hne]

theorem Measured.close {length : Nat} (hmeasured : Measured fields length) :
    Measured (closeConnection fields) length := by
  intro value
  rw [mem_close, hmeasured value]

end Fields

section Left

variable {site : Site} {x : Exchange} {data : LuaValue} {ok : Bool}

/-- What `alloc` leaves behind when it returns. -/
inductive Left (uri : Bytes) (x : Exchange) (data : LuaValue) : Prop
  /-- The redirection of `/`, which sets no content length. -/
  | index (huri : uri = ascii "/") (hstatus : x.status = 302) (hredirected : Redirected x)
      (hunset : ∀ fields value, x.set = some fields → (lengthName, value) ∉ fields)
  /-- A static file that is missing. -/
  | missing (hstatus : x.status = 404)
  /-- Data whose length has been set. -/
  | measured (huri : uri ≠ ascii "/") (text : Bytes) (fields : Fields) (hdata : data = .string text)
      (hset : x.set = some fields) (hmeasured : Measured fields text.length)

theorem failWith_left {uri : Bytes} {error : LuaValue} {served : List Served}
    (huri : uri ≠ ascii "/") (hreturned : (failWith x error served).outcome = .returned ok data) :
    Left uri (failWith x error served).x data := by
  rw [failWith] at hreturned ⊢
  cases hpage : createErrorPage x error with
  | none => simp [hpage] at hreturned
  | some page =>
    obtain ⟨content, next⟩ := page
    simp only [hpage, AllocOutcome.returned.injEq] at hreturned ⊢
    obtain ⟨text, -, hrest⟩ := bind_eq_some_iff.mp hpage
    obtain ⟨fields, -, heq⟩ := bind_eq_some_iff.mp hrest
    simp only [pure, Option.some.injEq, Prod.mk.injEq] at heq
    obtain ⟨rfl, rfl⟩ := heq
    exact .measured huri _ _ hreturned.2.symm rfl (measured_put _ _)

theorem finishWith_left {uri : Bytes} {content : LuaValue} {served : List Served}
    (huri : uri ≠ ascii "/")
    (hreturned : (finishWith x content served).outcome = .returned ok data) :
    Left uri (finishWith x content served).x data := by
  rw [finishWith] at hreturned ⊢
  cases hset : x.set with
  | none => simp [hset] at hreturned
  | some fields =>
    cases content with
    | string text =>
      simp only [hset, LuaValue.len, AllocOutcome.returned.injEq] at hreturned ⊢
      exact .measured huri text _ hreturned.2.symm rfl (measured_put _ _)
    | nil => simp [hset, LuaValue.len] at hreturned
    | boolean value => simp [hset, LuaValue.len] at hreturned
    | number text => simp [hset, LuaValue.len] at hreturned
    | table => simp [hset, LuaValue.len] at hreturned

theorem dispatch_left {uri : Bytes} (huri : uri ≠ ascii "/")
    (hreturned : (dispatch site uri x).outcome = .returned ok data) :
    Left uri (dispatch site uri x).x data := by
  rw [dispatch] at hreturned ⊢
  cases hfind : findCgi site.conf uri with
  | some cgiName =>
    grind [failWith_left, finishWith_left]
  | none =>
    simp only [hfind] at hreturned ⊢
    cases hfile : getDataFromStaticFile site uri with
    | raised => simp [hfile] at hreturned
    | missing => exact .missing rfl
    | read path content =>
      simp only [hfile] at hreturned ⊢
      exact finishWith_left huri hreturned

theorem checkAccess_left {uri : Bytes} {result : AllocResult} (huri : uri ≠ ascii "/")
    (hstop : checkAccess site x = .stopped result)
    (hreturned : result.outcome = .returned ok data) : Left uri result.x data := by
  rw [checkAccess] at hstop
  cases haccess : site.conf.accessBy with
  | none => simp [haccess] at hstop
  | some accessBy =>
    simp only [haccess] at hstop
    cases hname : moduleName accessBy with
    | none =>
      simp only [hname, AccessCheck.stopped.injEq] at hstop
      subst hstop
      cases hreturned
    | some name =>
      simp only [hname] at hstop
      cases hload : site.require name with
      | failed error =>
        simp only [hload, AccessCheck.stopped.injEq] at hstop
        subst hstop
        exact failWith_left huri hreturned
      | notTable =>
        simp only [hload, AccessCheck.stopped.injEq] at hstop
        subst hstop
        cases hreturned
      | script main =>
        simp only [hload] at hstop
        rcases hmain : main x with ⟨outcome, after⟩
        cases outcome with
        | returned pass => simp [hmain] at hstop
        | raised error =>
          simp only [hmain, AccessCheck.stopped.injEq] at hstop
          subst hstop
          exact failWith_left huri hreturned

theorem initModule_unset (uri : Bytes) (connection : Option Bytes) (date : Bytes)
    (fields : Fields) (value : LuaValue) (hset : (initModule uri connection date).set = some fields) :
    (lengthName, value) ∉ fields := by
  have hnames : lengthName ≠ ascii "Server" ∧ lengthName ≠ ascii "Connection" ∧
      lengthName ≠ ascii "Accept-Ranges" ∧ lengthName ≠ ascii "Date" := by
    decide
  cases hset
  simp [hnames]

theorem initModule_uri (uri : Bytes) (connection : Option Bytes) (date : Bytes) :
    (initModule uri connection date).uri = uri :=
  rfl

theorem alloc_left (uri : Bytes) (connection : Option Bytes) (date : Bytes)
    (hreturned : (alloc site (initModule uri connection date)).outcome = .returned ok data) :
    Left uri (alloc site (initModule uri connection date)).x data := by
  rw [alloc, initModule_uri] at hreturned ⊢
  by_cases huri : uri = ascii "/"
  · rw [if_pos huri]
    exact .index huri rfl ⟨_, rfl, rfl⟩ (initModule_unset uri connection date)
  · rw [if_neg huri] at hreturned ⊢
    cases hcheck : checkAccess site (initModule uri connection date) with
    | stopped result =>
      simp only [hcheck] at hreturned ⊢
      exact checkAccess_left huri hcheck hreturned
    | answered pass left =>
      simp only [hcheck] at hreturned ⊢
      split at hreturned
      · next hpass =>
          cases hcontrol : left.redirectControl with
          | none => simp [hcontrol] at hreturned
          | some control =>
            simp_all [dispatch_left]
      grind [dispatch_left]

end Left

section Sent

variable {pairs : Traversal} {x : Exchange} {fields : Fields} {entries : List (Bytes × Bytes)}
  {http : Bytes} {data : LuaValue} {status : Nat}

theorem mem_emitted_order (hentries : emitted (pairs.order fields) = some entries)
    (entry : Bytes × Bytes) :
    entry ∈ entries ↔ ∃ value, (entry.1, value) ∈ fields ∧ value.concatText = some entry.2 := by
  rw [mem_emitted hentries]
  refine exists_congr fun value => and_congr_left fun _ => ?_
  exact (pairs.perm fields).mem_iff

theorem emitted_clean (hclean : CleanFields fields)
    (hentries : emitted (pairs.order fields) = some entries) :
    ∀ entry ∈ entries, CleanField entry := by
  intro entry hentry
  obtain ⟨value, hmem, htext⟩ := (mem_emitted_order hentries entry).mp hentry
  exact (hclean entry.1 value entry.2 hmem htext).1

theorem lengths_iff {length size : Nat} (hclean : CleanFields fields)
    (hmeasured : Measured fields length)
    (hentries : emitted (pairs.order fields) = some entries) :
    (∀ entry ∈ entries, SameName entry.1 lengthName → entry.2 = decimal size) ↔
      length = size := by
  constructor
  · intro hall
    have hmem : (lengthName, decimal length) ∈ entries :=
      (mem_emitted_order hentries _).mpr ⟨_, (hmeasured _).mpr rfl, rfl⟩
    exact decimal_injective (hall _ hmem rfl)
  · rintro rfl entry hentry hname
    obtain ⟨value, hmem, htext⟩ := (mem_emitted_order hentries entry).mp hentry
    rw [(hclean entry.1 value entry.2 hmem htext).2 hname, hmeasured] at hmem
    subst hmem
    exact (Option.some.inj htext).symm

theorem lengths_of_unset {size : Nat} (hclean : CleanFields fields)
    (hunset : ∀ value, (lengthName, value) ∉ fields)
    (hentries : emitted (pairs.order fields) = some entries) :
    ∀ entry ∈ entries, SameName entry.1 lengthName → entry.2 = decimal size := by
  intro entry hentry hname
  obtain ⟨value, hmem, htext⟩ := (mem_emitted_order hentries entry).mp hentry
  rw [(hclean entry.1 value entry.2 hmem htext).2 hname] at hmem
  exact absurd hmem (hunset value)

theorem combine_redirected {control : RedirectControl} (hset : x.set = some fields)
    (hcontrol : x.redirectControl = some control) (hflag : control.flag.truthy)
    (hsent : combine pairs x data = some http) :
    ∃ location entries, control.location.concatText = some location ∧
      emitted (pairs.order (closeConnection fields)) = some entries ∧
      http = render (ascii "HTTP/1.1 302 Moved Permanently" ::
        ((ascii "Location", location) :: entries).map field) [] := by
  simp only [combine, hset, hcontrol, bind_eq_bind, bind_some, if_pos hflag] at hsent
  obtain ⟨location, hlocation, hsent⟩ := bind_eq_some_iff.mp hsent
  obtain ⟨header, hheader, hsent⟩ := bind_eq_some_iff.mp hsent
  obtain ⟨entries, hentries, rfl⟩ := headerText_eq_some hheader
  have hparts : ascii "HTTP/1.1 302 Moved Permanently\r\n" =
        ascii "HTTP/1.1 302 Moved Permanently" ++ [13, 10] ∧
      ascii "Location: " = ascii "Location" ++ [58, 32] ∧ ascii "\r\n" = [13, 10] := by
    decide
  refine ⟨location, entries, hlocation, hentries, ?_⟩
  cases hsent
  rw [hparts.1, hparts.2.1, hparts.2.2]
  simp [render, field]

theorem combine_kept {control : RedirectControl} (hset : x.set = some fields)
    (hcontrol : x.redirectControl = some control) (hflag : ¬ control.flag.truthy)
    (hsent : combine pairs x data = some http) :
    ∃ body entries, contentText data = some body ∧
      emitted (pairs.order (closeConnection fields)) = some entries ∧
      http = render (ascii "HTTP/1.1 200 OK" :: entries.map field) body := by
  simp only [combine, hset, hcontrol, bind_eq_bind, bind_some, if_neg hflag] at hsent
  obtain ⟨header, hheader, hsent⟩ := bind_eq_some_iff.mp hsent
  obtain ⟨body, hbody, hsent⟩ := bind_eq_some_iff.mp hsent
  obtain ⟨entries, hentries, rfl⟩ := headerText_eq_some hheader
  simp_all [ascii, render]

theorem serverErrorInfo_sent {message : Bytes}
    (hsent : serverErrorInfo pairs x (.string message) = some http) :
    ∃ fields entries, x.set = some fields ∧
      emitted (pairs.order ((fields.put (ascii "Content-type") (.string (ascii "texthtml"))).put
        lengthName (.number (decimal (errorPageText message).length)))) = some entries ∧
      http = render (ascii "HTTP/1.1 500 ERROR" :: entries.map field) (errorPageText message) := by
  obtain ⟨⟨content, next⟩, hpage, hsent⟩ := bind_eq_some_iff.mp hsent
  obtain ⟨fields, hset, hpage⟩ := bind_eq_some_iff.mp hpage
  cases hpage
  obtain ⟨after, hafter, hsent⟩ := bind_eq_some_iff.mp hsent
  cases hafter
  obtain ⟨header, hheader, hsent⟩ := bind_eq_some_iff.mp hsent
  obtain ⟨entries, hentries, rfl⟩ := headerText_eq_some hheader
  have hparts : ascii "HTTP/1.1 500 ERROR\r\n" = ascii "HTTP/1.1 500 ERROR" ++ [13, 10] ∧
      ascii "\r\n" = [13, 10] := by
    decide
  refine ⟨fields, entries, hset, hentries, ?_⟩
  cases hsent
  rw [hparts.1, hparts.2]
  simp [render]

theorem truthful_redirected {location : Bytes} (hclean : CleanFields (closeConnection fields))
    (hlocation : (10 : Byte) ∉ location)
    (hentries : emitted (pairs.order (closeConnection fields)) = some entries) :
    Truthful status (render (ascii "HTTP/1.1 302 Moved Permanently" ::
        ((ascii "Location", location) :: entries).map field) []) ↔
      status = 302 ∧ ∀ entry ∈ entries, SameName entry.1 lengthName → entry.2 = decimal 0 := by
  have hname : (10 : Byte) ∉ ascii "Location" ∧ (58 : Byte) ∉ ascii "Location" := by
    decide
  have hfirst : CleanField (ascii "Location", location) :=
    ⟨hname.1, hname.2, hlocation⟩
  have hcode : statusCode (ascii "HTTP/1.1 302 Moved Permanently") = 302 := by
    decide
  have hother : ¬ SameName (ascii "Location") lengthName := by
    decide
  rw [truthful_render_iff (by simp [ascii]) (by decide)
    (forall_mem_cons.mpr ⟨hfirst, emitted_clean hclean hentries⟩), hcode, eq_comm,
    forall_mem_cons]
  grind

theorem truthful_kept {body : Bytes} (hclean : CleanFields (closeConnection fields))
    (hentries : emitted (pairs.order (closeConnection fields)) = some entries) :
    Truthful status (render (ascii "HTTP/1.1 200 OK" :: entries.map field) body) ↔
      status = 200 ∧
        ∀ entry ∈ entries, SameName entry.1 lengthName → entry.2 = decimal body.length := by
  have hcode : statusCode (ascii "HTTP/1.1 200 OK") = 200 := by
    decide
  rw [truthful_render_iff (by simp [ascii]) (by decide) (emitted_clean hclean hentries), hcode,
    eq_comm]

theorem truthful_error {message : Bytes} (hclean : ∀ fields, x.set = some fields → CleanFields fields)
    (hsent : serverErrorInfo pairs x (.string message) = some http) :
    Truthful status http ↔ status = 500 := by
  obtain ⟨fields, entries, hset, hentries, rfl⟩ := serverErrorInfo_sent hsent
  have hpage : CleanFields ((fields.put (ascii "Content-type") (.string (ascii "texthtml"))).put
      lengthName (.number (decimal (errorPageText message).length))) := by
    have hname : (10 : Byte) ∉ lengthName ∧ (58 : Byte) ∉ lengthName := by
      decide
    refine ((hclean fields hset).put ?_).put ?_
    · rintro text ⟨⟩
      exact ⟨⟨by decide, by decide, by decide⟩, fun hsame => absurd hsame (by decide)⟩
    · rintro text ⟨⟩
      exact ⟨⟨hname.1, hname.2, not_mem_decimal (by decide) _⟩, fun _ => rfl⟩
  have hcode : statusCode (ascii "HTTP/1.1 500 ERROR") = 500 := by
    decide
  rw [truthful_render_iff (by simp [ascii]) (by decide) (emitted_clean hpage hentries), hcode,
    lengths_iff hpage (measured_put _ _) hentries, eq_comm]
  simp

end Sent

namespace ResponseWitness

/-- No access script, and one page. -/
def site : Site where
  conf := { shippedConf with accessBy := none }
  require := fun _ => .failed .nil
  fileExist := fun path => path = shippedConf.staticFileRoot ++ ascii "/a.html"
  fileOpen := fun _ => some (some (ascii "page"))

def date : Bytes := ascii "Sun, 01 Jan 2017, 00:00:00 GMT"

def request (uri : String) : Exchange :=
  initModule (ascii uri) none date

def inOrder : Traversal where
  order := id
  perm := List.Perm.refl

def sentFields : Fields :=
  [(ascii "Content-Length", .number (ascii "4")), (ascii "Content-type", .string (ascii "text/html")),
    (ascii "Server", .string (ascii "X-server/1.0 by miaomiao")),
    (ascii "Connection", .string (ascii "close")), (ascii "Accept-Ranges", .string (ascii "bytes")),
    (ascii "Date", .string date)]

theorem alloc_page : alloc site (request "/a.html") =
    ⟨.returned true (.string (ascii "page")),
      ⟨ascii "/a.html", 200, some sentFields, some ⟨.nil, .nil⟩⟩,
      [.readFile (shippedConf.staticFileRoot ++ ascii "/a.html")]⟩ := by
  decide +kernel

theorem clean_page : Clean (alloc site (request "/a.html")).x := by
  rw [alloc_page]
  constructor
  · rintro fields ⟨⟩ name value text hmem htext
    simp only [sentFields, mem_cons, Prod.mk.injEq, not_mem_nil, or_false] at hmem
    obtain ⟨rfl, rfl⟩ | ⟨rfl, rfl⟩ | ⟨rfl, rfl⟩ | ⟨rfl, rfl⟩ | ⟨rfl, rfl⟩ | ⟨rfl, rfl⟩ := hmem <;>
      cases htext <;> exact ⟨⟨by decide, by decide, by decide +kernel⟩, by decide⟩
  · rintro control text ⟨⟩ ⟨⟩

def missingLines : List Bytes :=
  [ascii "Connection: close", ascii "Server: X-server/1.0 by miaomiao",
    ascii "Accept-Ranges: bytes", ascii "Date: " ++ date]

end ResponseWitness

end Response

end WaterWall
