/-
The HTTP dispatcher of alloc.lua: the access script, the table of CGI scripts and
the static files.  Scripts are arbitrary functions of the table `x`, so whatever
holds here holds for every script that keeps to its own `x`.
-/
import WaterWall.ByteText

namespace WaterWall

open ByteText

/-- The Lua values that `alloc` tells apart.  A number is kept as the text it is
concatenated with. -/
inductive LuaValue where
  | nil
  | boolean (value : Bool)
  | number (text : Bytes)
  | string (text : Bytes)
  | table
  deriving DecidableEq, Repr

namespace LuaValue

/-- Everything but `nil` and `false` counts as true. -/
def truthy : LuaValue → Bool
  | .nil => false
  | .boolean value => value
  | _ => true

/-- The operand of `..`; other values raise an error. -/
def concatText : LuaValue → Option Bytes
  | .number text => some text
  | .string text => some text
  | _ => none

/-- `value:len()`; only strings have the method. -/
def len : LuaValue → Option Nat
  | .string text => some text.length
  | _ => none

end LuaValue

/-- A Lua table with string keys. -/
abbrev Fields : Type :=
  List (Bytes × LuaValue)

namespace Fields

def get (fields : Fields) (name : Bytes) : LuaValue :=
  (fields.lookup name).getD .nil

def put (fields : Fields) (name : Bytes) (value : LuaValue) : Fields :=
  (name, value) :: fields.filter fun field => field.1 ≠ name

end Fields

structure RedirectControl where
  flag : LuaValue
  location : LuaValue
  deriving DecidableEq, Repr

/-- The table `x` of a request.  A script can set `x.set` and
`x.redirectControl` to `nil`. -/
structure Exchange where
  /-- What `x.req.get_uri()` returns. -/
  uri : Bytes
  status : Nat
  set : Option Fields
  redirectControl : Option RedirectControl
  deriving DecidableEq, Repr

def initModule (uri : Bytes) (connection : Option Bytes) (date : Bytes) : Exchange where
  uri := uri
  status := 200
  set := some
    [(ascii "Server", .string (ascii "X-server/1.0 by miaomiao")),
      (ascii "Connection", .string (connection.getD (ascii "close"))),
      (ascii "Accept-Ranges", .string (ascii "bytes")),
      (ascii "Date", .string date)]
  redirectControl := some ⟨.nil, .nil⟩

/-- `none` is an error: `self.redirectControl` is no table. -/
def redirect (x : Exchange) (uri : Bytes) : Option Exchange :=
  x.redirectControl.map fun _ =>
    { x with redirectControl := some ⟨.boolean true, .string uri⟩, status := 302 }

/-- What a call under `pcall` comes to. -/
inductive CallOutcome where
  | returned (value : LuaValue)
  | raised (error : LuaValue)
  deriving DecidableEq, Repr

abbrev Main : Type :=
  Exchange → CallOutcome × Exchange

/-- What `require` comes to.  A module without a `main` has one that raises; a
value that is no table cannot be indexed with `main` at all. -/
inductive Loaded where
  | failed (error : LuaValue)
  | notTable
  | script (main : Main)

structure Conf where
  index : Option Bytes
  staticFileRoot : Bytes
  accessBy : Option Bytes
  locationByLuaScript : List (Bytes × Bytes)
  deriving DecidableEq, Repr

/-- The configuration, the scripts and the files of a server. -/
structure Site where
  conf : Conf
  require : Bytes → Loaded
  /-- `pub.fileExist`. -/
  fileExist : Bytes → Bool
  /-- The second `io.open`, in `pub.fileRead`, and what `file:read` returns:
  `nil` for a directory. -/
  fileOpen : Bytes → Option (Option Bytes)

/-- What a request has made the server do. -/
inductive Served where
  | cgiMain (name : Bytes)
  | readFile (path : Bytes)
  deriving DecidableEq, Repr

/-- `alloc` returns `ok, data`, or raises an error of its own. -/
inductive AllocOutcome where
  | returned (ok : Bool) (data : LuaValue)
  | raised
  deriving DecidableEq, Repr

structure AllocResult where
  outcome : AllocOutcome
  x : Exchange
  served : List Served
  deriving DecidableEq, Repr

section ContentType

/-- `%w`. -/
def isAlnum (byte : Byte) : Bool :=
  (48 ≤ byte && byte ≤ 57) || (65 ≤ byte && byte ≤ 90) || (97 ≤ byte && byte ≤ 122)

def afterLastDot : Bytes → Option Bytes
  | [] => none
  | byte :: rest =>
    match afterLastDot rest with
    | some tail => some tail
    | none => if byte = 46 then some rest else none

/-- `string.match(fileName, "%.(%w+)[^%.]*$")`: no dot may follow the one that is
matched, so it is the last one. -/
def matchSuffix (fileName : Bytes) : Option Bytes :=
  match afterLastDot fileName with
  | none => none
  | some tail =>
    let suffix := tail.takeWhile isAlnum
    if suffix = [] then none else some suffix

def contentTypes : List (String × String) :=
  [("html", "text/html"), ("htm", "text/html"), ("shtml", "text/html"),
    ("css", "text/css"), ("xml", "text/xml"), ("gif", "image/gif"),
    ("jpg", "image/jpeg"), ("jpeg", "image/jpeg"),
    ("js", "application/javascript"), ("atom", "application/atom+xml"),
    ("rss", "application/rss+xml"), ("mml", "text/mathml"), ("txt", "text/plain"),
    ("data", "text/plain"), ("jad", "text/vnd.sun.j2me.app-descriptor"),
    ("wml", "text/vnd.wap.wml"), ("htc", "text/x-component"), ("png", "image/png"),
    ("tif", "image/tiff"), ("tiff", "image/tiff"), ("wbmp", "image/vnd.wap.wbmp"),
    ("ico", "image/x-icon"), ("jng", "image/x-jng"), ("bmp", "image/x-ms-bmp"),
    ("svg", "image/svg+xml"), ("svgz", "image/svg+xml"), ("webp", "image/webp"),
    ("woff", "application/font-woff"), ("jar", "application/java-archive"),
    ("war", "application/java-archive"), ("ear", "application/java-archive"),
    ("json", "application/json"), ("hqx", "application/mac-binhex40"),
    ("doc", "application/msword"), ("pdf", "application/pdf"),
    ("ps", "application/postscript"), ("eps", "application/postscript"),
    ("ai", "application/postscript"), ("rtf", "application/rtf"),
    ("m3u8", "application/vnd.apple.mpegurl"), ("xls", "application/vnd.ms-excel"),
    ("eot", "application/vnd.ms-fontobject"), ("ppt", "application/vnd.ms-powerpoint"),
    ("wmlc", "application/vnd.wap.wmlc"),
    ("kml", "application/vnd.google-earth.kml+xml"),
    ("kmz", "application/vnd.google-earth.kmz"),
    ("7z", "application/x-7z-compressed"), ("cco", "application/x-cocoa"),
    ("jardiff", "application/x-java-archive-diff"),
    ("jnlp", "application/x-java-jnlp-file"), ("default", "application/octet-stream")]

def contentTypeOf (suffix : Bytes) : Option Bytes :=
  (contentTypes.find? fun entry => ascii entry.1 = suffix).map fun entry => ascii entry.2

def getContentType (fileName : Bytes) : Bytes :=
  let default := ascii "application/octet-stream"
  match matchSuffix fileName with
  | some suffix => (contentTypeOf suffix).getD default
  | none => default

end ContentType

section Alloc

variable (site : Site)

/-- Where the pattern `.lua` first matches; its dot stands for any byte. -/
def findLua : Bytes → Option Nat
  | [] => none
  | _ :: rest =>
    if ascii "lua" <+: rest then some 0 else (findLua rest).map (· + 1)

/-- `name:sub(1, name:find(".lua") - 1)`; an error when nothing matches. -/
def moduleName (name : Bytes) : Option Bytes :=
  (findLua name).map fun pos => name.take pos

def findCgi (conf : Conf) (fileName : Bytes) : Option Bytes :=
  conf.locationByLuaScript.lookup fileName

def errorPageText (status : Bytes) : Bytes :=
  ascii "<html><body bgcolor=\"white\"><title>500 Internal Server Error</title><style>body" ++
    ascii "\x7bnargin:auto;font-family:Tahoma, Geneva, sans-serif;\x7d</style>" ++
    ascii "<h1 align=\"center\">500 Internal Server Error</h1>" ++
    ascii "<hr><p align=\"center\">Error Info:" ++ status ++ ascii "</p></body></html>"

/-- The escape in `"text\html"` is an `h`. -/
def createErrorPage (x : Exchange) (status : LuaValue) : Option (Bytes × Exchange) := do
  let text ← status.concatText
  let fields ← x.set
  let content := errorPageText text
  let fields := fields.put (ascii "Content-type") (.string (ascii "texthtml"))
  let fields := fields.put (ascii "Content-Length") (.number (decimal content.length))
  return (content, { x with set := some fields })

/-- `ok = ok and true or not ok`. -/
def settled (ok : Bool) : Bool :=
  ok && true || !ok

/-- The error page, status 500, and `break`. -/
def failWith (x : Exchange) (error : LuaValue) (served : List Served) : AllocResult :=
  match createErrorPage x error with
  | none => ⟨.raised, x, served⟩
  | some (content, x) =>
    ⟨.returned (settled false) (.string content), { x with status := 500 }, served⟩

/-- Sets the content type, unless a script has, and the content length. -/
def finishWith (x : Exchange) (data : LuaValue) (served : List Served) : AllocResult :=
  match x.set with
  | none => ⟨.raised, x, served⟩
  | some fields =>
    let fields :=
      if (fields.get (ascii "Content-type")).truthy then fields
      else fields.put (ascii "Content-type") (.string (getContentType x.uri))
    match data.len with
    | none => ⟨.raised, { x with set := some fields }, served⟩
    | some length =>
      let fields := fields.put (ascii "Content-Length") (.number (decimal length))
      ⟨.returned true data, { x with set := some fields }, served⟩

inductive StaticFile where
  | raised
  | missing
  | read (path : Bytes) (data : Option Bytes)
  deriving DecidableEq, Repr

def getDataFromStaticFile (fileName : Bytes) : StaticFile :=
  match (if fileName = ascii "/" then site.conf.index else some fileName) with
  | none => .raised
  | some fileName =>
    let fullFileName := site.conf.staticFileRoot ++ fileName
    if site.fileExist fullFileName then
      match site.fileOpen fullFileName with
      | none => .missing
      | some data => .read fullFileName data
    else .missing

/-- `alloc` from `cgi.findCgi` on. -/
def dispatch (fileName : Bytes) (x : Exchange) : AllocResult :=
  match findCgi site.conf fileName with
  | some cgiName =>
    match moduleName cgiName with
    | none => ⟨.raised, x, []⟩
    | some name =>
      match site.require name with
      | .failed error => failWith x error []
      | .notTable => ⟨.raised, x, []⟩
      | .script main =>
        match main x with
        | (.raised error, x) => failWith x error [.cgiMain name]
        | (.returned data, x) => finishWith x data [.cgiMain name]
  | none =>
    match getDataFromStaticFile site fileName with
    | .raised => ⟨.raised, x, []⟩
    | .missing => ⟨.returned (settled false) .nil, { x with status := 404 }, []⟩
    | .read path data =>
      finishWith { x with status := 200 }
        (match data with | some text => .string text | none => .nil) [.readFile path]

/-- The access check: it ends `alloc`, or answers with `pass` and the `x` that
the script leaves. -/
inductive AccessCheck where
  | stopped (result : AllocResult)
  | answered (pass : LuaValue) (x : Exchange)

def checkAccess (x : Exchange) : AccessCheck :=
  match site.conf.accessBy with
  | none => .answered (.boolean true) x
  | some accessBy =>
    match moduleName accessBy with
    | none => .stopped ⟨.raised, x, []⟩
    | some name =>
      match site.require name with
      | .failed error => .stopped (failWith x error [])
      | .notTable => .stopped ⟨.raised, x, []⟩
      | .script main =>
        match main x with
        | (.raised error, x) => .stopped (failWith x error [])
        | (.returned pass, x) => .answered pass x

/-- A refusal sets the status 403 and goes on; a redirection goes on as it is,
and asking for its flag is an error when `x.redirectControl` is gone. -/
def alloc (x : Exchange) : AllocResult :=
  let fileName := x.uri
  if fileName = ascii "/" then
    match redirect x (site.conf.index.getD (ascii "/index.html")) with
    | none => ⟨.raised, x, []⟩
    | some x => ⟨.returned true .nil, x, []⟩
  else
    match checkAccess site x with
    | .stopped result => result
    | .answered pass x =>
      if pass.truthy then
        match x.redirectControl with
        | none => ⟨.raised, x, []⟩
        | some _ => dispatch site fileName x
      else dispatch site fileName { x with status := 403 }

end Alloc

/-- The access script refuses the request, or redirects it. -/
def Denied (site : Site) (x : Exchange) : Prop :=
  ∃ pass left, checkAccess site x = .answered pass left ∧
    (pass.truthy = false ∨
      ∃ control, left.redirectControl = some control ∧ control.flag.truthy = true)

def Loaded.SameUpToMain : Loaded → Loaded → Prop
  | .failed error, .failed error' => error = error'
  | .notTable, .notTable => True
  | .script _, .script _ => True
  | _, _ => False

/-- Two sites with the same configuration and the same access script, the same
loadable modules and the same readable files.  What the other mains do and what
the files hold is not compared. -/
structure SameAccess (site other : Site) : Prop where
  conf : other.conf = site.conf
  access : ∀ x, checkAccess other x = checkAccess site x
  modules : ∀ name, (site.require name).SameUpToMain (other.require name)
  exist : ∀ path, other.fileExist path = site.fileExist path
  open_iff : ∀ path, (other.fileOpen path).isSome = (site.fileOpen path).isSome

/-- No CGI script's main is called, no static file is read, and what `alloc`
returns does not depend on what they would have produced. -/
def NothingServed (site : Site) (x : Exchange) : Prop :=
  (alloc site x).served = [] ∧
    ∀ other, SameAccess site other → (alloc other x).outcome = (alloc site x).outcome

/-- There is nothing to serve under the URI: its script cannot be loaded, or it
has no script and no static file can be opened. -/
def Unavailable (site : Site) (uri : Bytes) : Prop :=
  match findCgi site.conf uri with
  | some cgiName =>
    ∀ name, moduleName cgiName = some name → ∀ main, site.require name ≠ .script main
  | none =>
    site.fileExist (site.conf.staticFileRoot ++ uri) = false ∨
      site.fileOpen (site.conf.staticFileRoot ++ uri) = none

section Dispatching

variable {site other : Site} {x left : Exchange} {uri : Bytes} {pass : LuaValue}

@[simp]
theorem failWith_served (x : Exchange) (error : LuaValue) (served : List Served) :
    (failWith x error served).served = served := by
  rw [failWith]
  cases createErrorPage x error <;> rfl

@[simp]
theorem finishWith_served (x : Exchange) (data : LuaValue) (served : List Served) :
    (finishWith x data served).served = served := by
  rw [finishWith]
  cases x.set with
  | none => rfl
  | some fields => cases data.len <;> rfl

theorem getDataFromStaticFile_eq (huri : uri ≠ ascii "/") :
    getDataFromStaticFile site uri =
      if site.fileExist (site.conf.staticFileRoot ++ uri) then
        match site.fileOpen (site.conf.staticFileRoot ++ uri) with
        | none => .missing
        | some data => .read (site.conf.staticFileRoot ++ uri) data
      else .missing := by
  rw [getDataFromStaticFile, if_neg huri]

theorem dispatch_served_nil_iff (huri : uri ≠ ascii "/") :
    (dispatch site uri x).served = [] ↔ Unavailable site uri := by
  rw [dispatch, Unavailable]
  cases findCgi site.conf uri with
  | some cgiName =>
    cases hname : moduleName cgiName with
    | none => simp [hname]
    | some name =>
      cases hload : site.require name with
      | failed error => simp [hname, hload]
      | notTable => simp [hname, hload]
      | script main =>
        rcases hmain : main x with ⟨outcome, x'⟩
        cases outcome <;> simp [hname, hload, hmain]
  | none =>
    simp only [getDataFromStaticFile_eq huri]
    cases hexist : site.fileExist (site.conf.staticFileRoot ++ uri) with
    | false => simp
    | true =>
      cases site.fileOpen (site.conf.staticFileRoot ++ uri) <;> simp

theorem Loaded.eq_of_sameUpToMain {loaded loaded' : Loaded}
    (hsame : loaded.SameUpToMain loaded') (hscript : ∀ main, loaded ≠ .script main) :
    loaded' = loaded := by
  cases loaded with
  | failed error => cases loaded' <;> simp_all [Loaded.SameUpToMain]
  | notTable => cases loaded' <;> simp_all [Loaded.SameUpToMain]
  | script main => exact absurd rfl (hscript main)

theorem dispatch_eq_of_unavailable (hsame : SameAccess site other)
    (huri : uri ≠ ascii "/") (hnone : Unavailable site uri) :
    dispatch other uri x = dispatch site uri x := by
  rw [Unavailable] at hnone
  rw [dispatch, dispatch, hsame.conf]
  cases hfind : findCgi site.conf uri with
  | some cgiName =>
    rw [hfind] at hnone
    cases hname : moduleName cgiName with
    | none => simp only [hname]
    | some name =>
      have hload := Loaded.eq_of_sameUpToMain (hsame.modules name) (hnone name hname)
      simp only [hname, hload]
  | none =>
    rw [hfind] at hnone
    have hopen := hsame.open_iff (site.conf.staticFileRoot ++ uri)
    grind [getDataFromStaticFile_eq, SameAccess.conf, SameAccess.exist]

theorem alloc_eq_dispatch_of_denied (huri : x.uri ≠ ascii "/")
    (hanswer : checkAccess site x = .answered pass left)
    (hdenied : pass.truthy = false ∨
      ∃ control, left.redirectControl = some control ∧ control.flag.truthy = true) :
    alloc site x =
      dispatch site x.uri (if pass.truthy then left else { left with status := 403 }) := by
  rw [alloc, if_neg huri, hanswer]
  cases hpass : pass.truthy with
  | false => simp [hpass]
  | true =>
    rcases hdenied with hfalse | ⟨control, hcontrol, _⟩
    · rw [hpass] at hfalse
      cases hfalse
    · simp [hpass, hcontrol]

theorem checkAccess_stopped_served {result : AllocResult}
    (hstop : checkAccess site x = .stopped result) : result.served = [] := by
  rw [checkAccess] at hstop
  cases haccess : site.conf.accessBy with
  | none => simp [haccess] at hstop
  | some accessBy =>
    cases hname : moduleName accessBy with
    | none =>
      simp only [haccess, hname, AccessCheck.stopped.injEq] at hstop
      rw [← hstop]
    | some name =>
      grind [failWith_served]

end Dispatching

/-- A denied request is kept from the scripts and the files if and only if there
is nothing to serve under its URI anyway. -/
theorem alloc_denied_iff (site : Site) (x : Exchange) (huri : x.uri ≠ ascii "/")
    (hdenied : Denied site x) : NothingServed site x ↔ Unavailable site x.uri := by
  obtain ⟨pass, left, hanswer, hrefused⟩ := hdenied
  have halloc := alloc_eq_dispatch_of_denied huri hanswer hrefused
  constructor
  · intro hnothing
    apply (dispatch_served_nil_iff huri).mp
    rw [← halloc]
    exact hnothing.1
  · intro hnone
    constructor
    · rw [halloc, dispatch_served_nil_iff huri]
      exact hnone
    · intro other hsame
      have hother := alloc_eq_dispatch_of_denied huri
        ((hsame.access x).trans hanswer) hrefused
      rw [halloc, hother, dispatch_eq_of_unavailable hsame huri hnone]

section Shipped

def shippedRoutes : List (String × String) :=
  [("/SecurityCode.jpg", "code.lua"), ("/login.data", "login.lua"),
    ("/cjson.data", "json_test.lua"), ("/body.data", "body.lua"),
    ("/post.data", "post.lua"), ("/department.data", "department.lua"),
    ("/sector_setup.data", "sector_setup.lua"),
    ("/employees_account.data", "employees_account.lua"),
    ("/cipher_permissions.data", "cipher_permissions.lua"),
    ("/office_behavior.data", "office_behavior.lua"),
    ("/office_behavior_add.data", "office_behavior.lua"),
    ("/modifyEncrypt.data", "modifyEncrypt.lua"), ("/encryptObj.data", "encryptObj.lua"),
    ("/irregularities.data", "irregularities.lua"),
    ("/system_setup.data", "system_setup.lua"), ("/chat_record.data", "chat_record.lua"),
    ("/file_encrypt.data", "file_encrypt.lua"),
    ("/behavior_statistical.data", "behavior_statistical.lua"),
    ("/behavior_record.data", "behavior_record.lua"),
    ("/employee.data", "behavior_record.lua"), ("/index.data", "index.lua"),
    ("/proccess.data", "process.lua")]

/-- conf.lua. -/
def shippedConf : Conf where
  index := some (ascii "/index.html")
  staticFileRoot := ascii "/data/MT7620/source/user/jhl_tools/water_wall_html"
  accessBy := some (ascii "entry.lua")
  locationByLuaScript := shippedRoutes.map fun route => (ascii route.1, ascii route.2)

/-- entry.lua. -/
def entryMain : Main := fun x =>
  let suffix := matchSuffix x.uri
  if suffix = some (ascii "css") ∨ suffix = some (ascii "js") then
    match x.set with
    | none => (.raised (.string (ascii "attempt to index field 'set' (a nil value)")), x)
    | some fields =>
      (.returned (.boolean true),
        { x with set := some (fields.put (ascii "Cache-Control")
            (.string (ascii "max-age=3600"))) })
  else (.returned (.boolean true), x)

theorem entryMain_spec {x : Exchange} {fields : Fields} (hset : x.set = some fields) :
    ∃ after, entryMain x = (.returned (.boolean true), after) ∧
      after.redirectControl = x.redirectControl := by
  simp only [entryMain, hset]
  split
  · exact ⟨_, rfl, rfl⟩
  · exact ⟨_, rfl, rfl⟩

theorem entryMain_admits {site : Site} (uri : Bytes) (connection : Option Bytes) (date : Bytes)
    (hconf : site.conf.accessBy = shippedConf.accessBy)
    (hentry : site.require (ascii "entry") = .script entryMain) :
    ¬ Denied site (initModule uri connection date) := by
  rintro ⟨pass, left, hanswer, hdenied⟩
  have hname : moduleName (ascii "entry.lua") = some (ascii "entry") := by decide
  obtain ⟨after, hmain, hcontrol⟩ := @entryMain_spec (initModule uri connection date) _ rfl
  simp only [checkAccess, hconf, shippedConf, hname, hentry, hmain,
    AccessCheck.answered.injEq] at hanswer
  obtain ⟨rfl, rfl⟩ := hanswer
  rcases hdenied with hfalse | ⟨control, hleft, hflag⟩
  · cases hfalse
  · rw [hcontrol] at hleft
    cases hleft
    cases hflag

end Shipped

namespace DispatchWitness

/-- The shipped configuration with an access script that refuses everything;
every other script returns `secret`, and there are no files. -/
def site : Site where
  conf := shippedConf
  require := fun name =>
    if name = ascii "entry" then
      .script fun x => (.returned (.boolean false), x)
    else .script fun x => (.returned (.string (ascii "secret")), x)
  fileExist := fun _ => false
  fileOpen := fun _ => none

def request (uri : String) : Exchange :=
  initModule (ascii uri) none (ascii "Sun, 01 Jan 2017, 00:00:00 GMT")

theorem request_denied (uri : String) : Denied site (request uri) :=
  ⟨.boolean false, request uri, rfl, Or.inl rfl⟩

theorem admits_style : ¬ Denied { site with require := fun _ => .script entryMain }
    (initModule (ascii "/a.css") none []) :=
  entryMain_admits (ascii "/a.css") none [] rfl rfl

/-- A file that does not exist. -/
theorem alloc_denied_iff_missing :
    Denied site (request "/a.html") ∧ NothingServed site (request "/a.html") :=
  ⟨request_denied "/a.html",
    (alloc_denied_iff site (request "/a.html") (by decide)
      (request_denied "/a.html")).mpr (Or.inl rfl)⟩

/-- A script's main is called although access is refused, and its result is
returned. -/
theorem alloc_serves_denied :
    Denied site (request "/index.data") ∧
      (alloc site (request "/index.data")).served = [.cgiMain (ascii "index")] ∧
      (alloc site (request "/index.data")).outcome =
        .returned true (.string (ascii "secret")) ∧
      ¬ NothingServed site (request "/index.data") := by
  have hserved : (alloc site (request "/index.data")).served =
      [.cgiMain (ascii "index")] := by decide
  refine ⟨request_denied "/index.data", hserved, by decide, ?_⟩
  simp_all [NothingServed.eq_1]

end DispatchWitness

end WaterWall
