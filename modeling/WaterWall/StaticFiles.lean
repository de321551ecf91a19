/-
Which files the dispatcher opens.  The path is the document root with the URI of the request
behind it, whatever stands there; where it leads depends on the `..` in the URI.
-/
import WaterWall.DotPaths
import WaterWall.RequestPhrase

namespace WaterWall

namespace Http

open ByteText DotPaths

/-- What a component of a path stands for. -/
def pathStep (component : Bytes) : Option (Step Bytes) :=
  if component = [] ∨ component = [46] then none
  else if component = [46, 46] then some .up
  else some (.down component)

def pathSteps (path : Bytes) : List (Step Bytes) :=
  (path.splitOnP (· == 47)).filterMap pathStep

/-- The names that an absolute path leads through. -/
def resolved (path : Bytes) : List Bytes :=
  walk [] (pathSteps path)

/-- A path leads to the root or below it. -/
def Under (root path : Bytes) : Prop :=
  resolved root <+: resolved path

instance (root path : Bytes) : Decidable (Under root path) :=
  inferInstanceAs (Decidable (_ <+: _))

/-- The URI goes down again through every directory that it goes up. -/
def Retraces (root uri : Bytes) : Prop :=
  let way := route (pathSteps (cstr uri))
  (resolved root).drop ((resolved root).length - way.ups) <+: way.names

instance (root uri : Bytes) : Decidable (Retraces root uri) :=
  inferInstanceAs (Decidable (_ <+: _))

/-- The file that `getDataFromStaticFile` opens in `alloc`, if it comes to that; `io.open` takes
the path up to its first NUL. -/
def opensFile (site : Site) (x : Exchange) : Option Bytes :=
  if x.uri = ascii "/" then none
  else
    match checkAccess site x with
    | .stopped _ => none
    | .answered pass left =>
      if pass.truthy = true ∧ left.redirectControl = none then none
      else
        match findCgi site.conf x.uri with
        | some _ => none
        | none =>
          if site.fileExist (site.conf.staticFileRoot ++ x.uri) then
            some (cstr (site.conf.staticFileRoot ++ x.uri))
          else none

section Paths

variable {root rest uri : Bytes}

theorem pathSteps_nil : pathSteps [] = [] := rfl

theorem pathSteps_append (root rest : Bytes) :
    pathSteps (root ++ 47 :: rest) = pathSteps root ++ pathSteps rest := by
  rw [pathSteps, List.splitOnP_append_cons root rest rfl, List.filterMap_append]
  rfl

theorem resolved_append (root : Bytes) (huri : uri = [] ∨ ∃ rest, uri = 47 :: rest) :
    resolved (root ++ uri) = walk (resolved root) (pathSteps uri) := by
  rcases huri with rfl | ⟨rest, rfl⟩
  · rw [List.append_nil, pathSteps_nil]
    rfl
  · have hslash : pathSteps (47 :: rest) = pathSteps rest := pathSteps_append [] rest
    rw [resolved, pathSteps_append, walk_append, hslash]
    rfl

theorem cstr_append (hroot : (0 : Byte) ∉ root) (uri : Bytes) :
    cstr (root ++ uri) = root ++ cstr uri := by
  have hall : ∀ b ∈ root, (b != 0) = true := by
    intro b hb
    rw [bne_iff_ne]
    rintro rfl
    exact hroot hb
  rw [cstr, List.takeWhile_append_of_pos hall]
  rfl

theorem cstr_slash (huri : uri = [] ∨ ∃ rest, uri = 47 :: rest) :
    cstr uri = [] ∨ ∃ rest, cstr uri = 47 :: rest := by
  rcases huri with rfl | ⟨rest, rfl⟩
  · exact .inl rfl
  · exact .inr ⟨cstr rest, rfl⟩

theorem under_iff (hroot : (0 : Byte) ∉ root) (huri : uri = [] ∨ ∃ rest, uri = 47 :: rest) :
    Under root (cstr (root ++ uri)) ↔ Retraces root uri := by
  rw [Under, cstr_append hroot, resolved_append root (cstr_slash huri), start_le_walk_iff]
  rfl

theorem opensFile_eq {site : Site} {x : Exchange} {path : Bytes}
    (hopens : opensFile site x = some path) :
    path = cstr (site.conf.staticFileRoot ++ x.uri) := by
  rw [opensFile] at hopens
  grind

theorem dispatch_readFile {site : Site} {x : Exchange} {path : Bytes} (huri : uri ≠ ascii "/")
    (hserved : .readFile path ∈ (dispatch site uri x).served) :
    findCgi site.conf uri = none ∧ site.fileExist (site.conf.staticFileRoot ++ uri) = true ∧
      path = site.conf.staticFileRoot ++ uri := by
  rw [dispatch] at hserved
  cases hfind : findCgi site.conf uri with
  | some cgiName =>
    rw [hfind] at hserved
    cases hname : moduleName cgiName with
    | none => simp [hname] at hserved
    | some name =>
      cases hload : site.require name with
      | failed error => simp [hname, hload] at hserved
      | notTable => simp [hname, hload] at hserved
      | script main =>
        rcases hmain : main x with ⟨outcome, left⟩
        cases outcome <;> simp [hname, hload, hmain] at hserved
  | none =>
    rw [hfind] at hserved
    simp only [getDataFromStaticFile_eq huri] at hserved
    cases hexist : site.fileExist (site.conf.staticFileRoot ++ uri) with
    | false => simp [hexist] at hserved
    | true =>
      cases hopen : site.fileOpen (site.conf.staticFileRoot ++ uri) with
      | none => simp [hexist, hopen] at hserved
      | some text =>
        simp_all

/-- A file that `alloc` reads is one that it opens. -/
theorem opensFile_of_served {site : Site} {x : Exchange} {path : Bytes}
    (hserved : .readFile path ∈ (alloc site x).served) : opensFile site x = some (cstr path) := by
  rw [alloc] at hserved
  rw [opensFile]
  by_cases huri : x.uri = ascii "/"
  · rw [if_pos huri] at hserved
    grind
  · rw [if_neg huri] at hserved ⊢
    cases hcheck : checkAccess site x with
    | stopped result =>
      rw [hcheck] at hserved
      simp [checkAccess_stopped_served hcheck] at hserved
    | answered pass left =>
      rw [hcheck] at hserved
      dsimp only at hserved ⊢
      have hdispatch : ∃ y, .readFile path ∈ (dispatch site x.uri y).served ∧
          ¬(pass.truthy = true ∧ left.redirectControl = none) := by
        grind
      obtain ⟨y, hread, hgoes⟩ := hdispatch
      obtain ⟨hfind, hexist, rfl⟩ := dispatch_readFile huri hread
      rw [if_neg hgoes, hfind, hexist]
      rfl

end Paths

/-- For every request that `phrase` accepts, a file that is opened is below the document root
just when the URI goes down again whatever it goes up. -/
theorem staticFile_confined_iff (site : Site) (hroot : (0 : Byte) ∉ site.conf.staticFileRoot)
    (tonumber : Bytes → Option Int) (data : Bytes) (request : Phrased)
    (haccepted : phrase tonumber data = some (some request)) (connection : Option Bytes)
    (date path : Bytes)
    (hopens : opensFile site (initModule request.line.uri connection date) = some path) :
    Under site.conf.staticFileRoot path ↔
      Retraces site.conf.staticFileRoot request.line.uri := by
  rw [opensFile_eq hopens]
  exact under_iff hroot (phrase_uri haccepted)

/-- The same holds for the file that an answer is read from, whatever the access script and the
others do. -/
theorem servedFile_confined_iff (site : Site) (hroot : (0 : Byte) ∉ site.conf.staticFileRoot)
    (tonumber : Bytes → Option Int) (data : Bytes) (request : Phrased)
    (haccepted : phrase tonumber data = some (some request)) (connection : Option Bytes)
    (date path : Bytes) (hserved : .readFile path ∈
      (alloc site (initModule request.line.uri connection date)).served) :
    Under site.conf.staticFileRoot (cstr path) ↔
      Retraces site.conf.staticFileRoot request.line.uri := by
  rw [opensFile_eq (opensFile_of_served hserved)]
  exact under_iff hroot (phrase_uri haccepted)

namespace StaticWitness

/-- The shipped configuration and script, with these files. -/
def siteOf (files : List String) : Site where
  conf := shippedConf
  require name := if name = ascii "entry" then .script entryMain else .failed .nil
  fileExist path := path ∈ files.map ascii
  fileOpen _ := some (some [])

def page : String := "/data/MT7620/source/user/jhl_tools/water_wall_html/css/../index.html"

def secret : String :=
  "/data/MT7620/source/user/jhl_tools/water_wall_html/../../../../../../etc/passwd"

def get (uri : String) : Bytes :=
  ascii "GET " ++ ascii uri ++ ascii " HTTP/1.1\r\nHost: a\r\n\r\n"

def noNumber (_ : Bytes) : Option Int := none

theorem root_noNul : (0 : Byte) ∉ shippedConf.staticFileRoot := by decide +kernel

/-- What `phrase` makes of a GET request. -/
def requestOf (uri : String) : Phrased :=
  ⟨⟨ascii "GET", ascii uri, ascii "HTTP/1.1\r"⟩, [(ascii "host", ascii "a\r")], none⟩

theorem phrase_page :
    phrase noNumber (get "/css/../index.html") = some (some (requestOf "/css/../index.html")) := by
  decide +kernel

theorem opens_page : opensFile (siteOf [page])
    (initModule (requestOf "/css/../index.html").line.uri none []) = some (ascii page) := by
  decide +kernel

/-- A URI that goes up and down inside the root. -/
theorem under_page : Under shippedConf.staticFileRoot (ascii page) :=
  (staticFile_confined_iff (siteOf [page]) root_noNul noNumber (get "/css/../index.html")
    (requestOf "/css/../index.html") phrase_page none [] (ascii page) opens_page).mpr
    (by decide +kernel)

theorem served_page : .readFile (ascii page) ∈ (alloc (siteOf [page])
    (initModule (requestOf "/css/../index.html").line.uri none [])).served := by
  decide +kernel

theorem under_served_page : Under shippedConf.staticFileRoot (cstr (ascii page)) :=
  (servedFile_confined_iff (siteOf [page]) root_noNul noNumber (get "/css/../index.html")
    (requestOf "/css/../index.html") phrase_page none [] (ascii page) served_page).mpr
    (by decide +kernel)

/-- A URI that goes up as far as the root is deep. -/
theorem not_under_secret :
    phrase noNumber (get "/../../../../../../etc/passwd") =
        some (some (requestOf "/../../../../../../etc/passwd")) ∧
      opensFile (siteOf [secret])
        (initModule (requestOf "/../../../../../../etc/passwd").line.uri none []) =
          some (ascii secret) ∧
      ¬Under shippedConf.staticFileRoot (ascii secret) := by
  refine ⟨?_, ?_, ?_⟩
  · decide +kernel
  · decide +kernel
  · decide +kernel

end StaticWitness

end Http

end WaterWall
