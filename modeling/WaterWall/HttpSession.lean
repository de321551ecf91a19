/-
One connection of the HTTP server: what x-session.c and x-lua.c do with the buffers of its
session.  A block of the heap is the list of its bytes.
-/
import WaterWall.ByteText
import WaterWall.HeapBlock

namespace WaterWall

namespace Http

open ByteText HeapBlock List

/-- The bits of `state`. -/
structure Stat where
  recvInit : Bool
  recvAgain : Bool
  keepAlive : Bool
  sendError : Bool
  sendAgain : Bool
  sendFinish : Bool
  luaError : Bool
  deriving DecidableEq, Repr

theorem take_fits (text : Bytes) : (text.take 126).length ≤ 126 :=
  length_take_le 126 text

/-- What `snprintf` leaves in `error_info` when it is given 127 bytes. -/
structure ErrorInfo where
  text : Bytes
  fits : text.length ≤ 126
  deriving DecidableEq

def ErrorInfo.snprintf (message : Bytes) : ErrorInfo :=
  ⟨(cstr message).take 126, take_fits (cstr message)⟩

structure Session where
  state : Stat
  fid : Int
  sid : BitVec 32
  pid : BitVec 32
  errorInfo : ErrorInfo
  rcvBuf : Option Bytes
  rcvBuflen : Nat
  rcvLen : Nat
  sndBuf : Option Bytes
  sndLen : Nat
  deriving DecidableEq

/-- The ends of the process: an `assert` or an access outside a block. -/
inductive Fault where
  | assertFailed
  | nullPointer
  | outsideBlock
  deriving DecidableEq, Repr

theorem bind_eq_ok {α β : Type} {first : Except Fault α} {next : α → Except Fault β} {result : β} :
    first >>= next = .ok result ↔ ∃ value, first = .ok value ∧ next value = .ok result := by
  cases first <;> simp [bind, Except.bind]

/-- What the allocator does during a call: which sizes it grants, and what it leaves in memory
that `realloc` adds to a block. -/
structure Memory where
  grants : Nat → Bool
  stale : Nat → Byte

/-- `wys_realloc`: a new block is zeroed, and no block may shrink. -/
def wysRealloc (memory : Memory) (ptr : Option Bytes) (size : Nat) :
    Except Fault (Option Bytes) :=
  match ptr with
  | none => .ok (if memory.grants size then some (List.replicate size 0) else none)
  | some block =>
    if size = 0 then .ok none
    else if size < block.length then .error .assertFailed
    else if size = block.length then .ok (some block)
    else if memory.grants size then
      .ok (some (block ++ (List.range (size - block.length)).map fun i =>
        memory.stale (block.length + i)))
    else .ok none

section Realloc

variable {memory : Memory} {ptr : Option Bytes} {size : Nat}

theorem wysRealloc_fills (hsize : (ptr.getD []).length < size)
    (hgrants : memory.grants size = true) :
    ∃ block, wysRealloc memory ptr size = .ok (some block) ∧
      Fills block size (ptr.getD []) := by
  cases ptr with
  | none => exact ⟨_, by simp [wysRealloc, hgrants], Fills.replicate size 0⟩
  | some block =>
    rw [Option.getD_some] at hsize ⊢
    refine ⟨_, by
      rw [wysRealloc, if_neg (by omega), if_neg (by omega), if_neg (by omega),
        if_pos hgrants], ?_, ?_⟩
    · simp only [length_append, length_map, length_range]
      omega
    · rw [take_left]

theorem wysRealloc_denied (hsize : (ptr.getD []).length < size)
    (hdenied : memory.grants size = false) : wysRealloc memory ptr size = .ok none := by
  cases ptr with
  | none => simp [wysRealloc, hdenied]
  | some block =>
    rw [Option.getD_some] at hsize
    rw [wysRealloc, if_neg (by omega), if_neg (by omega), if_neg (by omega), hdenied]
    rfl

theorem wysRealloc_empty (hptr : ptr.getD [] = []) (memory : Memory) (size : Nat) :
    (∃ block, wysRealloc memory ptr size = .ok (some block) ∧ Fills block size []) ∨
      wysRealloc memory ptr size = .ok none ∧ (memory.grants size = true → size = 0) := by
  rcases Nat.eq_zero_or_pos size with rfl | hpos
  · cases ptr with
    | none =>
      cases hgrants : memory.grants 0 with
      | false => exact .inr ⟨by simp [wysRealloc, hgrants], by simp⟩
      | true => exact .inl ⟨[], by simp [wysRealloc, hgrants], rfl, rfl⟩
    | some block => exact .inr ⟨by simp [wysRealloc], fun _ => rfl⟩
  grind [wysRealloc_denied, wysRealloc_fills]

theorem wysRealloc_length {block : Bytes} (hrealloc : wysRealloc memory ptr size = .ok (some block)) :
    block.length = size := by
  cases ptr with
  | none =>
    grind [wysRealloc]
  | some old =>
    simp only [wysRealloc] at hrealloc
    split_ifs at hrealloc with hzero hless hsame hgrants
    · cases hrealloc
    · cases hrealloc
      exact hsame.symm
    · grind
    · cases hrealloc

end Realloc

/-- How the script `access.lua` ends. -/
inductive LuaOutcome where
  | loadFailed
  | raised (message : Bytes)
  | answered (data : Bytes) (keepAlive : Bool)
  deriving DecidableEq

def loadFailedText : Bytes := ascii "Load lua script \"access.lua\" failed!\n"

/-- The request has gone to the script. -/
def Session.forgetInput (session : Session) : Session :=
  { session with rcvBuf := none, rcvBuflen := 0, rcvLen := 0 }

def Session.failLua (session : Session) (message : Bytes) : Session :=
  { session with
    errorInfo := .snprintf message
    state := { session.state with luaError := true } }

/-- The end of `lua_access` for an answer.  The block is made as large as the new data alone,
which is then stored behind what is still there. -/
def Session.queue (session : Session) (memory : Memory) (data : Bytes) :
    Except Fault (Int × Session) := do
  match ← wysRealloc memory session.sndBuf data.length with
  | none => return (-1, { session with sndBuf := none })
  | some block =>
    match writeAt block session.sndLen data with
    | none => throw .outsideBlock
    | some block =>
      return (0, { session with sndBuf := some block, sndLen := session.sndLen + data.length })

def luaAccess (session : Session) (memory : Memory) : LuaOutcome → Except Fault (Int × Session)
  | .loadFailed => .ok (0, session.failLua loadFailedText)
  | .raised message => .ok (0, session.forgetInput.failLua message)
  | .answered data keepAlive =>
    let session := session.forgetInput
    Session.queue
      { session with
        state := { session.state with keepAlive := session.state.keepAlive || keepAlive } }
      memory data

/-- The fields of `gmtime` that a date shows. -/
structure Tm where
  wday : Fin 7
  mday : Fin 100
  mon : Fin 12
  year : Nat
  hour : Fin 100
  min : Fin 100
  sec : Fin 100
  yearFits : 1900 + year < 2 ^ 31

def wdayNames : List String := ["Sun", "Mon", "Tue", "Wed", "Thu", "Fri", "Sat"]

def monthNames : List String :=
  ["Jan", "Feb", "Mar", "Apr", "May", "Jun", "Jul", "Aug", "Sep", "Oct", "Nov", "Dec"]

/-- The format `%02d`. -/
def twoDigits (n : Nat) : Bytes :=
  if n < 10 then 48 :: decimal n else decimal n

def sesGetDateString (p : Tm) : Bytes :=
  ascii (wdayNames.getD p.wday "") ++ ascii ", " ++ twoDigits p.mday ++ ascii " " ++
    ascii (monthNames.getD p.mon "") ++ ascii " " ++ decimal (1900 + p.year) ++ ascii " " ++
    twoDigits p.hour ++ ascii ":" ++ twoDigits p.min ++ ascii ":" ++ twoDigits p.sec ++
    ascii " GMT"

/-- The page around the text of the error. -/
def errorPageHead : Bytes :=
  ascii "<html><body bgcolor=\"white\"><title>500 Internal Server Error</title><style>body" ++
    ascii "\x7bnargin:auto;font-family:Tahoma, Geneva, sans-serif;\x7d</style>" ++
    ascii "<h1 align=\"center\">500 Internal Server Error</h1>" ++
    ascii "<hr><p align=\"center\">Error Info:"

def errorPageEnd : Bytes := ascii "</p></body></html>"

def maxErrPageLen : Nat := 1024

/-- `snprintf` leaves room for the end of the string. -/
def sesCreate505Page (errInfo : ErrorInfo) : Bytes :=
  (errorPageHead ++ errInfo.text ++ errorPageEnd).take (maxErrPageLen - 1)

/-- What `ses_send_error_info` prints. -/
def errorResponse (date : Tm) (errInfo : ErrorInfo) : Bytes :=
  let errPage := sesCreate505Page errInfo
  ascii "HTTP/1.1 500 ERROR\r\n" ++ ascii "Server:X-server/1.0 by miaomiao\r\n" ++
    ascii "Content-type:text/html\r\n" ++
    (ascii "Content-Length:" ++ decimal errPage.length ++ ascii "\r\n") ++
    ascii "Accept-Ranges: bytes\r\n" ++
    (ascii "Date: " ++ sesGetDateString date ++ ascii "\r\n") ++
    ascii "Connection: close\r\n\r\n" ++ errPage

section PageSize

theorem twoDigits_length (n : Fin 100) : (twoDigits n).length = 2 := by
  revert n
  decide +kernel

theorem wdayName_length (day : Fin 7) : (ascii (wdayNames.getD day "")).length = 3 := by
  revert day
  decide

theorem monthName_length (month : Fin 12) : (ascii (monthNames.getD month "")).length = 3 := by
  revert month
  decide

theorem sesGetDateString_length_le (p : Tm) : (sesGetDateString p).length ≤ 35 := by
  have hyear : (decimal (1900 + p.year)).length ≤ 10 :=
    decimal_length_le (p.yearFits.trans (by decide))
  have hcomma : (ascii ", ").length = 2 := by decide
  have hblank : (ascii " ").length = 1 := by decide
  have hcolon : (ascii ":").length = 1 := by decide
  have hgmt : (ascii " GMT").length = 4 := by decide
  simp only [sesGetDateString, length_append, twoDigits_length, wdayName_length,
    monthName_length, hcomma, hblank, hcolon, hgmt]
  omega

theorem sesCreate505Page_length_le (errInfo : ErrorInfo) :
    (sesCreate505Page errInfo).length ≤ 500 := by
  have hhead : errorPageHead.length = 222 := by decide +kernel
  have hend : errorPageEnd.length = 18 := by decide +kernel
  have hinfo := errInfo.fits
  simp only [sesCreate505Page, length_take, length_append, hhead, hend]
  omega

theorem errorResponse_fits (date : Tm) (errInfo : ErrorInfo) :
    (errorResponse date errInfo ++ [0]).length ≤ 1024 := by
  have hpage := sesCreate505Page_length_le errInfo
  have hdate := sesGetDateString_length_le date
  have hlength : (decimal (sesCreate505Page errInfo).length).length ≤ 3 :=
    decimal_length_le (by omega)
  have hstatus : (ascii "HTTP/1.1 500 ERROR\r\n").length = 20 := by decide
  have hserver : (ascii "Server:X-server/1.0 by miaomiao\r\n").length = 33 := by decide
  have htype : (ascii "Content-type:text/html\r\n").length = 24 := by decide
  have hcontent : (ascii "Content-Length:").length = 15 := by decide
  have hline : (ascii "\r\n").length = 2 := by decide
  have hranges : (ascii "Accept-Ranges: bytes\r\n").length = 22 := by decide
  have hday : (ascii "Date: ").length = 6 := by decide
  have hclose : (ascii "Connection: close\r\n\r\n").length = 21 := by decide
  simp only [errorResponse, length_append, hstatus, hserver, htype, hcontent, hline,
    hranges, hday, hclose, length_singleton]
  omega

theorem errorResponse_ne_nil (date : Tm) (errInfo : ErrorInfo) :
    errorResponse date errInfo ≠ [] := by
  simp [ascii, errorResponse]

end PageSize

/-- A result of a function of x-session.c: the value, the session, and what becomes of POLLOUT
at the entry of the session. -/
structure Handled where
  ret : Int
  session : Session
  pollout : Option Bool
  deriving DecidableEq

/-- The page is printed at the front of the block, with its NUL. -/
def sesSendErrorInfo (session : Session) (memory : Memory) (date : Tm) : Except Fault Handled := do
  match ← wysRealloc memory session.sndBuf 1024 with
  | none => return ⟨-1, { session with sndBuf := none }, none⟩
  | some block =>
    let text := errorResponse date session.errorInfo
    match writeAt block 0 (text ++ [0]) with
    | none => throw .outsideBlock
    | some block =>
      return ⟨0, { session with sndBuf := some block, sndLen := session.sndLen + text.length },
        some true⟩

def sesSendHttpData (session : Session) (memory : Memory) (date : Tm) : Except Fault Handled :=
  if session.state.luaError then sesSendErrorInfo session memory date
  else .ok ⟨0, session, some true⟩

def sesHttpProcotolHandler (session : Session) (memory : Memory) (lua : LuaOutcome) (date : Tm) :
    Except Fault Handled := do
  let (ret, session) ← luaAccess session memory lua
  if ret ≠ 0 then return ⟨-1, session, none⟩
  else
    let handled ← sesSendHttpData session memory date
    return if handled.ret ≠ 0 then { handled with ret := -1 } else { handled with ret := 0 }

/-- Nothing is queued, and no script has failed. -/
structure Session.Quiet (session : Session) : Prop where
  block : session.sndBuf.getD [] = []
  len : session.sndLen = 0
  luaError : session.state.luaError = false

/-- The bytes that wait to be sent stand at the front of the block, and without any there is no
block or an empty one. -/
structure Session.Queues (session : Session) (response : Bytes) : Prop where
  len : session.sndLen = response.length
  block : Fills (session.sndBuf.getD []) (session.sndBuf.getD []).length response
  empty : response = [] → session.sndBuf.getD [] = []

/-- What a request is answered with. -/
def LuaOutcome.response (date : Tm) : LuaOutcome → Bytes
  | .loadFailed => errorResponse date (.snprintf loadFailedText)
  | .raised message => errorResponse date (.snprintf message)
  | .answered data _ => data

section Answer

variable {session : Session} {memory : Memory}

theorem Session.queue_returns (hblock : session.sndBuf.getD [] = []) (hlen : session.sndLen = 0)
    (memory : Memory) (data : Bytes) :
    ∃ ret next, session.queue memory data = .ok (ret, next) ∧ next.state = session.state ∧
      ((∀ size, memory.grants size = true) → next.Queues data) := by
  rw [Session.queue]
  rcases wysRealloc_empty hblock memory data.length with
    ⟨block, hrealloc, hfills⟩ | ⟨hrealloc, hdenied⟩
  · obtain ⟨next, hwrite, hnext⟩ := @Fills.writeAt _ _ _ data _ hfills (Nat.zero_add _).le
    rw [length_nil] at hwrite
    rw [hrealloc, hlen]
    simp only [bind, Except.bind, hwrite]
    refine ⟨_, _, rfl, rfl, fun _ => ⟨Nat.zero_add _, ⟨rfl, hnext.starts⟩, ?_⟩⟩
    intro hdata
    exact length_eq_zero_iff.mp (hnext.length_eq.trans (by rw [hdata, length_nil]))
  · rw [hrealloc]
    refine ⟨_, _, rfl, rfl, fun hgrants => ?_⟩
    have hdata := length_eq_zero_iff.mp (hdenied (hgrants _))
    exact ⟨by simp [hdata, hlen], ⟨rfl, by simp [hdata]⟩, fun _ => rfl⟩

theorem sesSendErrorInfo_returns (hblock : session.sndBuf.getD [] = [])
    (hlen : session.sndLen = 0) (memory : Memory) (date : Tm) :
    ∃ handled, sesSendErrorInfo session memory date = .ok handled ∧
      ((∀ size, memory.grants size = true) →
        handled.session.Queues (errorResponse date session.errorInfo)) := by
  rw [sesSendErrorInfo]
  rcases wysRealloc_empty hblock memory 1024 with ⟨block, hrealloc, hfills⟩ | ⟨hrealloc, hdenied⟩
  · have hfits := errorResponse_fits date session.errorInfo
    obtain ⟨next, hwrite, hnext⟩ :=
      @Fills.writeAt _ _ _ (errorResponse date session.errorInfo ++ [0]) _ hfills
        ((Nat.zero_add _).trans_le hfits)
    rw [length_nil] at hwrite
    rw [nil_append] at hnext
    rw [hrealloc, hlen]
    simp only [bind, Except.bind, hwrite]
    refine ⟨_, rfl, fun _ => ⟨Nat.zero_add _, ⟨rfl, hnext.forget.starts⟩, ?_⟩⟩
    intro hempty
    exact absurd hempty (errorResponse_ne_nil date session.errorInfo)
  · rw [hrealloc]
    refine ⟨_, rfl, fun hgrants => ?_⟩
    exact absurd (hdenied (hgrants 1024)) (by decide)

theorem sesHttpProcotolHandler_cases {lua : LuaOutcome} {date : Tm} {ret : Int} {next : Session}
    {handled : Handled} (haccess : luaAccess session memory lua = .ok (ret, next))
    (hsend : ret = 0 → sesSendHttpData next memory date = .ok handled) :
    ∃ result, sesHttpProcotolHandler session memory lua date = .ok result ∧
      result.session = if ret = 0 then handled.session else next := by
  rw [sesHttpProcotolHandler, haccess]
  by_cases hret : ret = 0
  · refine ⟨if handled.ret ≠ 0 then { handled with ret := -1 } else { handled with ret := 0 },
      ?_, ?_⟩
    · simp only [bind, Except.bind, hret, hsend hret]
      rfl
    · rw [if_pos hret]
      split_ifs <;> rfl
  · refine ⟨⟨-1, next, none⟩, ?_, ?_⟩
    · simp only [bind, Except.bind]
      rw [if_pos hret]
      rfl
    · rw [if_neg hret]

theorem Session.failLua_answered {lua : LuaOutcome} {date : Tm} {message : Bytes}
    (hblock : session.sndBuf.getD [] = []) (hlen : session.sndLen = 0)
    {start : Session} (haccess : luaAccess start memory lua = .ok (0, session.failLua message)) :
    ∃ handled, sesHttpProcotolHandler start memory lua date = .ok handled ∧
      ((∀ size, memory.grants size = true) →
        handled.session.Queues (errorResponse date (.snprintf message))) := by
  obtain ⟨handled, hsend, hqueues⟩ := @sesSendErrorInfo_returns (session.failLua message)
    hblock hlen memory date
  obtain ⟨result, hresult, hsession⟩ := sesHttpProcotolHandler_cases haccess fun _ => hsend
  rw [if_pos rfl] at hsession
  exact ⟨result, hresult, fun hgrants => hsession ▸ hqueues hgrants⟩

theorem Session.Quiet.answered (hquiet : session.Quiet) (memory : Memory) (lua : LuaOutcome)
    (date : Tm) :
    ∃ handled, sesHttpProcotolHandler session memory lua date = .ok handled ∧
      ((∀ size, memory.grants size = true) → handled.session.Queues (lua.response date)) ∧
      (∀ data keepAlive, lua = .answered data keepAlive →
        handled.session.state.luaError = false) := by
  cases lua with
  | loadFailed =>
    obtain ⟨handled, hhandled, hqueues⟩ :=
      @Session.failLua_answered session memory .loadFailed date loadFailedText
        hquiet.block hquiet.len session rfl
    exact ⟨handled, hhandled, hqueues, by simp⟩
  | raised message =>
    obtain ⟨handled, hhandled, hqueues⟩ :=
      @Session.failLua_answered session.forgetInput memory (.raised message) date message
        hquiet.block hquiet.len session rfl
    exact ⟨handled, hhandled, hqueues, by simp⟩
  | answered data keepAlive =>
    obtain ⟨ret, next, hqueue, hstate, hqueues⟩ := @Session.queue_returns
      { session.forgetInput with
        state := { session.state with keepAlive := session.state.keepAlive || keepAlive } }
      hquiet.block hquiet.len memory data
    have hlua : next.state.luaError = false := by
      rw [hstate]
      exact hquiet.luaError
    have haccess : luaAccess session memory (.answered data keepAlive) = .ok (ret, next) := hqueue
    obtain ⟨result, hresult, hsession⟩ := sesHttpProcotolHandler_cases haccess
      fun _ => (if_neg (by simp [hlua]) : sesSendHttpData next memory date = _)
    rw [ite_self] at hsession
    exact ⟨result, hresult, fun hgrants => hsession ▸ hqueues hgrants,
      fun _ _ _ => hsession ▸ hlua⟩

end Answer

/-- What is there when a descriptor is readable: the bytes in its socket, those behind the
receive block when it is searched, and how the calls end. -/
structure Readable where
  pending : Bytes
  behind : Bytes
  memory : Memory
  lua : LuaOutcome
  date : Tm

def rcvSize : Nat := 10240

/-- The receive block grows to just the size that is needed. -/
def Session.grow (session : Session) (memory : Memory) (total : Nat) :
    Except Fault (Option Bytes) :=
  if session.rcvBuflen < total then wysRealloc memory session.rcvBuf total
  else .ok session.rcvBuf

/-- A read is appended to the receive block. -/
def Session.append (session : Session) (memory : Memory) (chunk : Bytes) :
    Except Fault (Bool × Session) := do
  let total := session.rcvLen + chunk.length
  match ← session.grow memory total with
  | none => return (false, { session with rcvBuf := none })
  | some block =>
    match writeAt block session.rcvLen chunk with
    | none => throw .outsideBlock
    | some block =>
      return (true, { session with
        rcvBuf := some block
        rcvBuflen := if session.rcvBuflen < total then total else session.rcvBuflen
        rcvLen := total })

theorem drop_rcvSize_lt {pending : Bytes} (hpending : pending ≠ []) :
    (pending.drop rcvSize).length < pending.length := by
  have hpos := length_pos_iff.mpr hpending
  rw [length_drop, rcvSize]
  omega

/-- The loop at `REDO`.  A full read is followed by another one, and a `recv` without data
fails. -/
def sesRecvRounds (memory : Memory) (session : Session) (pending : Bytes) :
    Except Fault (Bool × Session) :=
  if _hpending : pending = [] then .ok (false, session)
  else
    match session.append memory (pending.take rcvSize) with
    | .error fault => .error fault
    | .ok (false, session) => .ok (false, session)
    | .ok (true, session) =>
      if (pending.take rcvSize).length = rcvSize then
        sesRecvRounds memory session (pending.drop rcvSize)
      else .ok (true, session)
termination_by pending.length
decreasing_by exact drop_rcvSize_lt _hpending

/-- The header has not come to its end. -/
def Session.awaitMore (session : Session) : Session :=
  { session with state := { session.state with recvInit := false, recvAgain := true } }

def httpEof : Bytes := [13, 10, 13, 10]

/-- `strstr` reads on behind the block until it meets a NUL. -/
def sesCheckEof (text behind : Bytes) : Bool :=
  decide (httpEof <:+: cstr (text ++ behind))

/-- A call of `ses_recv`, with the requests that it gave to `lua_access`. -/
structure Received where
  handled : Handled
  calls : List Bytes
  deriving DecidableEq

def sesRecv (session : Session) (input : Readable) : Except Fault Received := do
  let (complete, session) ← sesRecvRounds input.memory session input.pending
  if complete = false then return ⟨⟨-1, session, none⟩, []⟩
  else if sesCheckEof (session.rcvBuf.getD []) input.behind = false then
    return ⟨⟨0, session.awaitMore, none⟩, []⟩
  else
    let handled ← sesHttpProcotolHandler session input.memory input.lua input.date
    return ⟨if handled.ret ≠ 0 then { handled with ret := -1 } else { handled with ret := 0 },
      [(session.rcvBuf.getD []).take session.rcvLen]⟩

/-- A call of `ses_send`, with the bytes that it offered. -/
structure Sent where
  handled : Handled
  offered : Bytes
  deriving DecidableEq

/-- `len` is the result of `send`. -/
def sesSend (session : Session) (len : Int) : Except Fault Sent :=
  if session.sndLen = 0 then .ok ⟨⟨0, session, some false⟩, []⟩
  else
    match session.sndBuf with
    | none => .error .nullPointer
    | some block =>
      match readFront block session.sndLen with
      | none => .error .outsideBlock
      | some offered =>
        if len ≤ 0 then
          .ok ⟨⟨-1, { session with state := { session.state with sendError := true } }, none⟩,
            offered⟩
        else if len < session.sndLen then
          match writeAt block 0 (offered.drop len.toNat) with
          | none => .error .outsideBlock
          | some block =>
            .ok ⟨⟨0, { session with
              sndBuf := some block
              sndLen := session.sndLen - len.toNat
              state := { session.state with sendAgain := true } }, none⟩, offered⟩
        else
          .ok ⟨⟨0, { session with
            sndBuf := none
            sndLen := 0
            state := { session.state with sendFinish := true } }, some false⟩, offered⟩

section Send

variable {session : Session} {response : Bytes} {len : Nat}

theorem Session.Queues.sends_nothing (hqueues : session.Queues []) (len : Int) :
    sesSend session len = .ok ⟨⟨0, session, some false⟩, []⟩ :=
  if_pos hqueues.len

theorem Session.Queues.sends (hqueues : session.Queues response) (hpos : 0 < len)
    (hle : len ≤ response.length) :
    ∃ next pollout, sesSend session len = .ok ⟨⟨0, next, pollout⟩, response⟩ ∧
      next.Queues (response.drop len) ∧ next.fid = session.fid ∧ next.sid = session.sid ∧
      next.state.luaError = session.state.luaError ∧
      (next.state.sendFinish = true ↔
        session.state.sendFinish = true ∨ len = response.length) := by
  have hlen := hqueues.len
  have hread := hqueues.block.readFront
  rw [sesSend, if_neg (by omega)]
  cases hbuf : session.sndBuf with
  | none =>
    have hzero := hqueues.block.length_le
    rw [hbuf, Option.getD_none, length_nil] at hzero
    omega
  | some block =>
    rw [hbuf, Option.getD_some] at hread
    dsimp only
    rw [hlen, hread]
    dsimp only
    rw [if_neg (by omega)]
    rcases Nat.lt_or_ge len response.length with hlt | hge
    · rw [if_pos (by omega)]
      have hfills : Fills block block.length [] := ⟨rfl, rfl⟩
      have hfits : (response.drop len).length ≤ block.length := by
        have hle := hqueues.block.length_le
        rw [hbuf, Option.getD_some] at hle
        rw [length_drop]
        omega
      obtain ⟨next, hwrite, hnext⟩ :=
        @Fills.writeAt _ _ _ (response.drop len) _ hfills ((Nat.zero_add _).trans_le hfits)
      rw [length_nil] at hwrite
      rw [nil_append] at hnext
      rw [Int.toNat_natCast, hwrite]
      refine ⟨_, _, rfl, ⟨?_, ⟨rfl, hnext.starts⟩, ?_⟩, rfl, rfl, rfl, ?_⟩
      · exact length_drop.symm
      · intro hnone
        rw [drop_eq_nil_iff] at hnone
        omega
      · simp [hlt.ne]
    · rw [if_neg (by omega)]
      have hdrop : response.drop len = [] := drop_of_length_le hge
      rw [hdrop]
      refine ⟨_, _, rfl, ⟨rfl, ⟨rfl, rfl⟩, fun _ => rfl⟩, rfl, rfl, rfl, ?_⟩
      simp [Nat.le_antisymm hle hge]

end Send

/-- What names a session stays. -/
structure Session.SameIds (before after : Session) : Prop where
  fid : after.fid = before.fid
  sid : after.sid = before.sid
  pid : after.pid = before.pid

/-- Nothing but a send can finish a session. -/
structure Session.Kept (before after : Session) : Prop extends before.SameIds after where
  sendFinish : after.state.sendFinish = before.state.sendFinish

section Kept

variable {session next last : Session} {memory : Memory}

theorem Session.Kept.refl (session : Session) : session.Kept session := ⟨⟨rfl, rfl, rfl⟩, rfl⟩

theorem Session.Kept.trans (hfirst : session.Kept next) (hsecond : next.Kept last) :
    session.Kept last :=
  ⟨⟨hsecond.fid.trans hfirst.fid, hsecond.sid.trans hfirst.sid, hsecond.pid.trans hfirst.pid⟩,
    hsecond.sendFinish.trans hfirst.sendFinish⟩

theorem Session.queue_kept {data : Bytes} {ret : Int}
    (hqueue : session.queue memory data = .ok (ret, next)) : session.Kept next := by
  obtain ⟨ptr, -, hqueue⟩ := bind_eq_ok.mp hqueue
  split at hqueue
  · cases hqueue
    exact ⟨⟨rfl, rfl, rfl⟩, rfl⟩
  · split at hqueue
    · cases hqueue
    · cases hqueue
      exact ⟨⟨rfl, rfl, rfl⟩, rfl⟩

theorem luaAccess_kept {lua : LuaOutcome} {ret : Int}
    (haccess : luaAccess session memory lua = .ok (ret, next)) : session.Kept next := by
  cases lua with
  | loadFailed =>
    cases haccess
    exact ⟨⟨rfl, rfl, rfl⟩, rfl⟩
  | raised message =>
    cases haccess
    exact ⟨⟨rfl, rfl, rfl⟩, rfl⟩
  | answered data keepAlive =>
    have hqueue := Session.queue_kept haccess
    exact ⟨⟨hqueue.fid, hqueue.sid, hqueue.pid⟩, hqueue.sendFinish⟩

theorem sesSendErrorInfo_kept {date : Tm} {handled : Handled}
    (hsend : sesSendErrorInfo session memory date = .ok handled) :
    session.Kept handled.session := by
  obtain ⟨ptr, -, hsend⟩ := bind_eq_ok.mp hsend
  split at hsend
  · cases hsend
    exact ⟨⟨rfl, rfl, rfl⟩, rfl⟩
  · dsimp only at hsend
    split at hsend
    · cases hsend
    · cases hsend
      exact ⟨⟨rfl, rfl, rfl⟩, rfl⟩

theorem sesSendHttpData_kept {date : Tm} {handled : Handled}
    (hsend : sesSendHttpData session memory date = .ok handled) :
    session.Kept handled.session := by
  rw [sesSendHttpData] at hsend
  split_ifs at hsend
  · exact sesSendErrorInfo_kept hsend
  · cases hsend
    exact .refl session

theorem sesHttpProcotolHandler_kept {lua : LuaOutcome} {date : Tm} {handled : Handled}
    (hhandler : sesHttpProcotolHandler session memory lua date = .ok handled) :
    session.Kept handled.session := by
  obtain ⟨⟨ret, next⟩, haccess, hhandler⟩ := bind_eq_ok.mp hhandler
  have hkept := luaAccess_kept haccess
  dsimp only at hhandler
  split_ifs at hhandler with hret
  · cases hhandler
    exact hkept
  · obtain ⟨sent, hsend, hhandler⟩ := bind_eq_ok.mp hhandler
    have hsent := sesSendHttpData_kept hsend
    cases hhandler
    split_ifs <;> exact hkept.trans hsent

theorem Session.append_kept {chunk : Bytes} {complete : Bool}
    (happend : session.append memory chunk = .ok (complete, next)) : session.Kept next := by
  obtain ⟨ptr, -, happend⟩ := bind_eq_ok.mp happend
  split at happend
  · cases happend
    exact ⟨⟨rfl, rfl, rfl⟩, rfl⟩
  · split at happend
    · cases happend
    · cases happend
      exact ⟨⟨rfl, rfl, rfl⟩, rfl⟩

theorem sesRecvRounds_kept {pending : Bytes} {complete : Bool}
    (hrounds : sesRecvRounds memory session pending = .ok (complete, next)) :
    session.Kept next := by
  fun_induction sesRecvRounds memory session pending with
  | case1 =>
    cases hrounds
    exact .refl _
  | case2 => cases hrounds
  | case3 session pending hpending stopped happend =>
    cases hrounds
    exact Session.append_kept happend
  | case4 session pending hpending longer happend hfull ih =>
    exact (Session.append_kept happend).trans (ih hrounds)
  | case5 session pending hpending longer happend hfull =>
    cases hrounds
    exact Session.append_kept happend

theorem sesRecv_kept {input : Readable} {received : Received}
    (hrecv : sesRecv session input = .ok received) : session.Kept received.handled.session := by
  obtain ⟨⟨complete, next⟩, hrounds, hrecv⟩ := bind_eq_ok.mp hrecv
  have hkept := sesRecvRounds_kept hrounds
  dsimp only at hrecv
  split_ifs at hrecv with hcomplete heof
  · cases hrecv
    exact hkept
  · cases hrecv
    exact hkept.trans ⟨⟨rfl, rfl, rfl⟩, rfl⟩
  · obtain ⟨handled, hhandler, hrecv⟩ := bind_eq_ok.mp hrecv
    have hhandled := sesHttpProcotolHandler_kept hhandler
    cases hrecv
    dsimp only
    split_ifs <;> exact hkept.trans hhandled

theorem sesSend_sameIds {len : Int} {sent : Sent} (hsend : sesSend session len = .ok sent) :
    session.SameIds sent.handled.session := by
  rw [sesSend] at hsend
  split at hsend
  · cases hsend
    exact ⟨rfl, rfl, rfl⟩
  · split at hsend
    · cases hsend
    · split at hsend
      · cases hsend
      · split at hsend
        · cases hsend
          exact ⟨rfl, rfl, rfl⟩
        · split at hsend
          · split at hsend
            · cases hsend
            · cases hsend
              exact ⟨rfl, rfl, rfl⟩
          · cases hsend
            exact ⟨rfl, rfl, rfl⟩

end Kept

/-- A session as `ses_create_new_session` fills it. -/
def newSession (fid : Int) (sid pid : BitVec 32) : Session where
  state := ⟨true, false, false, false, false, false, false⟩
  fid := fid
  sid := sid
  pid := pid
  errorInfo := .snprintf []
  rcvBuf := none
  rcvBuflen := 0
  rcvLen := 0
  sndBuf := none
  sndLen := 0

namespace Sample

theorem year_fits : 1900 + 116 < 2 ^ 31 := by decide

def date : Tm := ⟨1, 1, 1, 116, 12, 0, 0, year_fits⟩

def memory : Memory := ⟨fun _ => true, fun _ => 0⟩

end Sample

end Http

end WaterWall
