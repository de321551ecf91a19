/-
The sessions of the administrator pages: an_web_cache_t of hash.c, found by its token in
an_web_cache_hash and freed by its own timer.  Every request puts the timer off.  The wheel is
the one of TimerWheel; requests come between the calls of `run_timers`.
-/
import WaterWall.HashChains
import WaterWall.Ledger
import WaterWall.TimerExactness

namespace WaterWall

namespace WebSession

open AlarmClock List Function Option

abbrev Token : Type := BitVec 32

/-- COOKIE_AGEING_TIME * HZ. -/
def cookieAge : Nat := 3600 * 1000

/-- an_web_cache_t without its lists.  `block` is the allocation it lies in, since an address
may be used again. -/
structure WebCache where
  token : Token
  timeout : TimerId
  block : Nat
  deriving DecidableEq, Repr

/-- The sum of the bytes of a token. -/
def anWebCacheTGetHash (token : Token) : Fin 256 :=
  HashChains.byteBucket ((token.extractLsb' 0 8).toNat + (token.extractLsb' 8 8).toNat +
    (token.extractLsb' 16 8).toNat + (token.extractLsb' 24 8).toNat)

/-- `data` is what `timer.data` leads to, and `lastRequest` the reading of `jiffies` in the last
request with a token. -/
structure Server where
  system : System
  anWebCacheHash : HashChains.Table (Fin 256) WebCache
  data : TimerId → Option WebCache
  blocks : Ledger
  lastRequest : Token → Nat

def start (expires : TimerId → UInt64) (jiffies : Nat) : Server where
  system := initTimersCpu expires jiffies
  anWebCacheHash := HashChains.empty
  data _ := none
  blocks := .empty
  lastRequest _ := 0

/-- `init_timer`. -/
def initTimer (base : Base) (timer : TimerId) : Base :=
  { base with entry := Function.update base.entry timer none }

namespace Server

def findByToken (server : Server) (token : Token) : Option WebCache :=
  HashChains.lookup anWebCacheTGetHash WebCache.token server.anWebCacheHash token

/-- an_web_cache_t_create with memory at `address`, reading `jiffies` once. -/
def create (server : Server) (token : Token) (address : TimerId) (jiffies : Nat) :
    WebCache × Server :=
  let cache : WebCache := ⟨token, address, server.blocks.next⟩
  let base := initTimer server.system.base address
  let base := (base.setExpires address (UInt64.ofNat (jiffies + cookieAge))).addTimer address
  (cache,
    { system := { server.system with base := base, clock := jiffies }
      anWebCacheHash :=
        HashChains.insert server.anWebCacheHash (anWebCacheTGetHash token) cache
      data := Function.update server.data address (some cache)
      blocks := server.blocks.acquire
      lastRequest := Function.update server.lastRequest token jiffies })

def findCreateByToken (server : Server) (token : Token) (address : TimerId) (jiffies : Nat) :
    WebCache × Server :=
  match server.findByToken token with
  | some cache => (cache, server)
  | none => server.create token address jiffies

/-- `mod_timer(&web_cache->timeout, jiffies + COOKIE_AGEING_TIME * HZ)`. -/
def putOff (server : Server) (cache : WebCache) (jiffies : Nat) : Server :=
  { server with
    system := { server.system with
      base := server.system.base.modTimer cache.timeout (UInt64.ofNat (jiffies + cookieAge))
      clock := jiffies }
    lastRequest := Function.update server.lastRequest cache.token jiffies }

/-- an_web_cache_t_timeout, called with the data of a timer; `none` is a fault. -/
def timeout (server : Server) (timer : TimerId) : Option Server :=
  match server.data timer with
  | none => none
  | some cache =>
    some { server with
      system := { server.system with base := (server.system.base.delTimer cache.timeout).2 }
      anWebCacheHash := HashChains.remove server.anWebCacheHash
        (anWebCacheTGetHash cache.token) fun other => other.timeout = cache.timeout
      data := Function.update server.data timer none
      blocks := server.blocks.release (some cache.block) }

end Server

/-- `created` is the reading of `jiffies` in an_web_cache_t_create and `jiffies` the one behind
it; without a new record only the second is made.  The rest is `run_timers`. -/
inductive WebEvent where
  | request (token : Token) (address : TimerId) (created jiffies : Nat)
  | enter
  | read (jiffies : Nat)
  | fire
  deriving DecidableEq, Repr

namespace Server

/-- An event, where it is possible: `jiffies` does not go back and `malloc` returns an address
that is not in use. -/
def step (server : Server) : WebEvent → Option Server
  | .request token address created jiffies =>
    if server.system.phase = .outside ∧ server.system.clock ≤ created ∧ created ≤ jiffies ∧
        server.data address = none then
      let (cache, server) := server.findCreateByToken token address created
      some (server.putOff cache jiffies)
    else none
  | .enter => (WaterWall.step server.system .enter).map fun system =>
    { server with system := system }
  | .read jiffies => (WaterWall.step server.system (.read jiffies)).map fun system =>
    { server with system := system }
  | .fire =>
    match server.system.base.lists .workList with
    | [] => none
    | timer :: _ =>
      match WaterWall.step server.system .fire with
      | none => none
      | some system => timeout { server with system := system } timer

def run : Server → List WebEvent → Option Server
  | server, [] => some server
  | server, event :: events =>
    match server.step event with
    | none => none
    | some next => run next events

end Server

/-- How far ahead of `timer_jiffies` a reading may be: an expiry computed from it must not be
2^63 ahead, and neither must a reading in the loop of `run_timers`. -/
def WebEvent.Near (tick : Nat) : WebEvent → Prop
  | .request _ _ _ jiffies => jiffies + cookieAge < tick + 2 ^ 63
  | .enter => True
  | .read jiffies => jiffies < tick + 2 ^ 63
  | .fire => True

instance (tick : Nat) (event : WebEvent) : Decidable (event.Near tick) :=
  match event with
  | .request _ _ _ jiffies =>
    inferInstanceAs (Decidable (jiffies + cookieAge < tick + 2 ^ 63))
  | .enter => .isTrue trivial
  | .read jiffies => inferInstanceAs (Decidable (jiffies < tick + 2 ^ 63))
  | .fire => .isTrue trivial

/-- Every reading is near. -/
def Steady : Server → List WebEvent → Prop
  | _, [] => True
  | server, event :: events =>
    event.Near server.system.tick ∧
      match server.step event with
      | none => True
      | some next => Steady next events

/-- The record is linked into the hash. -/
def Server.Holds (server : Server) (cache : WebCache) : Prop :=
  cache ∈ server.anWebCacheHash (anWebCacheTGetHash cache.token)

/-- The sessions at one moment: one record for a token, with its timer pending, and every record
ever made is in the hash or has been freed once. -/
structure Server.Alive (server : Server) : Prop where
  one_record : ∀ token,
    HashChains.occurrences WebCache.token server.anWebCacheHash token ≤ 1
  pending : ∀ bucket, ∀ cache ∈ server.anWebCacheHash bucket,
    bucket = anWebCacheTGetHash cache.token ∧
      server.system.base.timerPending cache.timeout = true
  freed_once : ∀ block, block < server.blocks.next →
    server.blocks.released.count block + HashChains.weight
      (fun cache : WebCache => if block = cache.block then 1 else 0) server.anWebCacheHash = 1

/-- What an event does to the records: only the timeout of a record takes it away, not before
its time; the callback always finds its record; and a `run_timers` that returns leaves no record
whose time is over. -/
structure Promised (server : Server) (event : WebEvent) (next : Server) : Prop where
  destroyed : ∀ cache, server.Holds cache → ¬next.Holds cache →
    event = .fire ∧ (server.system.base.lists .workList).head? = some cache.timeout ∧
      server.lastRequest cache.token + cookieAge ≤ server.system.clock ∧
      next.blocks.released = {cache.block} + server.blocks.released
  released : next.blocks.released ≠ server.blocks.released →
    ∃ cache, server.Holds cache ∧ ¬next.Holds cache
  gone : ∀ jiffies, event = .read jiffies → next.system.phase = .outside →
    ∀ cache, next.Holds cache → jiffies < next.lastRequest cache.token + cookieAge

/-- The sessions keep their promise along some events. -/
def KeepsPromise (first : Server) (events : List WebEvent) : Prop :=
  ∀ pre event post server, events = pre ++ event :: post → first.run pre = some server →
    server.Alive ∧
      ((WaterWall.step server.system .fire).isSome → (server.step .fire).isSome) ∧
      ∀ next, server.step event = some next → next.Alive ∧ Promised server event next

section Wheel

variable {system next : System} {clock : Clock TimerId} {timer : TimerId}

theorem deadlineAt_of_placeable {tick deadline : Nat} {expires : UInt64}
    (hplace : Placeable tick expires deadline) : deadlineAt tick expires = deadline := by
  rcases hplace with ⟨hexpires, hle, hlt⟩ | ⟨hdeadline, hpast⟩
  · have hdistance : (expires - UInt64.ofNat tick).toNat = deadline - tick := by
      rw [hexpires, UInt64.toNat_sub, UInt64.toNat_ofNat', UInt64.toNat_ofNat']
      omega
    rw [deadlineAt_of_near (by omega), hdistance]
    omega
  · rw [deadlineAt_of_past hpast, hdeadline]

theorem deadlineAt_request {tick jiffies : Nat} (hbehind : tick ≤ jiffies + 1)
    (hnear : jiffies + cookieAge < tick + 2 ^ 63) :
    deadlineAt tick (UInt64.ofNat (jiffies + cookieAge)) = jiffies + cookieAge := by
  apply deadlineAt_of_placeable
  left
  refine ⟨rfl, ?_, hnear⟩
  rw [cookieAge]
  omega

theorem simulates_later (hsim : Simulates system clock) {jiffies : Nat}
    (hlater : system.clock ≤ jiffies) : Simulates { system with clock := jiffies } clock :=
  ⟨hsim.tracks, hsim.now, hsim.behind.trans (Nat.succ_le_succ hlater), hsim.idle⟩

theorem simulates_modTimer (hsim : Simulates system clock) {expires : UInt64}
    (harmed : system.base.expires timer = expires → system.base.timerPending timer = true →
      clock.armed timer = some (deadlineAt system.tick expires)) :
    Simulates { system with base := system.base.modTimer timer expires }
      (clock.set timer (some (deadlineAt system.tick expires))) := by
  rw [Base.modTimer]
  split_ifs with hsame
  · have hset : clock.set timer (some (deadlineAt system.tick expires)) = clock := by
      rw [Clock.set, ← harmed hsame.1 hsame.2, update_eq_self]
    rw [hset]
    exact hsim
  · exact (hsim.arm timer expires).2

theorem expires_modTimerAlways (base : Base) (timer : TimerId) (expires : UInt64) :
    (base.modTimerAlways timer expires).expires =
      Function.update base.expires timer expires := by
  rw [Base.modTimerAlways]
  split_ifs
  · change Function.update (base.detachTimer timer).expires timer expires = _
    rw [expires_detachTimer]
  · rfl

theorem expires_modTimer (base : Base) (timer : TimerId) (expires : UInt64) :
    (base.modTimer timer expires).expires = Function.update base.expires timer expires := by
  rw [Base.modTimer]
  split_ifs with hsame
  · rw [← hsame.1, update_eq_self]
  · exact expires_modTimerAlways base timer expires

theorem expires_cascade (base : Base) (level : Level) (index : Nat) :
    (base.cascade level index).expires = base.expires := by
  rw [Base.cascade]
  suffices hfold : ∀ timers : List TimerId, ∀ base : Base,
      (timers.foldl Base.internalAddTimer base).expires = base.expires from hfold _ _
  intro timers
  induction timers with
  | nil => exact fun base => rfl
  | cons timer timers ih => exact fun base => ih _

theorem expires_cascadeFrom (levels : List Level) (base : Base) :
    (base.cascadeFrom levels).expires = base.expires := by
  induction levels generalizing base with
  | nil => rfl
  | cons level levels ih =>
    rw [Base.cascadeFrom]
    split_ifs
    · rw [ih, expires_cascade]
    · exact expires_cascade base level _

theorem expires_beginTick (base : Base) : base.beginTick.expires = base.expires := by
  rw [Base.beginTick]
  split_ifs
  · exact expires_cascadeFrom _ base
  · rfl

theorem expires_read {jiffies : Nat} (hstep : WaterWall.step system (.read jiffies) = some next) :
    next.base.expires = system.base.expires := by
  rw [WaterWall.step] at hstep
  split_ifs at hstep
  · cases hstep
    exact expires_beginTick system.base
  · cases hstep
    rfl

theorem armed_of_read {jiffies : Nat} {clock' : Clock TimerId}
    (hpath : Path clock (actionsOf system (.read jiffies)) clock') :
    clock'.armed = clock.armed := by
  rw [actionsOf] at hpath
  split_ifs at hpath
  · cases hpath with
    | cons hstep hrest =>
      cases hstep
      cases hrest
      rfl
  · cases hpath
    rfl

theorem step_fire {rest : List TimerId} (hsim : Simulates system clock)
    (hwork : system.base.lists .workList = timer :: rest)
    (hstep : WaterWall.step system .fire = some next) :
    Simulates next (clock.set timer none) ∧ next.base.timerPending timer = false ∧
      next.base.expires = system.base.expires ∧ next.clock = system.clock ∧
      ∃ deadline, clock.armed timer = some deadline ∧ deadline ≤ system.clock := by
  obtain ⟨clock', hpath, hnext⟩ := hsim.step (by simp) hstep
  obtain ⟨-, deadline, harmed, hdue⟩ := hsim.head_due hwork
  have hclock : clock' = clock.set timer none := by
    simp only [actionsOf, hwork] at hpath
    cases hpath with
    | cons hfire hrest =>
      cases hfire
      cases hrest
      rfl
  rw [hclock] at hnext
  refine ⟨hnext, ?_, ?_, ?_, deadline, harmed, ?_⟩
  · have hpending := hnext.tracks.pending timer not_mem_nil
    rw [Clock.set_armed_self] at hpending
    simpa [Base.timerPending] using hpending
  · simp only [WaterWall.step, hwork] at hstep
    split_ifs at hstep
    cases hstep
    exact expires_detachTimer system.base timer
  · simp only [WaterWall.step, hwork] at hstep
    split_ifs at hstep
    cases hstep
    rfl
  · have hbehind := hsim.behind
    have hnow := hsim.now
    omega

end Wheel

/-- The blocks of the records in the hash. -/
def Server.held (server : Server) : Multiset Nat :=
  HashChains.weight (fun cache : WebCache => {cache.block}) server.anWebCacheHash

/-- Records and timers belong together: a timer leads to a record of the hash, and is armed for
the end of its time. -/
structure Sound (server : Server) (clock : Clock TimerId) : Prop where
  sim : Simulates server.system clock
  keyed : HashChains.Keyed anWebCacheTGetHash WebCache.token server.anWebCacheHash
  data_iff : ∀ timer cache, server.data timer = some cache ↔
    server.findByToken cache.token = some cache ∧ cache.timeout = timer
  armed : ∀ timer, clock.armed timer =
    (server.data timer).map fun cache => server.lastRequest cache.token + cookieAge
  expires : ∀ timer cache, server.data timer = some cache →
    server.system.base.expires timer = UInt64.ofNat (server.lastRequest cache.token + cookieAge)
  seen : ∀ timer cache, server.data timer = some cache →
    server.lastRequest cache.token ≤ server.system.clock
  settled : server.blocks.Settled server.held

section Sound

variable {server next : Server} {clock : Clock TimerId} {cache : WebCache} {timer : TimerId}
  {jiffies : Nat}

theorem sound_start (expires : TimerId → UInt64) (jiffies : Nat) :
    Sound (start expires jiffies) ⟨jiffies, fun _ => none⟩ where
  sim := simulates_init expires jiffies
  keyed := HashChains.keyed_empty
  data_iff timer cache := by simp [start, Server.findByToken]
  armed _ := rfl
  expires _ _ hdata := by cases hdata
  seen _ _ hdata := by cases hdata
  settled := by
    rw [Server.held, start, HashChains.weight_empty]
    exact Ledger.settled_empty

theorem Sound.holds_iff (hsound : Sound server clock) :
    server.Holds cache ↔ server.data cache.timeout = some cache := by
  rw [hsound.data_iff, Server.findByToken, hsound.keyed.lookup_eq_some_iff]
  simp [Server.Holds]

theorem Sound.tick_le (hsound : Sound server clock) (hphase : server.system.phase = .outside)
    (hdata : server.data timer = some cache) :
    server.system.tick ≤ server.lastRequest cache.token + cookieAge := by
  rw [← hsound.sim.now]
  apply hsound.sim.current (hsound.sim.idle hphase) timer
  rw [hsound.armed, hdata]
  rfl

theorem Sound.putOff (hsound : Sound server clock) (hphase : server.system.phase = .outside)
    (hdata : server.data cache.timeout = some cache) (hlater : server.system.clock ≤ jiffies)
    (hnear : jiffies + cookieAge < server.system.tick + 2 ^ 63) :
    Sound (server.putOff cache jiffies)
      (clock.set cache.timeout (some (jiffies + cookieAge))) := by
  have hbehind := hsound.sim.behind
  have hdeadline := deadlineAt_request (hbehind.trans (Nat.succ_le_succ hlater)) hnear
  have hfind := (hsound.data_iff _ _).mp hdata
  -- another timer leads to a record with another token
  have hothers : ∀ timer other, server.data timer = some other → timer ≠ cache.timeout →
      other.token ≠ cache.token := by
    intro timer other hother hne htoken
    obtain ⟨hfound, htimeout⟩ := (hsound.data_iff _ _).mp hother
    rw [htoken, hfind.1] at hfound
    cases hfound
    exact hne htimeout.symm
  have hrequest : ∀ timer other, server.data timer = some other →
      (server.putOff cache jiffies).lastRequest other.token =
        if timer = cache.timeout then jiffies else server.lastRequest other.token := by
    intro timer other hother
    split_ifs with htimer
    · rw [htimer, hdata] at hother
      cases hother
      exact update_self ..
    · exact update_of_ne (hothers timer other hother htimer) ..
  constructor
  · have harmed : server.system.base.expires cache.timeout =
        UInt64.ofNat (jiffies + cookieAge) →
        server.system.base.timerPending cache.timeout = true →
        clock.armed cache.timeout =
          some (deadlineAt server.system.tick (UInt64.ofNat (jiffies + cookieAge))) := by
      intro hsame _
      rw [hsound.expires _ _ hdata] at hsame
      have hplace : Placeable server.system.tick
          (UInt64.ofNat (server.lastRequest cache.token + cookieAge))
          (server.lastRequest cache.token + cookieAge) := by
        have hseen := hsound.seen _ _ hdata
        exact .inl ⟨rfl, hsound.tick_le hphase hdata, by omega⟩
      rw [hsound.armed, hdata, ← hsame, deadlineAt_of_placeable hplace]
      rfl
    have hsim := simulates_modTimer hsound.sim harmed
    rw [hdeadline] at hsim
    exact simulates_later hsim hlater
  · exact hsound.keyed
  · exact hsound.data_iff
  · intro timer
    change Function.update clock.armed cache.timeout (some (jiffies + cookieAge)) timer =
      (server.data timer).map fun other =>
        (server.putOff cache jiffies).lastRequest other.token + cookieAge
    cases hother : server.data timer with
    | none =>
      have hne : timer ≠ cache.timeout := by
        rintro rfl
        rw [hdata] at hother
        cases hother
      rw [update_of_ne hne, hsound.armed, hother, map_none, map_none]
    | some other =>
      rw [map_some, hrequest timer other hother, update_apply]
      split_ifs
      · rfl
      · rw [hsound.armed, hother]
        rfl
  · intro timer other hother
    change (server.system.base.modTimer _ _).expires timer = _
    rw [hrequest timer other hother, expires_modTimer, update_apply]
    split_ifs
    · rfl
    · exact hsound.expires timer other hother
  · intro timer other hother
    change _ ≤ jiffies
    rw [hrequest timer other hother]
    split_ifs
    · exact Nat.le_refl _
    · exact (hsound.seen timer other hother).trans hlater
  · exact hsound.settled

theorem Sound.initTimer_eq (hsound : Sound server clock) (hdata : server.data timer = none) :
    initTimer server.system.base timer = server.system.base := by
  have hpending := hsound.sim.tracks.pending timer not_mem_nil
  rw [hsound.armed, hdata] at hpending
  have hentry : server.system.base.entry timer = none := by simpa using hpending
  rw [initTimer, ← hentry, update_eq_self]

theorem Sound.create (hsound : Sound server clock) {token : Token}
    (hdata : server.data timer = none) (hfind : server.findByToken token = none)
    (hlater : server.system.clock ≤ jiffies)
    (hnear : jiffies + cookieAge < server.system.tick + 2 ^ 63) :
    Sound (server.create token timer jiffies).2
      (clock.set timer (some (jiffies + cookieAge))) := by
  have hbehind := hsound.sim.behind
  have hdeadline := deadlineAt_request (hbehind.trans (Nat.succ_le_succ hlater)) hnear
  -- no record has the new token
  have hothers : ∀ other cache, server.data other = some cache → cache.token ≠ token := by
    intro other cache hcache htoken
    have hfound := ((hsound.data_iff _ _).mp hcache).1
    rw [htoken, hfind] at hfound
    cases hfound
  have hnewFind : ∀ other, (server.create token timer jiffies).2.findByToken other =
      if other = token then some ⟨token, timer, server.blocks.next⟩
      else server.findByToken other :=
    fun other => HashChains.lookup_insert (⟨token, timer, server.blocks.next⟩ : WebCache) other
  have hnewData : ∀ other, (server.create token timer jiffies).2.data other =
      if other = timer then some ⟨token, timer, server.blocks.next⟩ else server.data other :=
    fun other => update_apply ..
  have hbase : (server.create token timer jiffies).2.system.base =
      server.system.base.modTimerAlways timer (UInt64.ofNat (jiffies + cookieAge)) := by
    rw [← addTimer_setExpires, ← hsound.initTimer_eq hdata]
    rfl
  have hrequest : ∀ other cache, server.data other = some cache →
      (server.create token timer jiffies).2.lastRequest cache.token =
        server.lastRequest cache.token :=
    fun other cache hcache => update_of_ne (hothers other cache hcache) ..
  have hrequestNew : (server.create token timer jiffies).2.lastRequest token = jiffies :=
    update_self ..
  constructor
  · have hsim := (hsound.sim.arm timer (UInt64.ofNat (jiffies + cookieAge))).2
    rw [hdeadline, ← hbase] at hsim
    exact simulates_later hsim hlater
  · exact hsound.keyed.insert (⟨token, timer, server.blocks.next⟩ : WebCache) hfind
  · intro other cache
    rw [hnewData, hnewFind]
    constructor
    · split_ifs with hother htoken htoken
      · rintro ⟨⟩
        exact ⟨rfl, hother.symm⟩
      · rintro ⟨⟩
        exact absurd rfl htoken
      · exact fun hcache => absurd htoken (hothers other cache hcache)
      · exact (hsound.data_iff other cache).mp
    · split_ifs with htoken hother hother
      · exact fun hcache => hcache.1
      · rintro ⟨⟨⟩, hsame⟩
        exact absurd hsame.symm hother
      · rintro ⟨hcache, hsame⟩
        have hold := (hsound.data_iff other cache).mpr ⟨hcache, hsame⟩
        rw [hother, hdata] at hold
        cases hold
      · exact (hsound.data_iff other cache).mpr
  · intro other
    change Function.update clock.armed timer (some (jiffies + cookieAge)) other = _
    rw [hnewData, update_apply]
    split_ifs
    · rw [map_some, hrequestNew]
    · rw [hsound.armed]
      cases hcache : server.data other with
      | none => rw [map_none, map_none]
      | some cache => rw [map_some, map_some, hrequest other cache hcache]
  · intro other cache
    rw [hnewData, hbase]
    rw [expires_modTimerAlways, update_apply]
    split_ifs
    · rintro ⟨⟩
      rw [hrequestNew]
    · intro hcache
      rw [hrequest other cache hcache]
      exact hsound.expires other cache hcache
  · intro other cache
    change _ → _ ≤ jiffies
    rw [hnewData]
    split_ifs
    · rintro ⟨⟩
      rw [hrequestNew]
    · intro hcache
      rw [hrequest other cache hcache]
      exact (hsound.seen other cache hcache).trans hlater
  · have hheld : (server.create token timer jiffies).2.held =
        {server.blocks.next} + server.held := by
      rw [add_comm]
      exact HashChains.weight_insert ..
    rw [hheld]
    exact hsound.settled.acquire

theorem Sound.withSystem {system : System} {clock' : Clock TimerId}
    (hsound : Sound server clock) (hsim : Simulates system clock')
    (harmed : clock'.armed = clock.armed)
    (hexpires : system.base.expires = server.system.base.expires)
    (hlater : server.system.clock ≤ system.clock) :
    Sound { server with system := system } clock' where
  sim := hsim
  keyed := hsound.keyed
  data_iff := hsound.data_iff
  armed timer := by
    rw [harmed]
    exact hsound.armed timer
  expires timer cache hdata := by
    change system.base.expires timer = _
    rw [hexpires]
    exact hsound.expires timer cache hdata
  seen timer cache hdata := (hsound.seen timer cache hdata).trans hlater
  settled := hsound.settled

theorem Sound.remove_eq (hsound : Sound server clock)
    (hdata : server.data timer = some cache) :
    HashChains.remove server.anWebCacheHash (anWebCacheTGetHash cache.token)
        (fun other => other.timeout = cache.timeout) =
      HashChains.removeKey anWebCacheTGetHash WebCache.token server.anWebCacheHash
        cache.token := by
  obtain ⟨hfind, htimeout⟩ := (hsound.data_iff _ _).mp hdata
  obtain ⟨front, rest, hchain, -, hfront⟩ := HashChains.lookup_split hfind
  rw [HashChains.removeKey_split hchain rfl hfront, HashChains.remove, hchain,
    eraseP_append_right, eraseP_cons_of_pos (by simp)]
  intro other hother
  have hplaced := hsound.keyed.placed (anWebCacheTGetHash cache.token) other
    (by rw [hchain]; exact mem_append_left _ hother)
  have hfound : server.findByToken other.token = some other := by
    rw [Server.findByToken, hsound.keyed.lookup_eq_some_iff, hplaced, hchain]
    exact ⟨mem_append_left _ hother, rfl⟩
  have hlead := (hsound.data_iff other.timeout other).mpr ⟨hfound, rfl⟩
  grind

theorem Sound.timeout {system : System} (hsound : Sound server clock)
    (hdata : server.data timer = some cache)
    (hsim : Simulates system (clock.set timer none))
    (hpending : system.base.timerPending timer = false)
    (hexpires : system.base.expires = server.system.base.expires)
    (hclock : system.clock = server.system.clock) :
    ∃ next, ({ server with system := system } : Server).timeout timer = some next ∧
      Sound next (clock.set timer none) ∧
      (∀ other, next.Holds other ↔ server.Holds other ∧ other ≠ cache) ∧
      next.blocks.released = {cache.block} + server.blocks.released := by
  obtain ⟨hfind, htimeout⟩ := (hsound.data_iff _ _).mp hdata
  refine ⟨{ server with
    system := system
    anWebCacheHash := HashChains.removeKey anWebCacheTGetHash WebCache.token
      server.anWebCacheHash cache.token
    data := Function.update server.data timer none
    blocks := server.blocks.release (some cache.block) }, ?_, ?_, ?_, rfl⟩
  · subst htimeout
    simp only [Server.timeout, hdata, hsound.remove_eq hdata, Base.delTimer, hpending]
    rfl
  · have hnewFind : ∀ token, HashChains.lookup anWebCacheTGetHash WebCache.token
        (HashChains.removeKey anWebCacheTGetHash WebCache.token server.anWebCacheHash
          cache.token) token =
        if token = cache.token then none else server.findByToken token :=
      hsound.keyed.lookup_removeKey
    constructor
    · exact hsim
    · exact hsound.keyed.removeKey
    · intro other record
      change Function.update server.data timer none other = some record ↔
        HashChains.lookup _ _ _ record.token = some record ∧ _
      rw [hnewFind, update_apply]
      split_ifs with hother htoken htoken
      · simp
      · simp only [false_iff, not_and]
        intro hrecord hsame
        have hlead := (hsound.data_iff other record).mpr ⟨hrecord, hsame⟩
        rw [hother, hdata] at hlead
        cases hlead
        exact htoken rfl
      · simp only [false_and, iff_false]
        intro hrecord
        obtain ⟨hrecordFind, hrecordTimeout⟩ := (hsound.data_iff other record).mp hrecord
        rw [htoken, hfind] at hrecordFind
        cases hrecordFind
        exact hother (hrecordTimeout.symm.trans htimeout)
      · exact hsound.data_iff other record
    · intro other
      change Function.update clock.armed timer none other =
        (Function.update server.data timer none other).map _
      rw [update_apply, update_apply]
      split_ifs
      · rfl
      · exact hsound.armed other
    · intro other record
      change Function.update server.data timer none other = some record →
        system.base.expires other = _
      rw [update_apply, hexpires]
      split_ifs
      · rintro ⟨⟩
      · exact hsound.expires other record
    · intro other record
      change Function.update server.data timer none other = some record → _ ≤ system.clock
      rw [update_apply, hclock]
      split_ifs
      · rintro ⟨⟩
      · exact hsound.seen other record
    · have hheld : HashChains.weight (fun record : WebCache => {record.block})
          (HashChains.removeKey anWebCacheTGetHash WebCache.token server.anWebCacheHash
            cache.token) + {cache.block} = server.held := HashChains.weight_removeKey hfind
      have hsettled := hsound.settled
      rw [← hheld, add_comm] at hsettled
      exact hsettled.release
  · intro other
    have hmem : other ∈ HashChains.removeKey anWebCacheTGetHash WebCache.token
        server.anWebCacheHash cache.token (anWebCacheTGetHash other.token) ↔
        HashChains.lookup anWebCacheTGetHash WebCache.token
          (HashChains.removeKey anWebCacheTGetHash WebCache.token server.anWebCacheHash
            cache.token) other.token = some other := by
      rw [hsound.keyed.removeKey.lookup_eq_some_iff]
      simp
    rw [Server.Holds, hmem, hsound.keyed.lookup_removeKey, hsound.holds_iff, hsound.data_iff,
      Server.findByToken]
    split_ifs with htoken
    · simp only [false_iff, not_and, not_not]
      grind [Server.findByToken.eq_1]
    · simp only [and_true, iff_self_and]
      rintro - rfl
      exact htoken rfl

theorem Sound.alive (hsound : Sound server clock) : server.Alive where
  one_record token := by
    rw [hsound.keyed.occurrences_eq]
    split_ifs
    · exact Nat.le_refl 1
    · exact Nat.zero_le 1
  pending bucket cache hcache := by
    have hplaced := hsound.keyed.placed bucket cache hcache
    have hdata : server.data cache.timeout = some cache := by
      rw [← hsound.holds_iff, Server.Holds, hplaced]
      exact hcache
    have hpending := hsound.sim.tracks.pending cache.timeout not_mem_nil
    rw [hsound.armed, hdata] at hpending
    exact ⟨hplaced.symm, hpending.mpr rfl⟩
  freed_once block hblock := by
    have hcount := hsound.settled.count_add hblock
    rw [Server.held, ← Multiset.coe_countAddMonoidHom, ← HashChains.weight_map] at hcount
    simpa only [Multiset.coe_countAddMonoidHom, Multiset.count_singleton] using hcount

theorem promised_of_same {event : WebEvent}
    (hholds : ∀ cache, server.Holds cache → next.Holds cache)
    (hblocks : next.blocks.released = server.blocks.released)
    (hevent : ∀ jiffies, event ≠ .read jiffies) : Promised server event next where
  destroyed cache hcache hnot := absurd (hholds cache hcache) hnot
  released hne := absurd hblocks hne
  gone jiffies hread := absurd hread (hevent jiffies)

theorem Sound.request (hsound : Sound server clock) {token : Token} {address : TimerId}
    {created : Nat} (hnear : WebEvent.Near server.system.tick (.request token address created
      jiffies))
    (hstep : server.step (.request token address created jiffies) = some next) :
    (∃ clock', Sound next clock') ∧
      Promised server (.request token address created jiffies) next := by
  rw [Server.step] at hstep
  split_ifs at hstep with henabled
  obtain ⟨hphase, hlater, hordered, haddress⟩ := henabled
  rw [Server.findCreateByToken] at hstep
  cases hfind : server.findByToken token with
  | some cache =>
    rw [hfind] at hstep
    cases hstep
    have htoken : cache.token = token := (HashChains.lookup_mem hfind).2
    have hdata := (hsound.data_iff cache.timeout cache).mpr ⟨by rw [htoken]; exact hfind, rfl⟩
    refine ⟨⟨_, hsound.putOff hphase hdata (hlater.trans hordered) hnear⟩, ?_⟩
    exact promised_of_same (fun _ hholds => hholds) rfl (by simp)
  | none =>
    rw [hfind] at hstep
    cases hstep
    have hcreated := hsound.create haddress hfind hlater
      (Nat.lt_of_le_of_lt (Nat.add_le_add_right hordered cookieAge) hnear)
    have hdata : (server.create token address created).2.data address =
        some ⟨token, address, server.blocks.next⟩ := update_self ..
    refine ⟨⟨_, hcreated.putOff hphase hdata hordered hnear⟩, ?_⟩
    refine promised_of_same ?_ rfl (by simp)
    intro cache hholds
    change cache ∈ Function.update server.anWebCacheHash _ _ _
    rw [update_apply]
    split_ifs with hbucket
    · rw [← hbucket]
      exact mem_cons_of_mem _ hholds
    · exact hholds

theorem Sound.enter (hsound : Sound server clock) (hstep : server.step .enter = some next) :
    (∃ clock', Sound next clock') ∧ Promised server .enter next := by
  rw [Server.step, map_eq_some_iff] at hstep
  obtain ⟨system, hsystem, rfl⟩ := hstep
  have hsame : system = { server.system with phase := .inLoop } := by
    rw [WaterWall.step] at hsystem
    split_ifs at hsystem
    exact (Option.some.inj hsystem).symm
  obtain ⟨clock', hpath, hsim⟩ := hsound.sim.step (by simp) hsystem
  cases hpath
  refine ⟨⟨clock, hsound.withSystem hsim rfl ?_ ?_⟩,
    promised_of_same (fun _ hholds => hholds) rfl (by simp)⟩
  · rw [hsame]
  · rw [hsame]

theorem Sound.read (hsound : Sound server clock)
    (hnear : jiffies < server.system.tick + 2 ^ 63)
    (hstep : server.step (.read jiffies) = some next) :
    (∃ clock', Sound next clock') ∧ Promised server (.read jiffies) next := by
  rw [Server.step, map_eq_some_iff] at hstep
  obtain ⟨system, hsystem, rfl⟩ := hstep
  obtain ⟨clock', hpath, hsim⟩ := hsound.sim.read hnear hsystem
  have hlater : server.system.clock ≤ system.clock := by
    obtain ⟨hactive, hwork, hmonotone⟩ := read_enabled hsystem
    rw [hsound.sim.step_read hactive hwork hmonotone hnear] at hsystem
    split_ifs at hsystem
    all_goals
      cases hsystem
      exact hmonotone
  have hnext := hsound.withSystem hsim (armed_of_read hpath) (expires_read hsystem) hlater
  refine ⟨⟨clock', hnext⟩, fun cache hcache hnot => absurd hcache hnot,
    fun hne => absurd rfl hne, ?_⟩
  rintro _ ⟨⟩ hphase cache hholds
  -- `run_timers` has processed every tick up to `jiffies`, so the timers left are later
  obtain ⟨hdone, -⟩ := hsound.sim.returned hnear hsystem hphase
  exact Nat.lt_of_lt_of_le hdone (hnext.tick_le hphase (hnext.holds_iff.mp hholds))

theorem Sound.fire (hsound : Sound server clock) {system : System}
    (hsystem : WaterWall.step server.system .fire = some system) :
    ∃ next, server.step .fire = some next ∧ (∃ clock', Sound next clock') ∧
      Promised server .fire next := by
  cases hwork : server.system.base.lists .workList with
  | nil => simp [WaterWall.step, hwork] at hsystem
  | cons timer rest =>
    obtain ⟨hsim, hpending, hexpires, hclock, deadline, harmed, hdue⟩ :=
      step_fire hsound.sim hwork hsystem
    rw [hsound.armed, map_eq_some_iff] at harmed
    obtain ⟨cache, hdata, rfl⟩ := harmed
    have htimeout := ((hsound.data_iff _ _).mp hdata).2
    obtain ⟨next, htimeoutStep, hnext, hholds, hreleased⟩ :=
      hsound.timeout hdata hsim hpending hexpires hclock
    have hheld : server.Holds cache := by
      rw [hsound.holds_iff, htimeout]
      exact hdata
    refine ⟨next, ?_, ⟨_, hnext⟩, ?_, ?_, by simp⟩
    · simp only [Server.step, hwork, hsystem]
      exact htimeoutStep
    · grind
    grind

theorem Sound.step {event : WebEvent} (hsound : Sound server clock)
    (hnear : event.Near server.system.tick) (hstep : server.step event = some next) :
    (∃ clock', Sound next clock') ∧ Promised server event next := by
  cases event with
  | request token address created jiffies => exact hsound.request hnear hstep
  | enter => exact hsound.enter hstep
  | read jiffies => exact hsound.read hnear hstep
  | fire =>
    cases hwork : server.system.base.lists .workList with
    | nil => simp [Server.step, hwork] at hstep
    | cons timer rest =>
      cases hsystem : WaterWall.step server.system .fire with
      | none => simp [Server.step, hwork, hsystem] at hstep
      | some system =>
        obtain ⟨other, hother, hresult⟩ := hsound.fire hsystem
        rw [hstep] at hother
        cases hother
        exact hresult

theorem Sound.run {events rest : List WebEvent} (hsound : Sound server clock)
    (hsteady : Steady server (events ++ rest)) (hrun : server.run events = some next) :
    (∃ clock', Sound next clock') ∧ Steady next rest := by
  induction events generalizing server clock with
  | nil =>
    cases hrun
    exact ⟨⟨clock, hsound⟩, hsteady⟩
  | cons event events ih =>
    rw [Server.run] at hrun
    cases hstep : server.step event with
    | none => simp [hstep] at hrun
    | some middle =>
      rw [hstep] at hrun
      rw [cons_append, Steady, hstep] at hsteady
      obtain ⟨⟨clock', hmiddle⟩, -⟩ := hsound.step hsteady.1 hstep
      exact ih hmiddle hsteady.2 hrun

end Sound

/-- While no reading of `jiffies` is too far ahead of `timer_jiffies`, every session lives as
long as promised. -/
theorem webSessions_keepPromise (expires : TimerId → UInt64) (jiffies : Nat)
    (events : List WebEvent) (hsteady : Steady (start expires jiffies) events) :
    KeepsPromise (start expires jiffies) events := by
  rintro pre event post server rfl hrun
  obtain ⟨⟨clock, hsound⟩, hrest⟩ := (sound_start expires jiffies).run hsteady hrun
  refine ⟨hsound.alive, ?_, ?_⟩
  · intro hfire
    obtain ⟨system, hsystem⟩ := isSome_iff_exists.mp hfire
    obtain ⟨next, hnext, -⟩ := hsound.fire hsystem
    rw [hnext]
    rfl
  · intro next hstep
    obtain ⟨⟨clock', hnext⟩, hpromised⟩ := hsound.step hrest.1 hstep
    exact ⟨hnext.alive, hpromised⟩

end WebSession

namespace WebSessionWitness

open WebSession

def server : Server := start (fun _ => 0) 0

/-- Two requests of one administrator and one of another with the same hash, and a
`run_timers`. -/
def visits : List WebEvent :=
  [.request 1 8 0 0, .request 256 16 0 1, .request 1 24 1 1, .enter, .read 1, .read 1, .read 1]

theorem keepPromise_visits :
    (server.run visits).map (fun last => (last.system.phase, last.system.tick,
        last.findByToken 1, last.findByToken 256)) =
      some (.outside, 2, some ⟨1, 8, 0⟩, some ⟨256, 16, 1⟩) ∧
    KeepsPromise server visits :=
  ⟨by decide, webSessions_keepPromise (fun _ => 0) 0 visits (by
    refine ⟨?_, ?_, ?_, trivial, ?_, ?_, ?_, trivial⟩ <;> decide)⟩

/-- `jiffies` jumps ahead by 2^63: `run_timers` returns at once and the session stays. -/
def jump : List WebEvent :=
  [.request 1 8 0 0, .enter, .read (2 ^ 63)]

theorem not_keepPromise_jump :
    (server.run jump).map (fun last => (last.system.phase, last.findByToken 1)) =
      some (.outside, some ⟨1, 8, 0⟩) ∧
    ¬KeepsPromise server jump := by
  refine ⟨by decide, ?_⟩
  intro hpromise
  obtain ⟨-, -, hnext⟩ := hpromise [.request 1 8 0 0, .enter] (.read (2 ^ 63)) [] _ rfl rfl
  obtain ⟨-, hpromised⟩ := hnext _ rfl
  have hlate := hpromised.gone (2 ^ 63) rfl rfl ⟨1, 8, 0⟩ List.mem_cons_self
  exact absurd hlate (by decide)

end WebSessionWitness

end WaterWall
