import MipStack.Network.ArpExchange
import MipStack.Network.Maintenance

/-!
# Neighbours that stay known

A cache entry is removed when it is older than twice the time after which a mipd sends its next
requests.  Here time passes, with a bound on how seldom a mipd gets to its purge, on how long a
request is under way and on how long a call takes.

* `Timing`             the three bounds, which together fit in one such time.  mipd waits for events
                       for 10 s at most, so the period is kept only where events come more often;
* `TimedNet`, `OnTime`   the network with its times, and when nothing is late;
* `TimedStep`          **one step in time**: calls take their readings of the clock shortly before
                       they end;
* `HeardAt`            what is known of the latest MIP-ARP frame on a link, and of the next one;
* `Upheld`, `TimedStep.upheld`   the invariant and its step lemma;
* `neighbours_maintained`   **where nothing is late, no neighbour is ever forgotten.**
-/

set_option linter.unusedSectionVars false

namespace MipStack
open Library

/-! ## a purge that finds nothing -/

namespace MipArpCache

/-- the readings that a purge leaves are readings of the same clock -/
theorem purge_clock (clock : Clock) (i : ℕ) (cache : MipArpCache) :
    ∀ k, ∃ k', (purge clock i cache).1 k = clock k' :=
  fun k => ⟨_, (purge_tested clock i cache).2 k⟩

/-- no request while the last ones are not old enough -/
theorem sub_lastArp_le {cache : MipArpCache} {now : ℤ} (h : cache.shouldCompleteNewArp now = false)
    (hnow : 0 ≤ now) (hlong : now < 2 ^ 63) (hlast : (cache.lastArp : ℤ) < 2 ^ 63)
    (hfreq : cache.updateFreq < 2 ^ 63) : now - cache.lastArp ≤ cache.updateFreq := by
  have hle := Nat.le_of_not_lt (of_decide_eq_false h)
  unfold toUnsigned at hle
  omega

theorem toUnsigned_of_lt {now : ℤ} (hnow : 0 ≤ now) (hlong : now < 2 ^ 63) :
    (toUnsigned now : ℤ) = now := by
  unfold toUnsigned
  omega

end MipArpCache

/-- **A purge that finds nothing too old** leaves the server as it is, or sends new requests. -/
theorem MIPDServer.updateArpCache_of_fresh {server : MIPDServer} {env : Env}
    (h : ∀ e ∈ server.cache.entries, ∀ k, ¬ e.isExpired (env.clock k) server.cache.maxAge) :
    (∃ k, server.cache.shouldCompleteNewArp (env.clock k) = false ∧
      server.updateArpCache env = (server, [])) ∨
    ∃ k, server.updateArpCache env = server.completeMipArp (env.clock k) := by
  have hpurge := MipArpCache.purge_of_fresh env.clock 0 server.cache h
  obtain ⟨k, hk⟩ := MipArpCache.purge_clock env.clock 0 server.cache 0
  obtain ⟨k', hk'⟩ := MipArpCache.purge_clock env.clock 0 server.cache 1
  rw [updateArpCache]
  dsimp only
  rw [hpurge, hk, hk']
  cases hshould : server.cache.shouldCompleteNewArp (env.clock k) with
  | true => exact Or.inr ⟨k', rfl⟩
  | false => exact Or.inl ⟨k, hshould, rfl⟩

theorem Cached.updateFreq {env : Env} {s : MIPDServer} {ev : Event} {cache : MipArpCache}
    (h : Cached env s ev cache) : cache.updateFreq = s.cache.updateFreq := by
  cases h with
  | purge => exact MipArpCache.updateFreq_updateArpCache env.clock s.cache
  | learn _ _ _ ha =>
    rcases MipArpCache.appendToCache_inv ha with ⟨_, rfl⟩ | ⟨_, _, rfl⟩
    · rfl
    · rfl
  | keep _ _ => rfl

/-! ## the network in time -/

/-- bounds in milliseconds: from one purge to the next, for a request on its way, and for a call -/
structure Timing where
  period : ℤ
  delay : ℤ
  duration : ℤ
  delay_nonneg : 0 ≤ delay
  enough : period + delay + 2 * duration ≤ CACHE_UPDATE_FREQ_MILLI

/-- the readings of a call that ends at the time `now` -/
def Clock.Recent (clock : Clock) (duration now : ℤ) : Prop :=
  ∀ k, now - duration ≤ clock k ∧ clock k ≤ now

section
variable {Node : Type} [DecidableEq Node]

structure TimedNet (Node : Type) where
  net : ArpNet Node
  now : ℤ
  /-- when a mipd has last purged its cache -/
  polled : Node → ℤ
  /-- frames with the time at which they were sent -/
  sent : List (ℤ × Frame Node)
  arrived : List (ℤ × Frame Node × Node)

/-- **At the time `now` nothing is late**: neither the next purge of a mipd, nor a request. -/
structure TimedNet.OnTime (N : Network Node) (tm : Timing) (t : TimedNet Node) (now : ℤ) : Prop where
  polls : ∀ x, now ≤ t.polled x + tm.period
  requests : ∀ time f y i j, (time, f) ∈ t.sent → f.package.mHeader.tra = 1 →
    N.link f.sender i y j → (i.rawSocket : ℤ) = f.sock →
    now ≤ time + tm.delay ∨ ∃ time', time ≤ time' ∧ (time', f, y) ∈ t.arrived

/-- the network after a step that ends at the time `now` -/
def TimedNet.after (t : TimedNet Node) (net : ArpNet Node) (now : ℤ) : TimedNet Node :=
  { t with
    net := net
    now := now
    sent := t.sent ++ (net.sent.drop t.net.sent.length).map fun f => (now, f) }

/-- time may pass as long as nothing is late, and the clock is a `long` -/
structure TimedNet.Passes (N : Network Node) (tm : Timing) (t : TimedNet Node) (now : ℤ) : Prop where
  le : t.now ≤ now
  long : now < 2 ^ 63
  onTime : t.OnTime N tm now

/-- **One step in time.**  No server ends, or starts again. -/
inductive TimedStep (N : Network Node) (tm : Timing) : TimedNet Node → TimedNet Node → Prop
  | poll {t : TimedNet Node} {net : ArpNet Node} {now : ℤ} {x : Node} {env : Env}
      (ht : t.Passes N tm now) (hclock : env.clock.Recent tm.duration now)
      (h : ArpStep N t.net (.event x env .poll) net) :
      TimedStep N tm t { t.after net now with polled := Function.update t.polled x now }
  | event {t : TimedNet Node} {net : ArpNet Node} {now : ℤ} {x : Node} {env : Env} {ev : Event}
      (ht : t.Passes N tm now) (hclock : env.clock.Recent tm.duration now) (hev : ev ≠ .poll)
      (h : ArpStep N t.net (.event x env ev) net) : TimedStep N tm t (t.after net now)
  | arrive {t : TimedNet Node} {net : ArpNet Node} {now : ℤ} {f : Frame Node} {y : Node} {env : Env}
      (ht : t.Passes N tm now) (hclock : env.clock.Recent tm.duration now)
      (h : ArpStep N t.net (.arrive f y env) net) :
      TimedStep N tm t { t.after net now with arrived := t.arrived ++ [(now, f, y)] }

/-- **The times at the start**: every server has heard each neighbour since this has `asked` last. -/
structure TimedNet.Starts (N : Network Node) (tm : Timing) (t : TimedNet Node) : Prop where
  reachable : t.net.Reachable N
  known : ∀ x i y j, N.link x i y j → t.net.Knows y i.mipAddress
  now : tm.duration ≤ t.now
  asked : ∃ asked : Node → ℤ, ∀ x, asked x ≤ t.now ∧
    t.polled x ≤ asked x + CACHE_UPDATE_FREQ_MILLI + tm.duration ∧
    (∀ server, t.net.servers x = some server → (server.cache.lastArp : ℤ) ≤ asked x) ∧
    ∀ i y j server, N.link x i y j → t.net.servers y = some server →
      ∀ e ∈ server.cache.entries, e.mipAddress = i.mipAddress → asked x - tm.duration ≤ e.lastUpdate
  sent : t.sent = []
  arrived : t.arrived = []

/-! ## the invariant -/

/-- **The latest MIP-ARP frame** from `x` on the interface `i` arrived at `y` at the time `time`, or it
counts as if it had; `asked` is when `x` has last sent requests.  If that was later, the first
request since then is under way. -/
structure HeardAt (tm : Timing) (t : TimedNet Node) (asked : ℤ) (x : Node) (i : InterfaceRecord)
    (y : Node) (time : ℤ) : Prop where
  past : time ≤ t.now
  entries : ∀ server, t.net.servers y = some server → ∀ e ∈ server.cache.entries,
    e.mipAddress = i.mipAddress → time - tm.duration ≤ e.lastUpdate
  latest : ∀ time' f, (time', f, y) ∈ t.arrived → f.sender = x → (i.rawSocket : ℤ) = f.sock →
    f.package.IsArp → time' ≤ time
  next : asked ≤ time ∨ ∃ time' f, time < time' ∧
    time' ≤ time + CACHE_UPDATE_FREQ_MILLI + tm.duration + tm.period ∧ (time', f) ∈ t.sent ∧
    f.sender = x ∧ (i.rawSocket : ℤ) = f.sock ∧ f.package.mHeader.tra = 1

/-- a mipd has asked at the time `asked`, and not found it time to ask again since -/
structure AskedAt (tm : Timing) (t : TimedNet Node) (x : Node) (asked : ℤ) : Prop where
  past : asked ≤ t.now
  polled : t.polled x ≤ asked + CACHE_UPDATE_FREQ_MILLI + tm.duration
  lastArp : ∀ server, t.net.servers x = some server → (server.cache.lastArp : ℤ) ≤ asked

/-- **The invariant.** -/
structure Upheld (N : Network Node) (tm : Timing) (t : TimedNet Node) : Prop where
  sound : t.net.Sound N
  freq : ∀ x server, t.net.servers x = some server →
    server.cache.updateFreq = CACHE_UPDATE_FREQ_MILLI
  known : ∀ x i y j, N.link x i y j → t.net.Knows y i.mipAddress
  now : tm.duration ≤ t.now
  asked : ∃ asked : Node → ℤ, (∀ x, AskedAt tm t x (asked x)) ∧
    ∀ x i y j, N.link x i y j → ∃ time, HeardAt tm t (asked x) x i y time

variable {N : WiredNetwork Node} {tm : Timing} {t t' : TimedNet Node} {x y : Node}
  {i j : InterfaceRecord} {asked time now : ℤ}

/-- **How late it can be**: the next request has come after a period, and is under way no longer than
the delay. -/
theorem HeardAt.late (h : HeardAt tm t asked x i y time) (ha : AskedAt tm t x asked)
    (hl : N.link x i y j) (ht : t.OnTime N.toNetwork tm now) :
    now ≤ time + CACHE_UPDATE_FREQ_MILLI + tm.duration + tm.period + tm.delay := by
  have hdelay := tm.delay_nonneg
  rcases h.next with hasked | ⟨time', f, hlt, hle, hf, rfl, hsock, htra⟩
  · have hpoll := ht.polls x
    have hpolled := ha.polled
    omega
  · rcases ht.requests time' f y i j hf htra hl hsock with hnow | ⟨time'', hge, harrived⟩
    · omega
    · have hpast := h.latest time'' f harrived rfl hsock (Or.inr htra)
      omega

/-- **No entry is too old** when nothing is late. -/
theorem Upheld.fresh (h : Upheld N.toNetwork tm t) (ht : t.OnTime N.toNetwork tm now)
    {server : MIPDServer} (hy : t.net.servers y = some server) {clock : Clock}
    (hclock : clock.Recent tm.duration now) : ∀ e ∈ server.cache.entries, ∀ k,
      ¬ e.isExpired (clock k) server.cache.maxAge := by
  intro e he k hexpired
  obtain ⟨i, x, j, hl, _, ha⟩ := (h.sound.servers y server hy).acquainted e he
  obtain ⟨asked, hasked, hheard⟩ := h.asked
  obtain ⟨time, hx⟩ := hheard x j y i (N.link_symm hl)
  have hlate := hx.late (hasked x) (N.link_symm hl) ht
  have hentry := hx.entries server hy e he ha.symm
  have hreading := (hclock k).2
  have henough := tm.enough
  have hage : clock k - e.lastUpdate > server.cache.maxAge := of_decide_eq_true hexpired
  have hfreq : 2 * server.cache.updateFreq < 2 ^ 63 := by
    rw [h.freq y server hy]
    decide
  rw [MipArpCache.maxAge_eq hfreq, h.freq y server hy] at hage
  omega

/-- what a step does not concern -/
theorem HeardAt.mono (h : HeardAt tm t asked x i y time) (hnow : t.now ≤ t'.now)
    (hentries : ∀ server', t'.net.servers y = some server' → ∀ e ∈ server'.cache.entries,
      e.mipAddress = i.mipAddress → ∃ server, t.net.servers y = some server ∧
        e ∈ server.cache.entries)
    (harrived : ∀ time' f, (time', f, y) ∈ t'.arrived → f.sender = x → (i.rawSocket : ℤ) = f.sock →
      f.package.IsArp → (time', f, y) ∈ t.arrived)
    (hsent : ∀ z ∈ t.sent, z ∈ t'.sent) : HeardAt tm t' asked x i y time where
  past := h.past.trans hnow
  entries server' hy e he ha := by
    obtain ⟨server, hserver, he'⟩ := hentries server' hy e he ha
    exact h.entries server hserver e he' ha
  latest time' f hf hx hsock harp := h.latest time' f (harrived time' f hf hx hsock harp) hx hsock harp
  next := by
    refine h.next.imp_right fun hnext => ?_
    obtain ⟨time', f, hlt, hle, hf, hrest⟩ := hnext
    exact ⟨time', f, hlt, hle, hsent _ hf, hrest⟩

/-- requests of `x` do not change what `y` has heard -/
theorem HeardAt.asking {asked' : ℤ} (h : HeardAt tm t asked x i y time)
    (hnext : asked' ≤ time ∨ ∃ time' f, time < time' ∧
      time' ≤ time + CACHE_UPDATE_FREQ_MILLI + tm.duration + tm.period ∧ (time', f) ∈ t.sent ∧
      f.sender = x ∧ (i.rawSocket : ℤ) = f.sock ∧ f.package.mHeader.tra = 1) :
    HeardAt tm t asked' x i y time :=
  ⟨h.past, h.entries, h.latest, hnext⟩

/-! ## the steps -/

theorem ArpNet.servers_after {s : ArpNet Node} {server server' : MIPDServer} {effects : List Effect}
    (h : (s.after x server' effects).servers y = some server) :
    y = x ∧ server = server' ∨ y ≠ x ∧ s.servers y = some server := by
  have h' : Function.update s.servers x (some server') y = some server := h
  by_cases hyx : y = x
  · rw [hyx, Function.update_self] at h'
    exact Or.inl ⟨hyx, (Option.some.inj h').symm⟩
  · rw [Function.update_of_ne hyx] at h'
    exact Or.inr ⟨hyx, h'⟩

theorem ArpNet.servers_stop {s : ArpNet Node} {server : MIPDServer}
    (h : Function.update s.servers x none y = some server) : s.servers y = some server := by
  by_cases hyx : y = x
  · rw [hyx, Function.update_self] at h
    cases h
  · rwa [Function.update_of_ne hyx] at h

/-- the frames of a step bear its time -/
theorem TimedNet.sent_after (t : TimedNet Node) (server : MIPDServer) (effects : List Effect) :
    (t.after (t.net.after x server effects) now).sent
      = t.sent ++ (framesOf x effects).map fun f => (now, f) := by
  show t.sent ++ ((t.net.sent ++ framesOf x effects).drop t.net.sent.length).map _ = _
  rw [List.drop_left]

section
variable {server server' : MIPDServer} {effects : List Effect} {polled : Node → ℤ}
  {arrived : List (ℤ × Frame Node × Node)}

theorem Upheld.known_after (h : Upheld N.toNetwork tm t) {a : ArpAction Node} {net : ArpNet Node}
    (hstep : ArpStep N.toNetwork t.net a net) (hc : Calm t.net a) :
    ∀ x i y j, N.link x i y j → net.Knows y i.mipAddress :=
  fun x i y j hl => hstep.knows hc (h.known x i y j hl)

theorem Upheld.freq_after (h : Upheld N.toNetwork tm t) {env : Env} {ev : Event}
    (hx : t.net.servers x = some server) (hev : server.handleEvent env ev = .ok (server', effects)) :
    ∀ y s, (t.net.after x server' effects).servers y = some s →
      s.cache.updateFreq = CACHE_UPDATE_FREQ_MILLI := by
  intro y s hs
  rcases ArpNet.servers_after hs with ⟨_, rfl⟩ | ⟨_, hs⟩
  · rw [(MIPDServer.cached hev).updateFreq]
    exact h.freq x server hx
  · exact h.freq y s hs

/-- a step at `x` that keeps the entries of its cache -/
theorem HeardAt.step {u : Node} (h : HeardAt tm t asked u i y time) (hnow : t.now ≤ now)
    (hx : t.net.servers x = some server) (hentries : server'.cache.entries = server.cache.entries) :
    HeardAt tm { t.after (t.net.after x server' effects) now with polled := polled } asked u i y
      time := by
  refine h.mono hnow (fun s hs e he _ => ?_) (fun _ _ hf _ _ _ => hf) fun z hz =>
    List.mem_append_left _ hz
  rcases ArpNet.servers_after hs with ⟨rfl, rfl⟩ | ⟨_, hs⟩
  · exact ⟨server, hx, hentries ▸ he⟩
  · exact ⟨s, hs, he⟩

theorem AskedAt.step (h : AskedAt tm t y asked) (hnow : t.now ≤ now)
    (hx : t.net.servers x = some server)
    (hlast : y = x → server'.cache.lastArp = server.cache.lastArp)
    (hpolled : polled y ≤ asked + CACHE_UPDATE_FREQ_MILLI + tm.duration) :
    AskedAt tm { t.after (t.net.after x server' effects) now with
      polled := polled, arrived := arrived } y asked where
  past := h.past.trans hnow
  polled := hpolled
  lastArp s hs := by
    rcases ArpNet.servers_after hs with ⟨hy, rfl⟩ | ⟨_, hs⟩
    · rw [hlast hy]
      exact h.lastArp server (hy ▸ hx)
    · exact h.lastArp s hs

/-- **An event that is no purge** and no frame leaves the cache as it is. -/
theorem Upheld.event (h : Upheld N.toNetwork tm t) (ht : t.Passes N.toNetwork tm now) {env : Env}
    {ev : Event} {net : ArpNet Node} (hev : ev ≠ .poll)
    (hstep : ArpStep N.toNetwork t.net (.event x env ev) net) : Upheld N.toNetwork tm (t.after net now) := by
  have hsound := hstep.sound h.sound
  have hknown := h.known_after hstep (by cases ev <;> first | exact absurd rfl hev | trivial)
  cases hstep with
  | @event x env ev server server' effects hframe hx hok =>
    have hcache : server'.cache = server.cache := by
      generalize hc : server'.cache = cache
      cases hc ▸ MIPDServer.cached hok with
      | purge => exact absurd rfl hev
      | learn hpackage _ _ _ =>
        obtain ⟨frame, hev', _⟩ := Event.package_eq_some hpackage
        exact absurd hev' (hframe _ frame)
      | keep _ _ => rfl
    obtain ⟨asked, hasked, hheard⟩ := h.asked
    refine ⟨hsound, h.freq_after hx hok, hknown, h.now.trans ht.le, asked, fun z => ?_, ?_⟩
    · exact (hasked z).step ht.le hx (fun _ => by rw [hcache]) (hasked z).polled
    · intro u i y j hl
      obtain ⟨time, htime⟩ := hheard u i y j hl
      exact ⟨time, htime.step ht.le hx (by rw [hcache])⟩

/-- **A new round of requests** is what comes next on a link on which nothing was under way. -/
theorem HeardAt.round (h : HeardAt tm t asked x i y time) (ha : AskedAt tm t x asked)
    (hl : N.link x i y j) (ht : t.Passes N.toNetwork tm now) (hx : t.net.servers x = some server)
    (htable : server.iTable = N.interfaces x) (reading : ℤ) :
    HeardAt tm { t.after (t.net.after x (server.completeMipArp reading).1
      (server.completeMipArp reading).2) now with polled := polled } now x i y time := by
  have hnext := h.next
  refine (h.step ht.le hx (by rfl)).asking ?_
  by_cases hnow : now ≤ time
  · exact Or.inl hnow
  · refine Or.inr (hnext.elim (fun hasked => ?_) fun hrest => ?_)
    · have hpoll := ht.onTime.polls x
      have hpolled := ha.polled
      obtain ⟨f, hf, hrequest⟩ := framesOf_completeMipArp (x := x)
        (htable ▸ N.link_mem hl : i ∈ server.iTable) reading
      refine ⟨now, f, not_le.mp hnow, by omega, ?_, hrequest⟩
      show (now, f) ∈ (t.after _ now).sent
      rw [t.sent_after]
      exact List.mem_append_right _ (List.mem_map_of_mem hf)
    · obtain ⟨time', f, hlt, hle, hf, hrest⟩ := hrest
      exact ⟨time', f, hlt, hle, List.mem_append_left _ hf, hrest⟩

/-- too early for the next requests -/
theorem AskedAt.quiet (h : AskedAt tm t x asked) (hstarted : tm.duration ≤ t.now)
    (ht : t.Passes N.toNetwork tm now) {clock : Clock} (hclock : clock.Recent tm.duration now)
    (hx : t.net.servers x = some server) (hfreq : server.cache.updateFreq = CACHE_UPDATE_FREQ_MILLI)
    {k : ℕ} (hshould : server.cache.shouldCompleteNewArp (clock k) = false) :
    now ≤ asked + CACHE_UPDATE_FREQ_MILLI + tm.duration := by
  have hlast := h.lastArp server hx
  have hpast := h.past
  have hlong := ht.long
  have hle := ht.le
  obtain ⟨hlow, hhigh⟩ := hclock k
  have hage := MipArpCache.sub_lastArp_le hshould (by omega) (by omega) (by omega)
    (by rw [hfreq]; decide)
  rw [hfreq] at hage
  omega

theorem AskedAt.round (hstarted : tm.duration ≤ t.now) (ht : t.Passes N.toNetwork tm now)
    {reading : ℤ} (hlow : now - tm.duration ≤ reading) (hhigh : reading ≤ now)
    (hpolled : polled x = now) :
    AskedAt tm { t.after (t.net.after x (server.completeMipArp reading).1 effects) now with
      polled := polled } x now where
  past := le_rfl
  polled := by
    show polled x ≤ _
    rw [hpolled]
    omega
  lastArp s hs := by
    rcases ArpNet.servers_after hs with ⟨_, rfl⟩ | ⟨hne, _⟩
    · have hle := ht.le
      have hlong := ht.long
      show (toUnsigned reading : ℤ) ≤ now
      rw [MipArpCache.toUnsigned_of_lt (by omega) (by omega)]
      exact hhigh
    · exact absurd rfl hne

/-- **A purge** finds nothing too old. -/
theorem Upheld.poll (h : Upheld N.toNetwork tm t) (ht : t.Passes N.toNetwork tm now) {env : Env}
    (hclock : env.clock.Recent tm.duration now) {net : ArpNet Node}
    (hstep : ArpStep N.toNetwork t.net (.event x env .poll) net) : Upheld N.toNetwork tm
      { t.after net now with polled := Function.update t.polled x now } := by
  have hsound := hstep.sound h.sound
  have hfresh := fun server (hx : t.net.servers x = some server) => h.fresh ht.onTime hx hclock
  have hknown := h.known_after hstep hfresh
  cases hstep with
  | @event x env ev server server' effects hframe hx hok =>
    obtain ⟨asked, hasked, hheard⟩ := h.asked
    have hfreq := h.freq_after hx hok
    have hnow := h.now.trans ht.le
    have hothers : ∀ y, y ≠ x →
        Function.update t.polled x now y ≤ asked y + CACHE_UPDATE_FREQ_MILLI + tm.duration :=
      fun y hyx => by
        rw [Function.update_of_ne hyx]
        exact (hasked y).polled
    rcases MIPDServer.updateArpCache_of_fresh (hfresh server hx) with ⟨k, hshould, heq⟩ | ⟨k, heq⟩
    · obtain ⟨rfl, rfl⟩ := Prod.mk.inj ((Except.ok.inj hok).symm.trans heq)
      refine ⟨hsound, hfreq, hknown, hnow, asked, fun y => ?_, fun u i y j hl => ?_⟩
      · refine (hasked y).step ht.le hx (fun _ => rfl) ?_
        by_cases hyx : y = x
        · subst hyx
          rw [Function.update_self]
          exact (hasked y).quiet h.now ht hclock hx (h.freq y server' hx) hshould
        · exact hothers y hyx
      · obtain ⟨time, htime⟩ := hheard u i y j hl
        exact ⟨time, htime.step ht.le hx rfl⟩
    · obtain ⟨rfl, rfl⟩ := Prod.mk.inj ((Except.ok.inj hok).symm.trans heq)
      refine ⟨hsound, hfreq, hknown, hnow, Function.update asked x now, fun y => ?_,
        fun u i y j hl => ?_⟩
      · by_cases hyx : y = x
        · subst hyx
          rw [Function.update_self]
          exact AskedAt.round h.now ht (hclock k).1 (hclock k).2 (Function.update_self ..)
        · rw [Function.update_of_ne hyx]
          exact (hasked y).step ht.le hx (fun hy => absurd hy hyx) (hothers y hyx)
      · obtain ⟨time, htime⟩ := hheard u i y j hl
        by_cases hux : u = x
        · subst hux
          rw [Function.update_self]
          exact ⟨time, htime.round (hasked u) hl ht hx (h.sound.servers u server hx).table _⟩
        · rw [Function.update_of_ne hux]
          exact ⟨time, htime.step ht.le hx rfl⟩

/-- what a cache learns of a MIP-ARP frame -/
theorem ArpNet.Sound.learned {s : ArpNet Node} (hs : s.Sound N.toNetwork) {f : Frame Node}
    {pointer : Fin 8 → UInt8} {env : Env} (hf : f ∈ s.sent) (hl : N.link f.sender i y j)
    (hsock : (i.rawSocket : ℤ) = f.sock) (hy : s.servers y = some server)
    (hok : server.handleEvent env (.rawFrame j.rawSocket (sendtoRawMipPackage pointer f.package))
      = .ok (server', effects)) :
    server'.cache.lastArp = server.cache.lastArp ∧ ∀ e ∈ server'.cache.entries,
      f.package.IsArp ∧ e.mipAddress = i.mipAddress ∧ e.lastUpdate = env.clock 0 ∨
      e ∈ server.cache.entries ∧ (f.package.IsArp → e.mipAddress ≠ i.mipAddress) := by
  have hj := (hs.servers y server hy).isSocketInTable hl
  generalize hcache : server'.cache = cache
  cases hcache ▸ MIPDServer.cached hok with
  | keep _ hno =>
    refine ⟨rfl, fun e he => Or.inr ⟨he, fun harp => ?_⟩⟩
    have hrecv := hs.received hf harp env.behind pointer
    exact absurd ⟨hj, harp⟩ (hno _ _ (Event.package_rawFrame hrecv _))
  | learn hev hp _ happ =>
    obtain ⟨rfl, hheader⟩ := mHeader_of_package hev
    have harp : f.package.IsArp := by
      rw [MIPPackage.IsArp, ← hheader]
      exact hp.2
    have hfrom := hs.source hf hl hsock harp
    rw [hheader] at happ
    rcases MipArpCache.appendToCache_inv happ with ⟨h255, _⟩ | ⟨_, _, rfl⟩
    · exact absurd (hfrom.srcAddr.symm.trans h255) (N.unicast (N.interface_owned (N.link_mem hl)))
    · refine ⟨rfl, fun e he => ?_⟩
      rcases (hs.servers y server hy).wellFormed.unique.mem_assign.mp he with rfl | ⟨hold, hne⟩
      · exact Or.inl ⟨harp, hfrom.srcAddr, rfl⟩
      · exact Or.inr ⟨hold, fun _ ha => hne (ha.trans hfrom.srcAddr.symm)⟩

/-- **A frame that arrives** is the latest on its link, and on no other. -/
theorem Upheld.arrive (h : Upheld N.toNetwork tm t) (ht : t.Passes N.toNetwork tm now) {env : Env}
    (hclock : env.clock.Recent tm.duration now) {f : Frame Node} {net : ArpNet Node}
    (hstep : ArpStep N.toNetwork t.net (.arrive f y env) net) : Upheld N.toNetwork tm
      { t.after net now with arrived := t.arrived ++ [(now, f, y)] } := by
  have hsound := hstep.sound h.sound
  have hknown := h.known_after hstep trivial
  cases hstep with
  | @arrive y env i j f pointer server server' effects hf hl hsock hy hok =>
    obtain ⟨asked, hasked, hheard⟩ := h.asked
    obtain ⟨hlast, hentries⟩ := h.sound.learned hf hl hsock hy hok
    refine ⟨hsound, h.freq_after hy hok, hknown, h.now.trans ht.le, asked, fun z => ?_,
      fun u i' v j' hl' => ?_⟩
    · exact (hasked z).step ht.le hy (fun _ => hlast) (hasked z).polled
    · obtain ⟨time, htime⟩ := hheard u i' v j' hl'
      by_cases hthis : v = y ∧ f.sender = u ∧ (i'.rawSocket : ℤ) = f.sock ∧ f.package.IsArp
      · obtain ⟨rfl, rfl, hsock', harp⟩ := hthis
        obtain rfl := N.socket_unique (N.link_mem hl') (N.link_mem hl)
          (Nat.cast_inj (R := ℤ) |>.mp (hsock'.trans hsock.symm))
        refine ⟨now, le_rfl, fun s hs e he ha => ?_, fun time' f' hf' hx' hs' harp' => ?_,
          Or.inl ((hasked _).past.trans ht.le)⟩
        · rcases ArpNet.servers_after hs with ⟨_, rfl⟩ | ⟨hne, _⟩
          · rcases hentries e he with ⟨_, _, hnew⟩ | ⟨_, hne⟩
            · exact hnew ▸ (hclock 0).1
            · exact absurd ha (hne harp)
          · exact absurd rfl hne
        · rcases List.mem_append.mp hf' with hold | hnew
          · exact (htime.latest time' f' hold hx' hs' harp').trans (htime.past.trans ht.le)
          · exact (congrArg Prod.fst (List.mem_singleton.mp hnew)).le
      · refine ⟨time, htime.mono ht.le (fun s hs e he ha => ?_)
          (fun time' f' hf' hx' hs' harp' => ?_) fun _ hz => List.mem_append_left _ hz⟩
        · rcases ArpNet.servers_after hs with ⟨rfl, rfl⟩ | ⟨_, hs⟩
          · rcases hentries e he with ⟨harp, ha', _⟩ | ⟨hold, _⟩
            · obtain ⟨rfl, rfl, _, _⟩ :=
                N.toPointToPoint.link_of_address hl hl' (ha'.symm.trans ha)
              exact absurd ⟨rfl, rfl, hsock, harp⟩ hthis
            · exact ⟨server, hy, hold⟩
          · exact ⟨s, hs, he⟩
        · rcases List.mem_append.mp hf' with hold | hnew
          · exact hold
          · obtain ⟨rfl, hrest⟩ := Prod.mk.inj (List.mem_singleton.mp hnew)
            obtain ⟨rfl, rfl⟩ := Prod.mk.inj hrest
            exact absurd ⟨rfl, hx', hs', harp'⟩ hthis

theorem TimedStep.upheld (hstep : TimedStep N.toNetwork tm t t') (h : Upheld N.toNetwork tm t) :
    Upheld N.toNetwork tm t' := by
  cases hstep with
  | poll ht hclock hstep => exact h.poll ht hclock hstep
  | event ht _ hev hstep => exact h.event ht hev hstep
  | arrive ht hclock hstep => exact h.arrive ht hclock hstep

theorem ArpNet.Reachable.updateFreq {N : Network Node} {s : ArpNet Node} (h : s.Reachable N)
    (hx : s.servers x = some server) : server.cache.updateFreq = CACHE_UPDATE_FREQ_MILLI := by
  refine h.invariant (I := fun s => ∀ x server, s.servers x = some server →
    server.cache.updateFreq = CACHE_UPDATE_FREQ_MILLI) (fun s hs x server hx => ?_)
    (fun s s' _ hs hstep y server hy => ?_) x server hx
  · rw [hs] at hx
    cases hx
  · obtain ⟨a, ha⟩ := hstep
    cases ha with
    | boot _ =>
      rcases ArpNet.servers_after hy with ⟨_, rfl⟩ | ⟨_, hy⟩
      · rfl
      · exact hs y server hy
    | stop => exact hs y server (ArpNet.servers_stop hy)
    | event _ hx hok =>
      rcases ArpNet.servers_after hy with ⟨_, rfl⟩ | ⟨_, hy⟩
      · exact (MIPDServer.cached hok).updateFreq.trans (hs _ _ hx)
      · exact hs y server hy
    | arrive _ _ _ hx hok =>
      rcases ArpNet.servers_after hy with ⟨_, rfl⟩ | ⟨_, hy⟩
      · exact (MIPDServer.cached hok).updateFreq.trans (hs _ _ hx)
      · exact hs y server hy

theorem Upheld.start (h : t.Starts N.toNetwork tm) : Upheld N.toNetwork tm t := by
  obtain ⟨asked, hasked⟩ := h.asked
  refine ⟨ArpNet.sound_of_reachable h.reachable, fun x server hx => h.reachable.updateFreq hx,
    h.known, h.now, asked, fun x => ?_, fun x i y j hl => ⟨asked x, ?_⟩⟩
  · obtain ⟨hpast, hpolled, hlast, _⟩ := hasked x
    exact ⟨hpast, hpolled, hlast⟩
  · obtain ⟨hpast, _, _, hentries⟩ := hasked x
    refine ⟨hpast, fun server hy => hentries i y j server hl hy, fun time' f hf => ?_, Or.inl le_rfl⟩
    rw [h.arrived] at hf
    cases hf

/-- **Where nothing is late, no neighbour is ever forgotten.**  As long as every mipd purges its cache
within a period of its last purge and requests arrive within a delay, where the period, the delay and
the duration of two calls fit in the time after which it sends its next requests, each cache
names the far end of every link at all times, the next purge finds nothing too old, and a response of
routerd that names a neighbour sends the package that waits for it on the link to this neighbour. -/
theorem neighbours_maintained (N : WiredNetwork Node) (tm : Timing) {t : TimedNet Node}
    (h : Reach (TimedNet.Starts N.toNetwork tm) (TimedStep N.toNetwork tm) t) {x : Node}
    {server : MIPDServer} (hx : t.net.servers x = some server) :
    N.Resolves x server.cache ∧
    (∀ now clock, t.Passes N.toNetwork tm now → clock.Recent tm.duration now →
      (∀ e ∈ server.cache.entries, ∀ k, ¬ e.isExpired (clock k) server.cache.maxAge) ∧
        (MipArpCache.purge clock 0 server.cache).2 = server.cache) ∧
    ∀ i y j, N.link x i y j →
      server.cache.queryMipAddressSrcSocket j.mipAddress = i.rawSocket ∧
      (server.forwardQueue ≠ [] → ∃ server' p,
        server.handleForwardResponse j.mipAddress = .ok (server', [.sendRaw i.rawSocket p])) := by
  have hupheld := h.invariant (I := Upheld N.toNetwork tm) (fun _ => Upheld.start)
    fun _ _ _ ht hstep => hstep.upheld ht
  have hserver := hupheld.sound.servers x server hx
  have hknown : ∀ i y j, N.link x i y j → server.cache.Knows j.mipAddress := by
    intro i y j hl
    obtain ⟨s, hs, hk⟩ := hupheld.known y j x i (N.link_symm hl)
    obtain rfl := Option.some.inj (hx.symm.trans hs)
    exact hk
  refine ⟨fun i y j hl => (hserver.resolves_of_knows hl (hknown i y j hl)).2,
    fun now clock ht hclock => ?_, fun i y j hl => ?_⟩
  · have hfresh := hupheld.fresh ht.onTime hx hclock
    exact ⟨hfresh, MipArpCache.purge_of_fresh clock 0 server.cache hfresh⟩
  have hsock := (hserver.resolves_of_knows hl (hknown i y j hl)).1
  refine ⟨hsock, fun hne => ?_⟩
  rcases hserver.wellFormed.known.handleForwardResponse j.mipAddress with ⟨hnone, _⟩ | ⟨hempty, _⟩ |
    ⟨entry, q, i', e, _, _, _, _, _, heq⟩
  · have hsome := MipArpCache.queryMipAddressPos_isSome.mpr (hknown i y j hl)
    rw [hnone] at hsome
    cases hsome
  · exact absurd hempty hne
  · rw [hsock] at heq
    exact ⟨_, _, heq⟩

end

end

/-! ## two mipds and one link -/

/-- all readings of the clock have been 0 -/
def ArpNet.Early (s : ArpNet Bool) : Prop :=
  ∀ x server, s.servers x = some server →
    server.cache.lastArp = 0 ∧ ∀ e ∈ server.cache.entries, e.lastUpdate = 0

theorem ArpNet.Early.boot {s s' : ArpNet Bool} {x : Bool} (hearly : s.Early)
    (hstep : ArpStep wiredPair.toNetwork s (.boot x 0) s') : s'.Early := by
  cases hstep with
  | boot _ =>
    intro y server hy
    rcases ArpNet.servers_after hy with ⟨_, rfl⟩ | ⟨_, hy⟩
    · exact ⟨(by decide : toUnsigned 0 = 0), nofun⟩
    · exact hearly y server hy

theorem ArpNet.Early.arrive {s s' : ArpNet Bool} {f : Frame Bool} {y : Bool} (hearly : s.Early)
    (hs : s.Sound wiredPair.toNetwork)
    (hstep : ArpStep wiredPair.toNetwork s (.arrive f y quietEnv) s') : s'.Early := by
  cases hstep with
  | arrive hf hl hsock hy hok =>
    obtain ⟨hlast, hentries⟩ := hs.learned hf hl hsock hy hok
    intro x server hx
    rcases ArpNet.servers_after hx with ⟨_, rfl⟩ | ⟨_, hx⟩
    · obtain ⟨hlast', hentries'⟩ := hearly _ _ hy
      refine ⟨hlast.trans hlast', fun e he => ?_⟩
      rcases hentries e he with ⟨_, _, hnew⟩ | ⟨hold, _⟩
      · exact hnew
      · exact hentries' e hold
    · exact hearly x server hx

/-- both have started at 0 and have heard each other -/
theorem exists_acquainted : ∃ s : ArpNet Bool, s.Reachable wiredPair.toNetwork ∧ s.Early ∧
    (s.servers false).isSome ∧ ∀ x i y j, wiredPair.link x i y j → s.Knows y i.mipAddress := by
  obtain ⟨s₁, s₂, h₁, h₂, hx, hy⟩ := exists_boots
  obtain ⟨⟨_, sock, p⟩, hf, rfl, hsock, hreq⟩ := h₂.requests (i := pairInterface false)
    (List.mem_singleton_self _)
  have hreach : s₂.Reachable wiredPair.toNetwork :=
    Reach.next (Reach.next (Reach.start rfl) ⟨_, h₁⟩) ⟨_, h₂⟩
  have hsound := ArpNet.sound_of_reachable hreach
  obtain ⟨⟨_, sock', q⟩, s₃, s₄, h₃, h₄, _, rfl, hsock', htra⟩ :=
    hsound.exchange hf hreq wiredPair_link hsock hx hy quietEnv quietEnv
  have hsound₃ := h₃.sound hsound
  have hearly : (ArpNet.start : ArpNet Bool).Early := fun x server h => by cases h
  have hearly₂ := (hearly.boot h₁).boot h₂
  refine ⟨s₄, Reach.next (Reach.next hreach ⟨_, h₃⟩) ⟨_, h₄⟩,
    (hearly₂.arrive hsound h₃).arrive hsound₃ h₄, ?_, fun x i y j hxy => ?_⟩
  · cases h₄ with
    | arrive _ _ _ _ _ =>
      refine ArpNet.isSome_after ?_
      cases h₃ with
      | arrive _ _ _ _ _ => exact ArpNet.isSome_after hx
  · obtain ⟨hxy, rfl, rfl⟩ := hxy
    cases x with
    | false =>
      obtain rfl : y = true := by simpa using hxy
      exact h₄.knows trivial (h₃.introduces hsound (Or.inr hreq) wiredPair_link hsock)
    | true =>
      obtain rfl : y = false := by simpa using hxy
      exact h₄.introduces hsound₃ (Or.inl htra) (wiredPair.link_symm wiredPair_link) hsock'

def pairTiming : Timing := ⟨1000, 1000, 0, by decide, by decide⟩

/-- one second later -/
def laterEnv : Env := { quietEnv with clock := fun _ => 1000 }

theorem neighbours_maintained_pair : ∃ (t : TimedNet Bool) (server : MIPDServer), t.now = 1000 ∧
    t.net.servers false = some server ∧ server.cache.queryMipAddressSrcSocket 20 = 3 := by
  obtain ⟨s, hreach, hearly, hx, hknown⟩ := exists_acquainted
  obtain ⟨server, hserver⟩ := Option.isSome_iff_exists.mp hx
  have hpolled : (0 : ℤ) ≤ 0 + CACHE_UPDATE_FREQ_MILLI + 0 := by decide
  have hperiod : (1000 : ℤ) ≤ 0 + 1000 := by decide
  have hstarts : TimedNet.Starts wiredPair.toNetwork pairTiming ⟨s, 0, fun _ => 0, [], []⟩ :=
    ⟨hreach, hknown, le_rfl, ⟨fun _ => 0, fun x => ⟨le_rfl, hpolled,
      fun server hx => by rw [(hearly x server hx).1]; rfl,
      fun i y j server _ hy e he _ => by rw [(hearly y server hy).2 e he]; rfl⟩⟩, rfl, rfl⟩
  have hpasses : TimedNet.Passes wiredPair.toNetwork pairTiming ⟨s, 0, fun _ => 0, [], []⟩ 1000 :=
    ⟨Int.natCast_nonneg 1000, by decide, fun _ => hperiod, fun _ _ _ _ _ h => by cases h⟩
  have hpoll : ArpStep wiredPair.toNetwork s (.event false laterEnv .poll)
      (s.after false (server.updateArpCache laterEnv).1 (server.updateArpCache laterEnv).2) :=
    ArpStep.event nofun hserver rfl
  have hself : Function.update s.servers false (some (server.updateArpCache laterEnv).1) false
      = some (server.updateArpCache laterEnv).1 := Function.update_self ..
  obtain ⟨t, hrun, hnow, hserver'⟩ : ∃ t, Reach (TimedNet.Starts wiredPair.toNetwork pairTiming)
      (TimedStep wiredPair.toNetwork pairTiming) t ∧ t.now = 1000 ∧
      t.net.servers false = some (server.updateArpCache laterEnv).1 :=
    ⟨_, Reach.next (Reach.start hstarts)
      (TimedStep.poll hpasses (fun _ => ⟨le_rfl, le_rfl⟩) hpoll), rfl, hself⟩
  exact ⟨t, _, hnow, hserver',
    ((neighbours_maintained wiredPair pairTiming hrun hserver').2.2 _ _ _ wiredPair_link).1⟩

end MipStack
