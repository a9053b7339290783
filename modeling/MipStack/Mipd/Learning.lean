import MipStack.Mipd.Cache

/-!
# What a run of mipd does to the MIP-ARP cache

* `IsArpHeader`, `IsArpFrame`   a MIP-ARP request or response on a socket of the table;
* `Cached`, `cached`       the cache after an event: purged, appended to, or as it was;
* `scanIndices`, `appendIndices`, `removeIndices`, `purgeIndices`   the positions of the array
                           that the loops of `mip_arp.c` read and write;
* `CacheBounded`           the size and the positions a query reads are in bounds;
* `cache_bounded_iff`      **the cache stays in its array exactly in the runs where every address
                           that is new to a full cache is heard after a purge has made room.**
-/

namespace MipStack
open Library

/-! ## the cache after an event -/

/-- the header of a MIP-ARP frame on a socket of the table -/
def IsArpHeader (s : MIPDServer) (sd : ℤ) (mHeader : MipHeader) : Prop :=
  isSocketInTable s.iTable sd = true ∧ (mHeader.tra = 0 ∨ mHeader.tra = 1)

instance (s : MIPDServer) (sd : ℤ) (mHeader : MipHeader) : Decidable (IsArpHeader s sd mHeader) :=
  inferInstanceAs (Decidable (_ ∧ _))

/-- a MIP-ARP frame, which mipd learns from -/
def IsArpFrame (s : MIPDServer) (sd : ℤ) (p : MIPPackage) : Prop := IsArpHeader s sd p.mHeader

instance (s : MIPDServer) (sd : ℤ) (p : MIPPackage) : Decidable (IsArpFrame s sd p) :=
  inferInstanceAs (Decidable (IsArpHeader s sd p.mHeader))

inductive Cached (env : Env) (s : MIPDServer) : Event → MipArpCache → Prop
  | purge : Cached env s .poll (s.cache.updateArpCache env.clock)
  | learn {ev : Event} {sd : ℤ} {p : MIPPackage} {i : InterfaceRecord} {cache : MipArpCache}
      (hev : ev.package env = some (sd, p)) (hp : IsArpFrame s sd p)
      (hi : interfaceForSocket s.iTable sd = some i)
      (ha : (s.cache.appendToCache (env.clock 0) sd p.mHeader.srcAddr i.soName).map Prod.snd
        = .ok cache) :
      Cached env s ev cache
  | keep {ev : Event} (hpoll : ev ≠ .poll)
      (hev : ∀ sd p, ev.package env = some (sd, p) → ¬ IsArpFrame s sd p) : Cached env s ev s.cache

namespace MIPDServer
variable {env : Env} {s s' : MIPDServer} {ev : Event} {effects : List Effect}

theorem Cached.of_eq {cache : MipArpCache} (hc : cache = s.cache) (hpoll : ev ≠ .poll)
    (hev : ∀ sd p, ev.package env = some (sd, p) → ¬ IsArpFrame s sd p) : Cached env s ev cache :=
  hc ▸ Cached.keep hpoll hev

theorem cache_requestForwarding (env : Env) (s : MIPDServer) (d : MIPAddress) (p : MIPPackage) :
    (s.requestForwarding env d p).1.cache = s.cache := by
  rcases s.requestForwarding_eq env d p with ⟨_, heq⟩ | heq
  · rw [heq]
    rfl
  · rw [heq]

theorem cache_handleForwardData {nextHop : MIPAddress}
    (h : s.handleForwardData nextHop = .ok (s', effects)) : s'.cache = s.cache := by
  cases responseOutcome h with
  | sent _ _ => rfl
  | notFound _ => rfl

theorem cache_broadcastRouteTable {tablePackage : MIPRouteTablePackage}
    (h : s.broadcastRouteTable env tablePackage = .ok (s', effects)) : s'.cache = s.cache := by
  unfold broadcastRouteTable at h
  split at h
  · obtain ⟨rfl, _⟩ := Prod.mk.inj (Except.ok.inj h)
    rfl
  · cases h

theorem cache_applicationData {available : List UInt8}
    (h : s.handleApplicationData env available = .ok (s', effects)) : s'.cache = s.cache := by
  cases appOutcome h with
  | closed _ => rfl
  | short _ => rfl
  | direct _ _ _ => rfl
  | routed _ _ _ => exact cache_requestForwarding env s _ _

theorem cache_transport {p : MIPPackage} (h : s.handleTransport env p = .ok (s', effects)) :
    s'.cache = s.cache := by
  unfold handleTransport at h
  split at h
  · split at h
    · cases h
    · obtain ⟨rfl, _⟩ := Prod.mk.inj (Except.ok.inj h)
      rfl
  · split at h
    · obtain ⟨rfl, _⟩ := Prod.mk.inj (Except.ok.inj h)
      rfl
    · obtain ⟨rfl, _⟩ := Prod.mk.inj (Except.ok.inj h)
      exact cache_requestForwarding env s _ _

theorem cached_rawFrame {sd : ℤ} {frame : List UInt8} {p : MIPPackage}
    (hsd : isSocketInTable s.iTable sd = true) (hp : receivePackage env.behind frame = .ok p)
    (h : s.handleReceivedPackage env sd p = .ok (s', effects)) :
    Cached env s (.rawFrame sd frame) s'.cache := by
  have hev := Event.package_rawFrame hp sd
  have hno : p.mHeader.tra ≠ 0 → p.mHeader.tra ≠ 1 → ∀ sd' p',
      (Event.rawFrame sd frame).package env = some (sd', p') → ¬ IsArpFrame s sd' p' := by
    intro hresponse hrequest sd' p' heq hp
    obtain ⟨rfl, rfl⟩ := Prod.mk.inj (Option.some.inj (hev.symm.trans heq))
    exact hp.2.elim hresponse hrequest
  cases frameOutcome hsd h with
  | learned htra hi _ happ =>
    exact Cached.learn hev ⟨hsd, Or.inl htra⟩ hi (map_eq_ok_iff.mpr ⟨_, happ, rfl⟩)
  | answered htra hi _ _ happ =>
    exact Cached.learn hev ⟨hsd, Or.inr htra⟩ hi (map_eq_ok_iff.mpr ⟨_, happ, rfl⟩)
  | table htra => exact Cached.keep nofun (hno (by rw [htra]; decide) (by rw [htra]; decide))
  | transport htra h =>
    exact Cached.of_eq (cache_transport h) nofun (hno (by rw [htra]; decide) (by rw [htra]; decide))
  | dropped hresponse hrequest => exact Cached.keep nofun (hno hresponse hrequest)

/-- **The cache after an event.** -/
theorem cached (h : s.handleEvent env ev = .ok (s', effects)) : Cached env s ev s'.cache := by
  cases dispatch h with
  | inert hev _ _ hc =>
    refine Cached.of_eq hc hev.poll fun sd p heq hp => ?_
    obtain ⟨frame, heq, _⟩ := Event.package_eq_some heq
    exact hev.frame sd frame heq hp.1
  | poll =>
    rw [cache_updateArpCache]
    exact Cached.purge
  | table _ h => exact Cached.of_eq (cache_broadcastRouteTable h) nofun nofun
  | response _ h => exact Cached.of_eq (cache_handleForwardData h) nofun nofun
  | frame hsd hp h => exact cached_rawFrame hsd hp h
  | app h => exact Cached.of_eq (cache_applicationData h) nofun nofun

end MIPDServer

/-! ## positions of the array -/

namespace MipArpCache

/-- the positions that the loop of a query reads until it finds an entry -/
def scanIndices (cache : MipArpCache) (p : MipArpCacheEntry → Bool) : List ℕ :=
  match cache.entries.findIdx? p with
  | some pos => List.range (pos + 1)
  | none => List.range cache.entries.length

/-- the scan for the address and the position written -/
def appendIndices (cache : MipArpCache) (a : MIPAddress) : List ℕ :=
  if a = 255 then []
  else cache.scanIndices (fun e => e.mipAddress = a) ++
    [(cache.queryMipAddressPos a).getD cache.entries.length]

/-- the copies down to the position before, and the position cleared -/
def removeIndices (cache : MipArpCache) (pos : ℕ) : List ℕ :=
  (if pos ≠ cache.entries.length - 1 then
    (List.range' (pos + 1) (cache.entries.length - (pos + 1))).flatMap fun i => [i, i - 1]
  else []) ++ [cache.entries.length - 1]

/-- the entry tested in each pass, and the removals -/
def purgeIndices (clock : Clock) (i : ℕ) (cache : MipArpCache) : List ℕ :=
  if h : i < cache.entries.length then
    if cache.entries[i].isExpired (clock 0) cache.maxAge then
      i :: (cache.removeIndices i ++ purgeIndices clock.tail i (cache.removeFromCache i))
    else i :: purgeIndices clock.tail (i + 1) cache
  else []
termination_by cache.entries.length - i
decreasing_by
  · show (cache.entries.eraseIdx i).length - i < cache.entries.length - i
    rw [List.length_eraseIdx_of_lt h]
    omega
  · omega

theorem lt_of_mem_scanIndices {cache : MipArpCache} {p : MipArpCacheEntry → Bool} {k : ℕ}
    (hk : k ∈ cache.scanIndices p) : k < cache.entries.length := by
  unfold scanIndices at hk
  split at hk
  · rename_i pos hpos
    obtain ⟨hlt, _⟩ := List.findIdx?_eq_some_iff_getElem.mp hpos
    have := List.mem_range.mp hk
    omega
  · exact List.mem_range.mp hk

theorem lt_of_mem_removeIndices {cache : MipArpCache} {pos k : ℕ}
    (hpos : pos < cache.entries.length) (hk : k ∈ cache.removeIndices pos) :
    k < cache.entries.length := by
  rcases List.mem_append.mp hk with hshift | hlast
  · split at hshift
    · obtain ⟨i, hi, hki⟩ := List.mem_flatMap.mp hshift
      obtain ⟨_, hlt⟩ := List.mem_range'_1.mp hi
      rcases List.mem_cons.mp hki with rfl | hki
      · omega
      · obtain rfl := List.mem_singleton.mp hki
        omega
    · cases hshift
  · obtain rfl := List.mem_singleton.mp hlast
    omega

theorem lt_of_mem_purgeIndices (clock : Clock) (i : ℕ) (cache : MipArpCache) {k : ℕ}
    (hk : k ∈ purgeIndices clock i cache) : k < cache.entries.length := by
  induction clock, i, cache using purgeIndices.induct with
  | case1 clock i cache h hexp ih =>
    rw [purgeIndices, dif_pos h, if_pos hexp] at hk
    rcases List.mem_cons.mp hk with rfl | hk
    · exact h
    · rcases List.mem_append.mp hk with hremove | hrest
      · exact lt_of_mem_removeIndices h hremove
      · have hlt := ih hrest
        have hlen : (cache.removeFromCache i).entries.length = cache.entries.length - 1 :=
          List.length_eraseIdx_of_lt h
        omega
  | case2 clock i cache h hexp ih =>
    rw [purgeIndices, dif_pos h, if_neg hexp] at hk
    rcases List.mem_cons.mp hk with rfl | hk
    · exact h
    · exact ih hk
  | case3 clock i cache h =>
    rw [purgeIndices, dif_neg h] at hk
    cases hk

/-- an append stays in the array if and only if it needs no 65th entry -/
theorem appendIndices_lt_iff {cache : MipArpCache} (hsize : cache.entries.length ≤ ARP_CACHE_SIZE)
    (a : MIPAddress) :
    (∀ k ∈ cache.appendIndices a, k < ARP_CACHE_SIZE) ↔ cache.RoomFor a := by
  unfold appendIndices RoomFor
  by_cases ha : a = 255
  · simp [ha]
  · rw [if_neg ha]
    cases hpos : cache.queryMipAddressPos a with
    | some pos =>
      refine iff_of_true (fun k hk => ?_) (Or.inr (Or.inl rfl))
      rcases List.mem_append.mp hk with hscan | hwrite
      · exact (lt_of_mem_scanIndices hscan).trans_le hsize
      · obtain rfl : k = pos := List.mem_singleton.mp hwrite
        obtain ⟨hlt, _⟩ := List.findIdx?_eq_some_iff_getElem.mp hpos
        exact hlt.trans_le hsize
    | none =>
      constructor
      · intro hall
        exact Or.inr (Or.inr (hall _ (List.mem_append_right _ (List.mem_singleton.mpr rfl))))
      · intro hroom
        have hlt : cache.entries.length < ARP_CACHE_SIZE := by simpa [ha] using hroom
        intro k hk
        rcases List.mem_append.mp hk with hscan | hwrite
        · exact (lt_of_mem_scanIndices hscan).trans hlt
        · obtain rfl : k = cache.entries.length := List.mem_singleton.mp hwrite
          exact hlt

end MipArpCache

/-! ## runs -/

/-- the positions touched by an event that changes the cache; a frame is received with its header,
even where its payload has gone over the end of the message buffer -/
def cacheIndices (env : Env) (s : MIPDServer) : Event → List ℕ
  | .poll => MipArpCache.purgeIndices env.clock 0 s.cache
  | .rawFrame sd frame =>
    if IsArpHeader s sd (receivedHeader frame) then
      s.cache.appendIndices (receivedHeader frame).srcAddr
    else []
  | _ => []

/-- at most 64 entries, and every query reads in bounds -/
def CacheBounded (r : Except Fault MIPDServer) : Prop :=
  ∀ s, r = .ok s → s.cache.entries.length ≤ ARP_CACHE_SIZE ∧
    ∀ p, ∀ k ∈ s.cache.scanIndices p, k < ARP_CACHE_SIZE

/-- the event touches only the array, and leaves the cache in it -/
def KeepsToArray (r : Except Fault MIPDServer) (x : Env × Event) (r' : Except Fault MIPDServer) :
    Prop :=
  (∀ s, r = .ok s → ∀ k ∈ cacheIndices x.1 s x.2, k < ARP_CACHE_SIZE) ∧ CacheBounded r'

/-- a MIP-ARP frame needs no 65th entry -/
def HasRoom (r : Except Fault MIPDServer) (x : Env × Event) : Prop :=
  ∀ s sd frame, r = .ok s → x.2 = .rawFrame sd frame → IsArpHeader s sd (receivedHeader frame) →
    s.cache.RoomFor (receivedHeader frame).srcAddr

theorem cacheBounded_iff (r : Except Fault MIPDServer) :
    CacheBounded r ↔ ∀ s, r = .ok s → s.cache.entries.length ≤ ARP_CACHE_SIZE := by
  constructor
  · intro h s hs
    exact (h s hs).1
  · intro h s hs
    exact ⟨h s hs, fun p k hk => (MipArpCache.lt_of_mem_scanIndices hk).trans_le (h s hs)⟩

/-- a successful append leaves the cache in its array -/
theorem MipArpCache.length_append_le {cache cache' : MipArpCache} {now sock : ℤ} {a : MIPAddress}
    {mac : MacAddress} (hsize : cache.entries.length ≤ ARP_CACHE_SIZE)
    (h : (cache.appendToCache now sock a mac).map Prod.snd = .ok cache') :
    cache'.entries.length ≤ ARP_CACHE_SIZE := by
  unfold appendToCache at h
  split at h
  · obtain rfl : cache = cache' := Except.ok.inj h
    exact hsize
  · dsimp only at h
    split at h
    · obtain rfl := Except.ok.inj h
      show (cache.entries.set _ _).length ≤ _
      rw [List.length_set]
      exact hsize
    · split at h
      · obtain rfl := Except.ok.inj h
        show (cache.entries ++ [_]).length ≤ _
        rw [List.length_append, List.length_singleton]
        omega
      · cases h

/-- **Every event leaves the cache in its array**, or goes wrong. -/
theorem Cached.length_le {env : Env} {s : MIPDServer} {ev : Event} {cache : MipArpCache}
    (h : Cached env s ev cache) (hsize : s.cache.entries.length ≤ ARP_CACHE_SIZE) :
    cache.entries.length ≤ ARP_CACHE_SIZE := by
  cases h with
  | purge => exact (s.cache.updateArpCache_sublist env.clock).length_le.trans hsize
  | learn hev hp hi ha => exact MipArpCache.length_append_le hsize ha
  | keep hpoll hev => exact hsize

theorem CacheBounded.step {r r' : Except Fault MIPDServer} {x : Env × Event} (h : CacheBounded r)
    (hstep : ServerStep r x r') : CacheBounded r' := by
  obtain ⟨s, hs, hr'⟩ := hstep
  refine (cacheBounded_iff r').mpr fun s' hs' => ?_
  obtain ⟨y, hy, hys⟩ := map_eq_ok_iff.mp (hr'.symm.trans hs')
  have hcached := MIPDServer.cached (show s.handleEvent x.1 x.2 = .ok (s', y.2) from hys ▸ hy)
  exact hcached.length_le (h s hs).1

/-- **A step keeps to the array exactly when there is room.** -/
theorem keepsToArray_iff {r r' : Except Fault MIPDServer} {x : Env × Event} (h : CacheBounded r)
    (hstep : ServerStep r x r') : KeepsToArray r x r' ↔ HasRoom r x := by
  rw [KeepsToArray, and_iff_left (h.step hstep)]
  obtain ⟨env, ev⟩ := x
  constructor
  · intro hindices s sd frame hs hev hp
    subst hev
    have happend := hindices s hs
    rw [cacheIndices, if_pos hp] at happend
    exact (MipArpCache.appendIndices_lt_iff (h s hs).1 _).mp happend
  · intro hroom s hs
    cases ev with
    | poll => exact fun k hk =>
        (MipArpCache.lt_of_mem_purgeIndices env.clock 0 s.cache hk).trans_le (h s hs).1
    | rawFrame sd frame =>
      rw [cacheIndices]
      split
      · rename_i hp
        exact (MipArpCache.appendIndices_lt_iff (h s hs).1 _).mpr (hroom s sd frame hs rfl hp)
      · simp
    | appConnect fd => simp [cacheIndices]
    | routeConnect fd => simp [cacheIndices]
    | forwardConnect fd => simp [cacheIndices]
    | routeData tablePackage => simp [cacheIndices]
    | forwardData forwardResponse => simp [cacheIndices]
    | appData available => simp [cacheIndices]
    | stdin => simp [cacheIndices]

theorem cacheBounded_start (table : InterfaceTable) (now : ℤ) :
    CacheBounded (.ok (MIPDServer.start table now)) := by
  refine (cacheBounded_iff _).mpr fun s hs => ?_
  obtain rfl := Except.ok.inj hs
  exact Nat.zero_le _

/-- **The cache stays in its array exactly in the runs where each MIP-ARP frame has room**: its
source is 255, is in the cache, or finds less than 64 entries there. -/
theorem cache_bounded_iff (table : InterfaceTable) (now : ℤ)
    {tr : List ((Env × Event) × Except Fault MIPDServer)}
    (hr : Run ServerStep (.ok (MIPDServer.start table now)) tr) :
    Always KeepsToArray (.ok (MIPDServer.start table now)) tr ↔
      Meets HasRoom (.ok (MIPDServer.start table now)) tr := by
  refine Run.always_iff (I := CacheBounded) ?_ ?_ hr (cacheBounded_start table now)
  · intro r x r' h _ hstep
    exact h.step hstep
  · intro r x r' h hstep
    exact keepsToArray_iff h hstep

/-! ## 65 addresses -/

/-- the cache entries for the addresses below `n`, heard on socket 3 at time 0 -/
def heardEntries (n : ℕ) : List MipArpCacheEntry :=
  (List.range n).map fun k => ⟨UInt8.ofNat k, 3, fun _ => 0, 0⟩

def heard (n : ℕ) : MIPDServer :=
  { MIPDServer.start oneInterface 0 with cache := ⟨heardEntries n, CACHE_UPDATE_FREQ_MILLI, 0⟩ }

theorem length_heardEntries (n : ℕ) : (heardEntries n).length = n := by
  rw [heardEntries, List.length_map, List.length_range]

theorem query_heard {n : ℕ} (hn : n < 256) :
    (heard n).cache.queryMipAddressPos (UInt8.ofNat n) = none := by
  refine List.findIdx?_eq_none_iff.mpr fun e he => ?_
  obtain ⟨k, hk, rfl⟩ := List.mem_map.mp he
  have hlt := List.mem_range.mp hk
  have hne : UInt8.ofNat k ≠ UInt8.ofNat n := by
    intro heq
    have hnat := congrArg UInt8.toNat heq
    rw [UInt8.toNat_ofNat', UInt8.toNat_ofNat'] at hnat
    omega
  exact decide_eq_false hne

theorem ofNat_ne_broadcast {n : ℕ} (hn : n ≤ 64) : UInt8.ofNat n ≠ 255 := by
  intro heq
  have hnat := congrArg UInt8.toNat heq
  rw [UInt8.toNat_ofNat'] at hnat
  have hlast : (255 : UInt8).toNat = 255 := rfl
  omega

/-- a MIP-ARP response from the address `n` on the one interface -/
def heardFrame (n : ℕ) : Event := .rawFrame 3 (frameOf (arpResponse (UInt8.ofNat n)))

/-- the next address is appended while there is room -/
theorem serverStep_heard {n : ℕ} (hn : n < 64) :
    ServerStep (.ok (heard n)) (quietEnv, heardFrame n) (.ok (heard (n + 1))) := by
  refine ⟨heard n, rfl, ?_⟩
  have happend : (heard n).cache.appendToCache (quietEnv.clock 0) 3
      (arpResponse (UInt8.ofNat n)).wire.received.mHeader.srcAddr
      (⟨fun _ => 0, fun _ => 0, 10, 3⟩ : InterfaceRecord).soName
      = .ok ((heardEntries n).length + 1, (heard (n + 1)).cache) := by
    show (heard n).cache.appendToCache 0 3 (UInt8.ofNat n) (fun _ => 0) = _
    unfold MipArpCache.appendToCache
    rw [if_neg (ofNat_ne_broadcast hn.le), query_heard (by omega)]
    dsimp only
    rw [if_pos (by rw [show (heard n).cache.entries = heardEntries n from rfl,
      length_heardEntries]; exact hn)]
    simp only [heard, heardEntries, List.range_succ, List.map_append, List.map_singleton]
  have hreceived : (heard n).handleEvent quietEnv (heardFrame n)
      = (heard n).handleMipArpResponse quietEnv 3 (arpResponse (UInt8.ofNat n)).wire.received
        ⟨fun _ => 0, fun _ => 0, 10, 3⟩ :=
    MIPDServer.handleEvent_of_receive rfl (receivePackage_frameOf _ rfl)
  show _ = Except.map Prod.fst ((heard n).handleEvent quietEnv (heardFrame n))
  rw [hreceived, MIPDServer.handleMipArpResponse, happend]
  dsimp only
  rw [if_neg (by omega)]
  rfl

theorem not_hasRoom_heard :
    ¬ HasRoom (.ok (heard 64)) (quietEnv, heardFrame 64) := by
  intro hroom
  have hheader : receivedHeader (frameOf (arpResponse (UInt8.ofNat 64)))
      = (arpResponse (UInt8.ofNat 64)).mHeader := receivedHeader_sendto _ _
  have hlast := hroom (heard 64) 3 _ rfl rfl (by rw [hheader]; decide)
  rw [hheader] at hlast
  rcases hlast with hb | hk | hlt
  · exact ofNat_ne_broadcast (le_refl 64) hb
  · rw [show (arpResponse (UInt8.ofNat 64)).mHeader.srcAddr = UInt8.ofNat 64 from rfl,
      query_heard (by omega)] at hk
    cases hk
  · rw [show (heard 64).cache.entries = heardEntries 64 from rfl, length_heardEntries] at hlt
    exact lt_irrefl _ hlt

theorem cacheBounded_heard {n : ℕ} (hn : n ≤ 64) : CacheBounded (.ok (heard n)) := by
  refine (cacheBounded_iff _).mpr fun s hs => ?_
  obtain rfl := Except.ok.inj hs
  rw [show (heard n).cache.entries = heardEntries n from rfl, length_heardEntries]
  exact hn

/-- from `n` addresses on, the others up to the 65th are heard, one after the other -/
theorem run_heard (k n : ℕ) (h : n + k = 64) :
    ∃ tr, Run ServerStep (.ok (heard n)) tr ∧ ¬ Always KeepsToArray (.ok (heard n)) tr := by
  induction k generalizing n with
  | zero =>
    obtain rfl : n = 64 := h
    have hstep : ServerStep (.ok (heard 64)) (quietEnv, heardFrame 64) _ := ⟨heard 64, rfl, rfl⟩
    refine ⟨_, Run.cons hstep (Run.nil _), fun hall => not_hasRoom_heard ?_⟩
    exact (keepsToArray_iff (cacheBounded_heard (le_refl 64)) hstep).mp hall.1
  | succ k ih =>
    obtain ⟨tr, hr, hbad⟩ := ih (n + 1) (by omega)
    exact ⟨_ :: tr, Run.cons (serverStep_heard (by omega)) hr, fun hall => hbad hall.2⟩

/-- **65 addresses overflow the cache.** -/
theorem cache_not_bounded :
    ¬ ∀ (table : InterfaceTable) (now : ℤ) (tr : List ((Env × Event) × Except Fault MIPDServer)),
      Run ServerStep (.ok (MIPDServer.start table now)) tr →
      Always KeepsToArray (.ok (MIPDServer.start table now)) tr := by
  intro hall
  obtain ⟨tr, hr, hbad⟩ := run_heard 64 0 rfl
  exact hbad (hall oneInterface 0 tr hr)

/-- from `n` addresses on, the others up to the 64th find room -/
theorem run_heard_room (k n : ℕ) (h : n + k = 64) : ∃ tr, Run ServerStep (.ok (heard n)) tr ∧
    tr.length = k ∧ Meets HasRoom (.ok (heard n)) tr := by
  induction k generalizing n with
  | zero => exact ⟨[], Run.nil _, rfl, trivial⟩
  | succ k ih =>
    obtain ⟨tr, hr, hlen, hroom⟩ := ih (n + 1) (by omega)
    have hlt : (heard n).cache.entries.length < ARP_CACHE_SIZE := by
      rw [show (heard n).cache.entries = heardEntries n from rfl, length_heardEntries]
      show n < 64
      omega
    refine ⟨_ :: tr, Run.cons (serverStep_heard (by omega)) hr, by rw [List.length_cons, hlen],
      fun s sd frame hs _ _ => ?_, hroom⟩
    obtain rfl := Except.ok.inj hs
    exact Or.inr (Or.inr hlt)

/-- 64 addresses fill the cache. -/
theorem cache_bounded_iff_full : ∃ tr, Run ServerStep (.ok (MIPDServer.start oneInterface 0)) tr ∧
    tr.length = 64 ∧ Always KeepsToArray (.ok (MIPDServer.start oneInterface 0)) tr := by
  obtain ⟨tr, hr, hlen, hroom⟩ := run_heard_room 64 0 rfl
  exact ⟨tr, hr, hlen, (cache_bounded_iff oneInterface 0 hr).mpr hroom⟩

end MipStack
