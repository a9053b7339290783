import MipStack.Mipd.Learning

/-!
# Whose MAC address a cache entry holds

Beside the server runs a record of what was heard: for every MIP address the Ethernet source and the
socket of the latest MIP-ARP frame from it.

* `hear`               the record after an event;
* `EntriesHeard`       every cache entry holds what was heard last from its address;
* `LearnsRight`        a step ends with `EntriesHeard`, and its transport frames go to the MAC
                       address heard last from their next hop;
* `StoresSource`       the address of the receiving interface, which is what mipd stores, is the
                       Ethernet source of the frame;
* `entriesHeard_iff`   one step;
* `learned_iff`        **the cache is right exactly in the runs whose frames all have the address of
                       the interface that receives them**;
* `learned_wrong`      a neighbour with an address of its own is learned wrong.
-/

namespace MipStack
open Library

/-! ## what was heard -/

abbrev Heard := MIPAddress → Option (MacAddress × ℤ)

def hear (env : Env) (s : MIPDServer) (heard : Heard) (ev : Event) : Heard :=
  match ev.package env with
  | some (sd, p) =>
    if IsArpFrame s sd p then Function.update heard p.mHeader.srcAddr (some (p.eFrame.srcAddr, sd))
    else heard
  | none => heard

abbrev Observed := Except Fault MIPDServer × Heard

def HeardStep (o : Observed) (x : Env × Event) (o' : Observed) : Prop :=
  ∃ s, o.1 = .ok s ∧ o'.1 = (s.handleEvent x.1 x.2).map Prod.fst ∧ o'.2 = hear x.1 s o.2 x.2

def EntriesHeard (o : Observed) : Prop :=
  ∀ s, o.1 = .ok s → ∀ e ∈ s.cache.entries, o.2 e.mipAddress = some (e.dstInterface, e.srcSocket)

/-- the next hop to which the event may send a transport frame -/
def Event.nextHop : Event → Option MIPAddress
  | .forwardData forwardResponse => forwardResponse
  | .appData available =>
    (MIPDMessage.deserialize (available.take MAX_MIPMESSAGE_DATA_SIZE)).map MIPDMessage.mipAddress
  | _ => none

/-- every transport frame of the event goes to the address heard last from its next hop -/
def SendsToHeard (o : Observed) (x : Env × Event) : Prop :=
  ∀ s s' effects sock p, o.1 = .ok s → s.handleEvent x.1 x.2 = .ok (s', effects) →
    .sendRaw sock p ∈ effects → p.mHeader.tra = 3 →
    ∃ a sd, x.2.nextHop = some a ∧ o.2 a = some (p.eFrame.dstAddr, sd)

def LearnsRight (o : Observed) (x : Env × Event) (o' : Observed) : Prop :=
  EntriesHeard o' ∧ SendsToHeard o x

/-- the cache takes the frame: its source is an address, and known or with room for it -/
def Accepts (s : MIPDServer) (p : MIPPackage) : Prop :=
  p.mHeader.srcAddr ≠ 255 ∧ ((s.cache.queryMipAddressPos p.mHeader.srcAddr).isSome ∨
    s.cache.entries.length < ARP_CACHE_SIZE)

/-- a frame that is learned from bears the address of the interface that receives it -/
def StoresSource (o : Observed) (x : Env × Event) : Prop :=
  ∀ s sd p i, o.1 = .ok s → x.2.package x.1 = some (sd, p) → IsArpFrame s sd p → Accepts s p →
    interfaceForSocket s.iTable sd = some i → p.eFrame.srcAddr = i.soName

/-! ## one step -/

/-- what every event keeps -/
structure CacheWellFormed (s : MIPDServer) : Prop where
  known : s.SocketsKnown
  unique : s.cache.UniqueAddress
  address : ∀ e ∈ s.cache.entries, e.mipAddress ≠ 255

/-- what an append has done, where it was possible -/
theorem MipArpCache.appendToCache_inv {cache cache' : MipArpCache} {now sock : ℤ} {a : MIPAddress}
    {mac : MacAddress} (h : (cache.appendToCache now sock a mac).map Prod.snd = .ok cache') :
    (a = 255 ∧ cache' = cache) ∨
    (a ≠ 255 ∧ ((cache.queryMipAddressPos a).isSome ∨ cache.entries.length < ARP_CACHE_SIZE) ∧
      cache' = { cache with
        entries := assign MipArpCacheEntry.mipAddress ⟨a, sock, mac, now⟩ cache.entries }) := by
  by_cases ha : a = 255
  · subst ha
    rw [appendToCache_broadcast] at h
    exact Or.inl ⟨rfl, (Except.ok.inj h).symm⟩
  · refine Or.inr ⟨ha, ?_⟩
    have hroom : (cache.queryMipAddressPos a).isSome ∨ cache.entries.length < ARP_CACHE_SIZE := by
      by_contra hno
      rw [not_or, Option.not_isSome_iff_eq_none] at hno
      rw [appendToCache_full cache now sock mac ha hno.1 hno.2] at h
      cases h
    rw [appendToCache_room cache now sock mac ha hroom] at h
    exact ⟨hroom, (Except.ok.inj h).symm⟩

section
variable {env : Env} {s s' : MIPDServer} {ev : Event} {effects : List Effect} {cache : MipArpCache}

theorem Cached.unique (h : Cached env s ev cache) (hu : s.cache.UniqueAddress) :
    cache.UniqueAddress := by
  cases h with
  | purge => exact Unique.sublist hu (s.cache.updateArpCache_sublist env.clock)
  | learn hev hp hi ha =>
    rcases MipArpCache.appendToCache_inv ha with ⟨_, rfl⟩ | ⟨_, _, rfl⟩
    · exact hu
    · exact Unique.assign hu _
  | keep hpoll hev => exact hu

theorem Cached.address (h : Cached env s ev cache) (ha : ∀ e ∈ s.cache.entries, e.mipAddress ≠ 255) :
    ∀ e ∈ cache.entries, e.mipAddress ≠ 255 := by
  intro e he
  cases h with
  | purge => exact ha e ((s.cache.updateArpCache_sublist env.clock).mem he)
  | learn hev hp hi happ =>
    rcases MipArpCache.appendToCache_inv happ with ⟨_, rfl⟩ | ⟨hne, _, rfl⟩
    · exact ha e he
    · rcases mem_assign he with rfl | hold
      · exact hne
      · exact ha e hold
  | keep hpoll hev => exact ha e he

theorem CacheWellFormed.event (h : CacheWellFormed s)
    (hev : s.handleEvent env ev = .ok (s', effects)) : CacheWellFormed s' :=
  ⟨(h.known.event hev).2, (MIPDServer.cached hev).unique h.unique,
    (MIPDServer.cached hev).address h.address⟩

theorem hear_of_not (heard : Heard)
    (hev : ∀ sd p, ev.package env = some (sd, p) → ¬ IsArpFrame s sd p) :
    hear env s heard ev = heard := by
  unfold hear
  split
  · rename_i sd p hp
    exact if_neg (hev sd p hp)
  · rfl

theorem hear_of_arpFrame (heard : Heard) {sd : ℤ} {p : MIPPackage}
    (hev : ev.package env = some (sd, p)) (hp : IsArpFrame s sd p) : hear env s heard ev
      = Function.update heard p.mHeader.srcAddr (some (p.eFrame.srcAddr, sd)) := by
  rw [hear, hev]
  exact if_pos hp

/-- **The entries stay right exactly when the frame bears the address that is stored.** -/
theorem Cached.heard_iff (h : Cached env s ev cache) (hw : CacheWellFormed s) {heard : Heard}
    (ho : ∀ e ∈ s.cache.entries, heard e.mipAddress = some (e.dstInterface, e.srcSocket)) :
    (∀ e ∈ cache.entries, hear env s heard ev e.mipAddress = some (e.dstInterface, e.srcSocket)) ↔
      ∀ sd p i, ev.package env = some (sd, p) → IsArpFrame s sd p → Accepts s p →
        interfaceForSocket s.iTable sd = some i → p.eFrame.srcAddr = i.soName := by
  cases h with
  | purge =>
    refine iff_of_true (fun e he => ?_) nofun
    exact ho e ((s.cache.updateArpCache_sublist env.clock).mem he)
  | keep hpoll hev =>
    rw [hear_of_not heard hev]
    exact iff_of_true ho fun sd p i h hp => absurd hp (hev sd p h)
  | @learn _ sd p i cache hev hp hi happ =>
    rw [hear_of_arpFrame heard hev hp]
    rcases MipArpCache.appendToCache_inv happ with ⟨hb, rfl⟩ | ⟨hb, hroom, rfl⟩
    · refine iff_of_true (fun e he => ?_) fun sd' p' i' heq _ hacc => ?_
      · rw [hb, Function.update_of_ne (hw.address e he)]
        exact ho e he
      · obtain ⟨rfl, rfl⟩ := Prod.mk.inj (Option.some.inj (hev.symm.trans heq))
        exact absurd hb hacc.1
    · constructor
      · intro hall sd' p' i' heq _ _ hi'
        obtain ⟨rfl, rfl⟩ := Prod.mk.inj (Option.some.inj (hev.symm.trans heq))
        obtain rfl := Option.some.inj (hi.symm.trans hi')
        have hnew := hall _ (hw.unique.mem_assign.mpr (Or.inl rfl))
        rw [Function.update_self] at hnew
        exact (Prod.mk.inj (Option.some.inj hnew)).1
      · intro hsource e he
        rcases hw.unique.mem_assign.mp he with rfl | ⟨hold, hne⟩
        · rw [Function.update_self, hsource sd p i hev hp ⟨hb, hroom⟩ hi]
        · rw [Function.update_of_ne hne]
          exact ho e hold

/-- a frame that the cache takes does not go wrong -/
theorem handleEvent_of_accepts {sd : ℤ} {p : MIPPackage} (hev : ev.package env = some (sd, p))
    (hp : IsArpFrame s sd p) (hacc : Accepts s p) :
    ∃ s' effects, s.handleEvent env ev = .ok (s', effects) := by
  obtain ⟨frame, rfl, hrecv⟩ := Event.package_eq_some hev
  obtain ⟨i, _, hi, hfd⟩ := interfaceForSocket_of_mem hp.1
  have hok := s.cache.appendToCache_room (env.clock 0) sd i.soName hacc.1 hacc.2
  obtain ⟨⟨rc, cache⟩, happ, _⟩ := map_eq_ok_iff.mp hok
  have hrc : rc ≠ -1 := fun h => hacc.1 ((MipArpCache.appendToCache_rc happ).mp h)
  rw [MIPDServer.handleEvent_of_receive hp.1 hrecv, MIPDServer.handleReceivedPackage, hi]
  dsimp only
  rcases hp.2 with htra | htra
  · rw [if_pos htra, MIPDServer.handleMipArpResponse, happ]
    dsimp only
    rw [if_neg hrc]
    exact ⟨_, _, rfl⟩
  · rw [if_neg (by rw [htra]; decide), if_pos htra, MIPDServer.handleMipArpRequest,
      MIPPackage.createRaw_eq_some _ _ _ _ _ (by decide) (Nat.zero_le _), hfd, happ]
    exact ⟨_, _, rfl⟩

end

theorem entriesHeard_iff {o o' : Observed} {x : Env × Event}
    (hw : ∀ s, o.1 = .ok s → CacheWellFormed s) (ho : EntriesHeard o) (hstep : HeardStep o x o') :
    EntriesHeard o' ↔ StoresSource o x := by
  obtain ⟨r', heard'⟩ := o'
  obtain ⟨s, hs, hr', hheard⟩ := hstep
  obtain rfl : heard' = hear x.1 s o.2 x.2 := hheard
  obtain rfl : r' = (s.handleEvent x.1 x.2).map Prod.fst := hr'
  have hcond : StoresSource o x ↔ ∀ sd p i, x.2.package x.1 = some (sd, p) → IsArpFrame s sd p →
      Accepts s p → interfaceForSocket s.iTable sd = some i → p.eFrame.srcAddr = i.soName := by
    constructor
    · intro h sd p i
      exact h s sd p i hs
    · intro h t sd p i ht
      obtain rfl := Except.ok.inj (hs.symm.trans ht)
      exact h sd p i
  rw [hcond]
  cases hev : s.handleEvent x.1 x.2 with
  | error f =>
    refine iff_of_true (fun t ht => by cases ht) fun sd p i hx hp hacc => ?_
    obtain ⟨s', effects, hok⟩ := handleEvent_of_accepts hx hp hacc
    rw [hok] at hev
    cases hev
  | ok y =>
    rw [← (MIPDServer.cached (show s.handleEvent x.1 x.2 = .ok (y.1, y.2) from hev)).heard_iff
      (hw s hs) (ho s hs)]
    constructor
    · intro h
      exact h y.1 rfl
    · intro h t ht
      obtain rfl : y.1 = t := Except.ok.inj ht
      exact h

/-- **A transport frame goes to the address of its next hop in the cache.** -/
theorem EntriesHeard.sends {o : Observed} {x : Env × Event} (ho : EntriesHeard o) :
    SendsToHeard o x := by
  obtain ⟨env, ev⟩ := x
  intro s s' effects sock p hs hev hmem htra
  cases MIPDServer.handled hev with
  | control _ hq ht hc he => exact absurd htra (he _ hmem)
  | deliver _ _ hown hm => cases List.mem_singleton.mp hmem
  | transit _ _ httl hwrites => cases List.mem_singleton.mp hmem
  | @direct available m i e hlen hd hi he ha =>
    obtain ⟨_, rfl⟩ := Effect.sendRaw.inj (List.mem_singleton.mp hmem)
    refine ⟨m.mipAddress, e.srcSocket, ?_, ha ▸ ho s hs e he⟩
    show (MIPDMessage.deserialize _).map _ = _
    rw [hd]
    rfl
  | request hlen hd hwrites => cases List.mem_singleton.mp hmem
  | @respond nextHop entry q i e hr hi he ha hf =>
    obtain ⟨_, rfl⟩ := Effect.sendRaw.inj (List.mem_singleton.mp hmem)
    exact ⟨nextHop, e.srcSocket, rfl, ha ▸ ho s hs e he⟩
  | notFound hr hf => cases hmem

/-! ## runs -/

/-- the server at its start, with nothing heard -/
def Observed.start (table : InterfaceTable) (now : ℤ) : Observed :=
  (.ok (MIPDServer.start table now), fun _ => none)

/-- what holds along a run that has learned right so far -/
def Observed.Good (o : Observed) : Prop :=
  (∀ s, o.1 = .ok s → CacheWellFormed s) ∧ EntriesHeard o

theorem Observed.good_start (table : InterfaceTable) (now : ℤ) :
    (Observed.start table now).Good := by
  constructor
  · intro s hs
    obtain rfl := Except.ok.inj hs
    exact ⟨MIPDServer.socketsKnown_start table now, unique_nil, fun e he => by cases he⟩
  · intro s hs e he
    obtain rfl := Except.ok.inj hs
    cases he

theorem HeardStep.wellFormed {o o' : Observed} {x : Env × Event} (h : HeardStep o x o')
    (hw : ∀ s, o.1 = .ok s → CacheWellFormed s) : ∀ s, o'.1 = .ok s → CacheWellFormed s := by
  obtain ⟨s, hs, hr, _⟩ := h
  intro s' hs'
  obtain ⟨y, hy, hys⟩ := map_eq_ok_iff.mp (hr.symm.trans hs')
  exact (hw s hs).event (show s.handleEvent x.1 x.2 = .ok (s', y.2) from hys ▸ hy)

/-- **The cache and the frames sent by it are right exactly in the runs where every frame that is
learned from bears the address of the interface that receives it.** -/
theorem learned_iff (table : InterfaceTable) (now : ℤ) {tr : List ((Env × Event) × Observed)}
    (hr : Run HeardStep (Observed.start table now) tr) :
    Always LearnsRight (Observed.start table now) tr ↔
      Meets StoresSource (Observed.start table now) tr := by
  refine Run.always_iff (I := Observed.Good) ?_ ?_ hr (Observed.good_start table now)
  · intro o x o' h hcond hstep
    exact ⟨hstep.wellFormed h.1, (entriesHeard_iff h.1 h.2 hstep).mpr hcond⟩
  · intro o x o' h hstep
    rw [LearnsRight, and_iff_left h.2.sends]
    exact entriesHeard_iff h.1 h.2 hstep

/-- a MIP-ARP response from the address 20, with a MAC address of its own -/
def foreignResponse : MIPPackage :=
  { arpResponse 20 with eFrame := ⟨fun _ => 0, fun _ => 1, (0x88, 0xB5)⟩ }

/-- **A neighbour with an address of its own is learned wrong.** -/
theorem learned_wrong :
    ¬ ∀ (table : InterfaceTable) (now : ℤ) (tr : List ((Env × Event) × Observed)),
      Run HeardStep (Observed.start table now) tr →
      Always LearnsRight (Observed.start table now) tr := by
  intro hall
  have hstep : HeardStep (Observed.start oneInterface 0)
      (quietEnv, .rawFrame 3 (frameOf foreignResponse)) (_, _) := ⟨_, rfl, rfl, rfl⟩
  have hpackage : (Event.rawFrame 3 (frameOf foreignResponse)).package quietEnv
      = some (3, foreignResponse.wire.received) :=
    Event.package_rawFrame (receivePackage_frameOf _ rfl) _
  have hgood := Observed.good_start oneInterface 0
  have hright := hall oneInterface 0 _ (Run.cons hstep (Run.nil _))
  have hsource := (entriesHeard_iff hgood.1 hgood.2 hstep).mp hright.1.1
  have hmac := hsource _ 3 _ ⟨fun _ => 0, fun _ => 0, 10, 3⟩ rfl hpackage (by decide)
    ⟨by decide, by decide⟩ rfl
  exact absurd (congrFun hmac 0) (by decide)

/-- the MAC address 02:42:ac:11:00:`n` -/
def localMac (n : UInt8) : MacAddress := fun j => [0x02, 0x42, 0xac, 0x11, 0x00, n].getD j 0

/-- one interface with the address 02:42:ac:11:00:02 -/
def macInterface : InterfaceRecord := ⟨localMac 2, localMac 2, 10, 3⟩

/-- a MIP-ARP response that bears the MAC address of the interface -/
def ownResponse (srcAddr : MIPAddress) : MIPPackage :=
  { arpResponse srcAddr with eFrame := ⟨localMac 2, localMac 2, (0x88, 0xB5)⟩ }

def ownFrame (srcAddr : MIPAddress) : Event := .rawFrame 3 (frameOf (ownResponse srcAddr))

theorem package_ownFrame (srcAddr : MIPAddress) :
    (ownFrame srcAddr).package quietEnv = some (3, (ownResponse srcAddr).wire.received) :=
  Event.package_rawFrame (receivePackage_frameOf _ rfl) _

/-- the server when it has heard the address 20 -/
def heardOwn : MIPDServer :=
  { MIPDServer.start [macInterface] 0 with cache := ⟨[⟨20, 3, localMac 2, 0⟩], 10000, 0⟩ }

theorem handleEvent_ownFrame : (MIPDServer.start [macInterface] 0).handleEvent quietEnv (ownFrame 20)
    = .ok (heardOwn, []) :=
  (MIPDServer.handleEvent_of_receive rfl (receivePackage_frameOf _ rfl)).trans rfl

theorem storesSource_ownFrame {s : MIPDServer} (hs : s.iTable = [macInterface]) (heard : Heard)
    (a : MIPAddress) : StoresSource (.ok s, heard) (quietEnv, ownFrame a) := by
  intro t sd p i ht hp _ _ hi
  obtain rfl := Except.ok.inj ht
  obtain ⟨rfl, rfl⟩ := Prod.mk.inj (Option.some.inj ((package_ownFrame a).symm.trans hp))
  rw [hs] at hi
  obtain rfl : macInterface = i := Option.some.inj hi
  rfl

/-- the frames of the addresses 20 and 30 bear the address of the interface that receives them -/
theorem learned_iff_own : ∃ tr, Run HeardStep (Observed.start [macInterface] 0) tr ∧
    tr.map (fun x => x.1.2) = [ownFrame 20, ownFrame 30] ∧
    Always LearnsRight (Observed.start [macInterface] 0) tr := by
  have hfirst : HeardStep (Observed.start [macInterface] 0) (quietEnv, ownFrame 20)
      (.ok heardOwn, hear quietEnv (MIPDServer.start [macInterface] 0) (fun _ => none) (ownFrame 20)) :=
    ⟨_, rfl, by rw [handleEvent_ownFrame]; rfl, rfl⟩
  have hsecond : ∀ heard, HeardStep (.ok heardOwn, heard) (quietEnv, ownFrame 30)
      ((heardOwn.handleEvent quietEnv (ownFrame 30)).map Prod.fst,
        hear quietEnv heardOwn heard (ownFrame 30)) := fun _ => ⟨_, rfl, rfl, rfl⟩
  have hrun := Run.cons hfirst (Run.cons (hsecond _) (Run.nil _))
  exact ⟨_, hrun, rfl, (learned_iff [macInterface] 0 hrun).mpr
    ⟨storesSource_ownFrame rfl _ 20, storesSource_ownFrame rfl _ 30, trivial⟩⟩

end MipStack
