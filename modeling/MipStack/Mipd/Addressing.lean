import MipStack.Mipd.Poisoning
import MipStack.Mipd.Neighbours

/-!
# The Ethernet addresses of the frames that mipd emits

* `InterfaceTable.SetUp`   what holds of the tables of mipd: `append_interface_table` copies the MAC
                           address from the socket name, and every record has a socket of its own;
* `mainTable_setUp`        the tables that `main` builds are such tables;
* `expectedDestination`    the MAC address that the frames of an event are for;
* `WellAddressed`          the source is the MAC address of the interface, the destination expected;
* `PointersMatch`          where an address is passed to `MIPPackage_create_raw` by pointer, the bytes
                           of the pointer are those of the address;
* `addressed_iff`          **the frames are addressed right exactly when the pointers match**: MIP-ARP
                           requests and transport frames always, responses and route tables by chance;
* `addressed_wrong`        a response with the bytes of two pointers.
-/

namespace MipStack
open Library

/-! ## interface tables -/

structure InterfaceTable.SetUp (table : InterfaceTable) : Prop where
  address : ∀ i ∈ table, i.interface = i.soName
  sockets : (table.map InterfaceRecord.rawSocket).Nodup

theorem map_snd_zip_sublist {α β : Type} (l : List α) (m : List β) :
    ((l.zip m).map Prod.snd).Sublist m := by
  induction l generalizing m with
  | nil => exact List.nil_sublist m
  | cons a l ih =>
    cases m with
    | nil => exact List.Sublist.refl []
    | cons b m => exact (ih m).cons_cons b

/-- the table of `create_loaded_interface_table` with the addresses of `apply_mip_addresses` and the
sockets of `bind_table_to_raw_sockets` -/
def mainTable (soNames : List MacAddress) (mipAddresses : List MIPAddress) (sockets : List ℕ) :
    InterfaceTable :=
  ((soNames.zip mipAddresses).zip sockets).map fun x => ⟨x.1.1, x.1.1, x.1.2, x.2⟩

theorem mainTable_setUp (soNames : List MacAddress) (mipAddresses : List MIPAddress)
    {sockets : List ℕ} (h : sockets.Nodup) : (mainTable soNames mipAddresses sockets).SetUp := by
  constructor
  · intro i hi
    obtain ⟨x, _, rfl⟩ := List.mem_map.mp hi
    rfl
  · have hsnd : (mainTable soNames mipAddresses sockets).map InterfaceRecord.rawSocket
        = ((soNames.zip mipAddresses).zip sockets).map Prod.snd := by
      rw [mainTable, List.map_map]
      rfl
    rw [hsnd]
    exact h.sublist (map_snd_zip_sublist _ _)

variable {table : InterfaceTable}

theorem InterfaceTable.SetUp.interfaceForSocket (h : table.SetUp) {i : InterfaceRecord}
    (hi : i ∈ table) : interfaceForSocket table i.rawSocket = some i := by
  have hmem : isSocketInTable table i.rawSocket = true :=
    List.any_eq_true.mpr ⟨i, hi, by simp⟩
  obtain ⟨j, hj, hint, hsock⟩ := interfaceForSocket_of_mem hmem
  have heq : j.rawSocket = i.rawSocket := Int.ofNat.inj hsock
  rw [hint, List.inj_on_of_nodup_map h.sockets hj hi heq]

/-! ## addresses of frames -/

/-- the broadcast address for MIP-ARP requests and route tables, the requester for a response, and
the neighbour in the cache for the next hop of a transport frame -/
def expectedDestination (s : MIPDServer) : Event → Option MacAddress
  | .poll => some ETH_BROADCAST_ADDR
  | .routeData _ => some ETH_BROADCAST_ADDR
  | .rawFrame _ frame => some (EtherFrame.ofBytes (receiveBuffer frame)).srcAddr
  | ev => (ev.nextHop.bind fun a => lookup MipArpCacheEntry.mipAddress a s.cache.entries).map
      MipArpCacheEntry.dstInterface

def WellAddressed (s : MIPDServer) (ev : Event) (sock : ℤ) (p : MIPPackage) : Prop :=
  (interfaceForSocket s.iTable sock).map InterfaceRecord.interface = some p.eFrame.srcAddr ∧
    expectedDestination s ev = some p.eFrame.dstAddr

/-- the bytes of the pointers that the event copies -/
def PointersMatch (env : Env) (s : MIPDServer) : Event → Prop
  | .rawFrame sd frame => ∀ p, receivePackage env.behind frame = .ok p → IsArpFrame s sd p →
    p.mHeader.tra = 1 →
    (interfaceForSocket s.iTable sd).map InterfaceRecord.interface
        = some (env.layout (.interface (getInterfacePosForSocket s.iTable sd))) ∧
      env.layout .receivedSource = p.eFrame.srcAddr
  | .routeData (some _) => s.routeSocket ≠ -1 → ∀ pos i, s.iTable[pos]? = some i →
    env.layout (.interface pos) = i.interface ∧ env.layout .etherBroadcast = ETH_BROADCAST_ADDR
  | _ => True

namespace MIPDServer
variable {env : Env} {s s' : MIPDServer} {ev : Event} {effects : List Effect}

/-- **A frame for a neighbour in the cache is addressed right.** -/
theorem wellAddressed_neighbor (hb : s.iTable.SetUp) {a : MIPAddress} {i : InterfaceRecord}
    {e : MipArpCacheEntry} (hn : s.neighbor a = .ok (i, e)) {p : MIPPackage}
    (hp : p.eFrame = createEthernetFrame e.dstInterface i.soName)
    (hev : expectedDestination s ev = (lookup MipArpCacheEntry.mipAddress a s.cache.entries).map
      MipArpCacheEntry.dstInterface) :
    WellAddressed s ev (s.cache.queryMipAddressSrcSocket a) p := by
  obtain ⟨hi, he⟩ := neighbor_inv hn
  have hmem : i ∈ s.iTable := List.mem_of_getElem? hi
  rw [WellAddressed, hi, hev, he, hp]
  exact ⟨congrArg some (hb.address i hmem), rfl⟩

/-- **A MIP-ARP request is addressed right.** -/
theorem wellAddressed_completeMipArp (hb : s.iTable.SetUp) {now : ℤ} {sock : ℤ} {p : MIPPackage}
    (h : .sendRaw sock p ∈ (s.completeMipArp now).2) : WellAddressed s .poll sock p := by
  obtain ⟨i, hi, hsent⟩ := List.mem_filterMap.mp h
  obtain ⟨q, hq, heq⟩ := Option.map_eq_some_iff.mp hsent
  obtain ⟨rfl, rfl⟩ := Effect.sendRaw.inj heq
  rw [MIPPackage.createMipArpRequestPacket, MIPPackage.create_eq_some _ _ (by simp)] at hq
  obtain rfl := Option.some.inj hq
  rw [WellAddressed, hb.interfaceForSocket hi]
  exact ⟨rfl, rfl⟩

/-! ## one lemma for each handler -/

theorem wellAddressed_updateArpCache (hb : s.iTable.SetUp) {sock : ℤ} {p : MIPPackage}
    (h : .sendRaw sock p ∈ (s.updateArpCache env).2) : WellAddressed s .poll sock p := by
  unfold updateArpCache at h
  dsimp only at h
  split at h
  · exact wellAddressed_completeMipArp
      (s := { s with cache := (MipArpCache.purge env.clock 0 s.cache).2 }) hb h
  · cases h

theorem wellAddressed_forwardData (hb : s.iTable.SetUp) {nextHop : MIPAddress}
    (h : s.handleForwardData nextHop = .ok (s', effects)) {sock : ℤ} {p : MIPPackage}
    (hmem : .sendRaw sock p ∈ effects) :
    WellAddressed s (.forwardData (some nextHop)) sock p := by
  cases responseOutcome h with
  | sent hr hn =>
    obtain ⟨rfl, rfl⟩ := Effect.sendRaw.inj (List.mem_singleton.mp hmem)
    exact wellAddressed_neighbor hb hn rfl rfl
  | notFound hr => cases hmem

theorem no_sendRaw_requestForwarding {d : MIPAddress} {q : MIPPackage} {sock : ℤ} {p : MIPPackage} :
    .sendRaw sock p ∉ (s.requestForwarding env d q).2 := by
  rcases s.requestForwarding_eq env d q with ⟨_, heq⟩ | heq
  · rw [heq]
    simp
  · rw [heq]
    simp

theorem wellAddressed_applicationData (hb : s.iTable.SetUp) {available : List UInt8}
    (h : s.handleApplicationData env available = .ok (s', effects)) {sock : ℤ} {p : MIPPackage}
    (hmem : .sendRaw sock p ∈ effects) : WellAddressed s (.appData available) sock p := by
  cases appOutcome h with
  | closed _ => cases hmem
  | short _ => cases hmem
  | @direct m i e hlen hd hn =>
    obtain ⟨rfl, rfl⟩ := Effect.sendRaw.inj (List.mem_singleton.mp hmem)
    have hev : expectedDestination s (.appData available)
        = (lookup MipArpCacheEntry.mipAddress m.mipAddress s.cache.entries).map
          MipArpCacheEntry.dstInterface := by
      show (((MIPDMessage.deserialize _).map MIPDMessage.mipAddress).bind _).map _ = _
      rw [hd]
      rfl
    exact wellAddressed_neighbor hb hn rfl hev
  | routed _ _ _ => exact absurd hmem no_sendRaw_requestForwarding

theorem no_sendRaw_transport {q : MIPPackage} (h : s.handleTransport env q = .ok (s', effects))
    {sock : ℤ} {p : MIPPackage} : .sendRaw sock p ∉ effects := by
  intro hmem
  unfold handleTransport at h
  split at h
  · unfold handlePackageForApplication at h
    split at h
    · cases h
    · rename_i effects' heffects
      obtain ⟨_, rfl⟩ := Prod.mk.inj (Except.ok.inj h)
      split at heffects
      · obtain rfl := Except.ok.inj heffects
        cases hmem
      · split at heffects
        · cases heffects
        · obtain rfl := Except.ok.inj heffects
          cases List.mem_singleton.mp hmem
  · split at h
    · obtain ⟨_, rfl⟩ := Prod.mk.inj (Except.ok.inj h)
      cases hmem
    · obtain ⟨_, rfl⟩ := Prod.mk.inj (Except.ok.inj h)
      exact no_sendRaw_requestForwarding hmem

/-- a frame other than a MIP-ARP request is not answered -/
theorem no_sendRaw_rawFrame {sd : ℤ} {q : MIPPackage} (hsd : isSocketInTable s.iTable sd = true)
    (htra : q.mHeader.tra ≠ 1) (h : s.handleReceivedPackage env sd q = .ok (s', effects)) {sock : ℤ}
    {p : MIPPackage} : .sendRaw sock p ∉ effects := by
  intro hmem
  cases frameOutcome hsd h with
  | learned _ _ _ _ => cases hmem
  | answered hone _ _ _ _ => exact htra hone
  | table _ =>
    unfold recvRouteTableBroadcast at hmem
    split at hmem
    · cases hmem
    · cases List.mem_singleton.mp hmem
  | transport _ h => exact no_sendRaw_transport h hmem
  | dropped _ _ => cases hmem

/-- **A MIP-ARP response has the bytes of two pointers.** -/
theorem effects_mipArpRequest {sd : ℤ} {q : MIPPackage} {i : InterfaceRecord}
    (hsd : isSocketInTable s.iTable sd = true) (htra : q.mHeader.tra = 1)
    (hi : interfaceForSocket s.iTable sd = some i)
    (h : s.handleReceivedPackage env sd q = .ok (s', effects)) :
    ∃ response, effects = [.sendRaw i.rawSocket response] ∧
      response.eFrame = createTransportEthernetFrame env.layout
        (.interface (getInterfacePosForSocket s.iTable sd)) .receivedSource := by
  cases frameOutcome hsd h with
  | learned hzero _ _ _ => exact absurd (htra.symm.trans hzero) (by decide)
  | @answered i' _ _ response _ hi' _ hresponse _ =>
    obtain rfl := Option.some.inj (hi.symm.trans hi')
    rw [MIPPackage.createRaw_eq_some _ _ _ _ _ (by decide) (Nat.zero_le _)] at hresponse
    obtain rfl := Option.some.inj hresponse
    exact ⟨_, rfl, rfl⟩
  | table htwo => exact absurd (htra.symm.trans htwo) (by decide)
  | transport hthree _ => exact absurd (htra.symm.trans hthree) (by decide)
  | dropped _ hrequest => exact absurd htra hrequest

theorem addressed_rawFrame_iff {sd : ℤ} {frame : List UInt8} {q : MIPPackage}
    (hsd : isSocketInTable s.iTable sd = true) (hq : receivePackage env.behind frame = .ok q)
    (h : s.handleReceivedPackage env sd q = .ok (s', effects)) :
    (∀ sock p, .sendRaw sock p ∈ effects → WellAddressed s (.rawFrame sd frame) sock p) ↔
      PointersMatch env s (.rawFrame sd frame) := by
  by_cases htra : q.mHeader.tra = 1
  · obtain ⟨i, _, hi, hfd⟩ := interfaceForSocket_of_mem hsd
    obtain ⟨response, rfl, hframe⟩ := effects_mipArpRequest hsd htra hi h
    have hsource : response.eFrame.srcAddr
        = env.layout (.interface (getInterfacePosForSocket s.iTable sd)) := by rw [hframe]; rfl
    have hdest : response.eFrame.dstAddr = env.layout .receivedSource := by rw [hframe]; rfl
    have hone : WellAddressed s (.rawFrame sd frame) i.rawSocket response ↔
        (interfaceForSocket s.iTable sd).map InterfaceRecord.interface
            = some (env.layout (.interface (getInterfacePosForSocket s.iTable sd))) ∧
          env.layout .receivedSource = q.eFrame.srcAddr := by
      rw [WellAddressed, hfd, hsource, hdest, eq_comm (a := env.layout .receivedSource),
        (receivePackage_inv hq).1]
      exact and_congr_right fun _ => Option.some_inj
    constructor
    · intro hall q' hq' _ _
      obtain rfl := Except.ok.inj (hq.symm.trans hq')
      exact hone.mp (hall _ _ (List.mem_singleton.mpr rfl))
    · intro hmatch sock p hmem
      obtain ⟨rfl, rfl⟩ := Effect.sendRaw.inj (List.mem_singleton.mp hmem)
      exact hone.mpr (hmatch q hq ⟨hsd, Or.inr htra⟩ htra)
  · refine iff_of_true (fun sock p hmem => absurd hmem (no_sendRaw_rawFrame hsd htra h)) ?_
    intro q' hq' _ hone
    obtain rfl := Except.ok.inj (hq.symm.trans hq')
    exact absurd hone htra

theorem addressed_routeData_iff (hb : s.iTable.SetUp) (hr : s.routeSocket ≠ -1)
    {tablePackage : MIPRouteTablePackage}
    (h : s.broadcastRouteTable env tablePackage = .ok (s', effects)) :
    (∀ sock p, .sendRaw sock p ∈ effects →
      WellAddressed s (.routeData (some tablePackage)) sock p) ↔
      PointersMatch env s (.routeData (some tablePackage)) := by
  have hsize : s.iTable = [] ∨ tablePackage.numEntries.toNat ≤ 64 := by
    unfold broadcastRouteTable at h
    split at h
    · assumption
    · cases h
  rw [broadcastRouteTable_eq env s hsize] at h
  obtain ⟨_, rfl⟩ := Prod.mk.inj (Except.ok.inj h)
  have hone : ∀ pos i, s.iTable[pos]? = some i → ∀ q,
      (WellAddressed s (.routeData (some tablePackage)) i.rawSocket (routeFrame env i pos q) ↔
        env.layout (.interface pos) = i.interface ∧
          env.layout .etherBroadcast = ETH_BROADCAST_ADDR) := by
    intro pos i hi q
    rw [WellAddressed, hb.interfaceForSocket (List.mem_of_getElem? hi)]
    show some i.interface = some (env.layout _) ∧ some ETH_BROADCAST_ADDR = some (env.layout _) ↔ _
    rw [Option.some_inj, Option.some_inj, eq_comm, eq_comm (a := ETH_BROADCAST_ADDR)]
  constructor
  · intro hall _ pos i hi
    refine (hone pos i hi _).mp (hall _ _ (List.mem_map.mpr ⟨(i, pos), ?_, rfl⟩))
    exact List.mem_zipIdx_iff_getElem?.mpr hi
  · intro hmatch sock p hmem
    obtain ⟨⟨i, pos⟩, hx, heq⟩ := List.mem_map.mp hmem
    obtain ⟨rfl, rfl⟩ := Effect.sendRaw.inj heq
    have hi := List.mem_zipIdx_iff_getElem?.mp hx
    exact (hone pos i hi _).mpr (hmatch hr pos i hi)

end MIPDServer

/-! ## all frames -/

theorem Inert.pointersMatch {env : Env} {s : MIPDServer} {ev : Event} (h : Inert s ev) :
    PointersMatch env s ev := by
  cases ev with
  | rawFrame sd frame => exact fun p _ hp => absurd hp.1 (h.frame sd frame rfl)
  | routeData tablePackage =>
    cases tablePackage with
    | none => trivial
    | some p => exact fun hr => absurd (h.table p rfl) hr
  | _ => trivial

/-- **The frames of the first MIP-ARP round are addressed right; those of an event are exactly when
the pointers match.** -/
theorem addressed_iff {env : Env} {s s' : MIPDServer} {ev : Event} {effects : List Effect}
    (hb : s.iTable.SetUp) (h : s.handleEvent env ev = .ok (s', effects)) :
    (∀ now sock p, .sendRaw sock p ∈ (s.completeMipArp now).2 → WellAddressed s .poll sock p) ∧
    ((∀ sock p, .sendRaw sock p ∈ effects → WellAddressed s ev sock p) ↔ PointersMatch env s ev) := by
  refine ⟨fun now sock p => MIPDServer.wellAddressed_completeMipArp hb, ?_⟩
  cases MIPDServer.dispatch h with
  | inert hev _ _ _ => exact iff_of_true (fun _ _ hmem => by cases hmem) hev.pointersMatch
  | poll => exact iff_of_true (fun sock p => MIPDServer.wellAddressed_updateArpCache hb) trivial
  | table hr h => exact MIPDServer.addressed_routeData_iff hb hr h
  | response hf h =>
    exact iff_of_true (fun sock p => MIPDServer.wellAddressed_forwardData hb h) trivial
  | frame hsd hp h => exact MIPDServer.addressed_rawFrame_iff hsd hp h
  | app h =>
    exact iff_of_true (fun sock p => MIPDServer.wellAddressed_applicationData hb h) trivial

/-- a MIP-ARP request from the address 20 -/
def arpRequest (srcMac : MacAddress) : MIPPackage :=
  { arpResponse 20 with
    eFrame := ⟨ETH_BROADCAST_ADDR, srcMac, (0x88, 0xB5)⟩
    mHeader := { (arpResponse 20).mHeader with tra := 1, dstAddr := 255 } }

theorem oneInterface_setUp : InterfaceTable.SetUp oneInterface :=
  ⟨by simp [oneInterface], by simp [oneInterface]⟩

/-- all pointers are 0x7ffd12345678, with the lowest byte first -/
def stackEnv : Env :=
  { quietEnv with layout := fun _ j => [0x78, 0x56, 0x34, 0x12, 0xfd, 0x7f].getD j 0 }

/-- **A response is sent from one pointer to another.** -/
theorem addressed_wrong :
    ¬ ∀ (env : Env) (s s' : MIPDServer) (ev : Event) (effects : List Effect), s.iTable.SetUp →
      s.handleEvent env ev = .ok (s', effects) →
      ∀ sock p, .sendRaw sock p ∈ effects → WellAddressed s ev sock p := by
  intro hall
  have hrecv := receivePackage_frameOf stackEnv.behind (p := arpRequest fun _ => 1) rfl
  have hp : IsArpFrame (MIPDServer.start oneInterface 0) 3 (arpRequest fun _ => 1).wire.received := by
    decide
  obtain ⟨s', effects, h⟩ := handleEvent_of_accepts (Event.package_rawFrame hrecv _) hp
    ⟨by decide, by decide⟩
  have hmatch := (addressed_iff oneInterface_setUp h).2.mp (hall _ _ _ _ _ oneInterface_setUp h)
  exact absurd (congrFun (hmatch _ hrecv hp rfl).2 0) (by decide)

theorem macInterface_setUp : InterfaceTable.SetUp [macInterface] :=
  ⟨by simp [macInterface], by simp [macInterface]⟩

/-- the pointers to the MAC address of the interface and to that of the requester have the bytes of
02:42:ac:11:00:02 and 02:42:ac:11:00:07, all others are 0x7ffd12345678 -/
def luckyEnv : Env :=
  { stackEnv with
    layout := fun object => match object with
      | .interface _ => localMac 2
      | .receivedSource => localMac 7
      | _ => stackEnv.layout object }

/-- a requester whose MAC address the pointer happens to have -/
theorem addressed_iff_lucky : ∃ s' response,
    (MIPDServer.start [macInterface] 0).handleEvent luckyEnv
      (.rawFrame 3 (frameOf (arpRequest (localMac 7)))) = .ok (s', [.sendRaw 3 response]) ∧
    WellAddressed (MIPDServer.start [macInterface] 0)
      (.rawFrame 3 (frameOf (arpRequest (localMac 7)))) 3 response := by
  have hrecv := receivePackage_frameOf luckyEnv.behind (p := arpRequest (localMac 7)) rfl
  have h : (MIPDServer.start [macInterface] 0).handleEvent luckyEnv
      (.rawFrame 3 (frameOf (arpRequest (localMac 7)))) = .ok (_, [.sendRaw 3 _]) :=
    (MIPDServer.handleEvent_of_receive rfl hrecv).trans rfl
  refine ⟨_, _, h, (addressed_iff macInterface_setUp h).2.mpr ?_ 3 _ (List.mem_singleton.mpr rfl)⟩
  intro p hp _ _
  obtain rfl := Except.ok.inj (hrecv.symm.trans hp)
  exact ⟨rfl, rfl⟩

end MipStack
