import MipStack.Mipd.Server

/-!
# When an event ends the daemon

The main loop has one error label.  Which events lead to it, to a `NULL` package or out of an array
depends on the state of the cache and of the forward queue:

* `Survives r`       the result `r` is no fault of any kind;
* `Safe s ev`        the condition on the state `s` and the event `ev`;
* `survives_rawFrame_iff`   a frame, by what its bytes announce;
* `SocketsKnown.survives_iff`   **an event is survived if and only if it is safe**;
* `survives_run_iff` **a run from the start of the daemon survives if and only if all its events are
                     safe** in the states in which they arrive;
* `errorExit_of_arp_response`   one frame that ends a freshly started daemon.

A frame that announces more words than were received is survived, with bytes of the heap `behind` the
receive buffer as its payload, as long as the message buffer has room for them.
-/

namespace MipStack
open Library

def Survives {α : Type} (r : Except Fault α) : Prop := ∃ x, r = .ok x

@[simp] theorem survives_ok {α : Type} (x : α) : Survives (.ok x : Except Fault α) := ⟨x, rfl⟩

@[simp] theorem not_survives_error {α : Type} (f : Fault) :
    ¬ Survives (.error f : Except Fault α) := fun h => nomatch h.choose_spec

@[simp] theorem survives_map_iff {α β : Type} (g : α → β) (r : Except Fault α) :
    Survives (r.map g) ↔ Survives r := by
  cases r with
  | error f => exact iff_of_false (not_survives_error f) (not_survives_error f)
  | ok x => exact iff_of_true (survives_ok (g x)) (survives_ok x)

theorem MipArpCache.survives_append_iff (cache : MipArpCache) (now sock : ℤ) (a : MIPAddress)
    (mac : MacAddress) : Survives (cache.appendToCache now sock a mac) ↔ cache.RoomFor a := by
  unfold appendToCache RoomFor
  by_cases h255 : a = 255
  · simp [h255]
  · cases hpos : cache.queryMipAddressPos a with
    | some pos => simp [h255]
    | none => by_cases hlt : cache.entries.length < ARP_CACHE_SIZE <;> simp [h255, hlt]

namespace MIPDServer

/-- the header of a frame asks for no more payload than fits into the message buffer, and for no
65th entry of the cache; a MIP-ARP response comes from an address -/
def SafeHeader (s : MIPDServer) (mHeader : MipHeader) : Prop :=
  mHeader.payloadLen.toNat ≤ PAYLOAD_MAX_WORD_NUM ∧
    (mHeader.tra = 0 → mHeader.srcAddr ≠ 255) ∧
    (mHeader.tra = 0 ∨ mHeader.tra = 1 → s.cache.RoomFor mHeader.srcAddr)

/-- a response has a package to go with, and its next hop is in the cache or 255 -/
def Answerable (s : MIPDServer) (nextHop : MIPAddress) : Prop :=
  s.forwardQueue ≠ [] ∧ (nextHop = 255 ∨ (s.cache.queryMipAddressPos nextHop).isSome)

/-- what an application has written declares no more data than a message may have -/
def WellSized (available : List UInt8) : Prop :=
  SIZEOF_MIPDMESSAGE ≤ (available.take MAX_MIPMESSAGE_DATA_SIZE).length →
    MIPDMessage.serializedGetDataSize (available.take MAX_MIPMESSAGE_DATA_SIZE)
      ≤ MAX_MIPMESSAGE_DATA_SIZE

/-- **The events that the daemon survives in state `s`.** -/
def Safe (s : MIPDServer) : Event → Prop
  | .rawFrame sd frame =>
      isSocketInTable s.iTable sd = true → s.SafeHeader (receivedHeader frame)
  | .routeData (some tablePackage) => s.routeSocket ≠ -1 → s.iTable ≠ [] →
      tablePackage.numEntries.toNat ≤ MIP_TABLE_PACKAGE_ENTRIES_MAX_SIZE
  | .forwardData (some nextHop) => s.forwardSocket ≠ -1 → s.Answerable nextHop
  | .appData available => s.appSocket ≠ -1 → WellSized available
  | _ => True

variable {env : Env} {s : MIPDServer}

/-! ## one lemma for each handler -/

/-- what fits into a message buffer is not too long for the application -/
theorem survives_transport {p : MIPPackage}
    (hfits : p.mHeader.payloadLen.toNat ≤ PAYLOAD_MAX_WORD_NUM) :
    Survives (s.handleTransport env p) := by
  have hsize : p.payloadBytes ≤ MAX_MIPMESSAGE_DATA_SIZE := Nat.mul_le_mul_right 4 hfits
  unfold handleTransport
  split
  · unfold handlePackageForApplication MIPDMessage.create
    by_cases happ : s.appSocket = -1
    · simp [happ]
    · simp [happ, hsize]
  · split <;> exact survives_ok _

theorem survives_arpResponse_iff {sd : ℤ} {p : MIPPackage} {i : InterfaceRecord} :
    Survives (s.handleMipArpResponse env sd p i) ↔
      p.mHeader.srcAddr ≠ 255 ∧ s.cache.RoomFor p.mHeader.srcAddr := by
  rw [← s.cache.survives_append_iff (env.clock 0) sd p.mHeader.srcAddr i.soName]
  unfold handleMipArpResponse
  split
  · rename_i f happ
    rw [happ]
    exact iff_of_false (not_survives_error f) fun h => not_survives_error f h.2
  · rename_i rc cache happ
    rw [happ, Ne, ← MipArpCache.appendToCache_rc happ]
    split <;> simp_all

theorem survives_arpRequest_iff {p : MIPPackage} {pos : ℕ} {i : InterfaceRecord} :
    Survives (s.handleMipArpRequest env p pos i) ↔ s.cache.RoomFor p.mHeader.srcAddr := by
  rw [← s.cache.survives_append_iff (env.clock 0) i.rawSocket p.mHeader.srcAddr i.soName]
  unfold handleMipArpRequest
  rw [MIPPackage.createRaw_eq_some _ _ _ _ _ (by decide) (by simp)]
  dsimp only
  split
  · rename_i f happ
    rw [happ]
    exact iff_of_false (not_survives_error f) (not_survives_error f)
  · rename_i x happ
    rw [happ]
    exact iff_of_true (survives_ok _) (survives_ok _)

/-- a package that has been received, by its type -/
theorem survives_receivedPackage_iff {sd : ℤ} {p : MIPPackage}
    (hsd : isSocketInTable s.iTable sd = true)
    (hfits : p.mHeader.payloadLen.toNat ≤ PAYLOAD_MAX_WORD_NUM) :
    Survives (s.handleReceivedPackage env sd p) ↔ s.SafeHeader p.mHeader := by
  obtain ⟨i, _, hi, _⟩ := interfaceForSocket_of_mem hsd
  rw [SafeHeader, and_iff_right hfits]
  unfold handleReceivedPackage
  rw [hi]
  dsimp only
  by_cases h0 : p.mHeader.tra = 0
  · rw [if_pos h0, survives_arpResponse_iff]
    simp [h0]
  · rw [if_neg h0]
    by_cases h1 : p.mHeader.tra = 1
    · rw [if_pos h1, survives_arpRequest_iff]
      simp [h1]
    · rw [if_neg h1]
      refine iff_of_true ?_ ⟨fun h => absurd h h0, fun h => absurd h (not_or.mpr ⟨h0, h1⟩)⟩
      split
      · exact survives_ok _
      · split
        · exact survives_transport hfits
        · exact survives_ok _

/-- **A frame is survived by what its header announces.** -/
theorem survives_rawFrame_iff {sd : ℤ} (hsd : isSocketInTable s.iTable sd = true)
    (frame : List UInt8) :
    Survives (s.handleRawSocketFrame env sd frame) ↔ s.SafeHeader (receivedHeader frame) := by
  cases hp : receivePackage env.behind frame with
  | error f =>
    -- the announced payload is longer than the message buffer
    have hlong : ¬ (receivedHeader frame).payloadLen.toNat ≤ PAYLOAD_MAX_WORD_NUM := by
      rw [← receivePackage_isOk_iff env.behind frame, hp]
      exact fun h => nomatch h.choose_spec
    rw [handleRawSocketFrame, hp]
    exact iff_of_false (not_survives_error f) fun h => hlong h.1
  | ok p =>
    obtain ⟨_, hheader, hfits⟩ := receivePackage_inv hp
    rw [← hheader] at hfits ⊢
    rw [handleRawSocketFrame_of_receive hp]
    exact survives_receivedPackage_iff hsd hfits

theorem survives_broadcastRouteTable_iff {tablePackage : MIPRouteTablePackage} :
    Survives (s.broadcastRouteTable env tablePackage) ↔ (s.iTable ≠ [] →
      tablePackage.numEntries.toNat ≤ MIP_TABLE_PACKAGE_ENTRIES_MAX_SIZE) := by
  rw [← or_iff_not_imp_left, broadcastRouteTable]
  split
  · exact iff_of_true (survives_ok _) ‹_›
  · exact iff_of_false (not_survives_error _) ‹_›

theorem SocketsKnown.survives_forwardData_iff (hk : s.SocketsKnown) {nextHop : MIPAddress} :
    Survives (s.handleForwardData nextHop) ↔ s.Answerable nextHop := by
  unfold handleForwardData Answerable
  by_cases h255 : nextHop = 255
  · have hfound : forwardFound nextHop = false := by simp [forwardFound, h255]
    rw [hfound, pop]
    cases hrecv : s.forwardQueue.recv with
    | none =>
      have hempty := (Queue.recv_eq_none_iff _).mp hrecv
      simp [hempty]
    | some x =>
      have hne : s.forwardQueue ≠ [] := fun h => by
        rw [(Queue.recv_eq_none_iff _).mpr h] at hrecv
        cases hrecv
      simp [h255, hne]
  · have hfound : forwardFound nextHop = true := by simp [forwardFound, h255]
    rw [hfound, if_pos rfl]
    rcases hk.handleForwardResponse nextHop with ⟨hpos, heq⟩ | ⟨hempty, _, heq⟩ |
      ⟨entry, q, i, e, hr, hpos, _, _, _, heq⟩
    · rw [heq]
      simp [h255, hpos]
    · rw [heq]
      simp [hempty]
    · have hne : s.forwardQueue ≠ [] := fun h => by
        rw [(Queue.recv_eq_none_iff _).mpr h] at hr
        cases hr
      rw [heq]
      simp [hne, hpos]

theorem SocketsKnown.survives_applicationData_iff (hk : s.SocketsKnown) {available : List UInt8} :
    Survives (s.handleApplicationData env available) ↔ WellSized available := by
  unfold handleApplicationData WellSized
  dsimp only
  have hsize : SIZEOF_MIPDMESSAGE = 16 := rfl
  split
  · rename_i h0
    exact iff_of_true (survives_ok _) fun h => by omega
  · split
    · rename_i hlt
      exact iff_of_true (survives_ok _) fun h => by omega
    · rename_i hge
      have hlen : SIZEOF_MIPDMESSAGE ≤ (available.take MAX_MIPMESSAGE_DATA_SIZE).length := by omega
      rw [← MIPDMessage.deserialize_isSome]
      split
      · rename_i hnone
        rw [hnone]
        exact iff_of_false (by simp) fun h => nomatch h hlen
      · rename_i m hsome
        rw [hsome]
        refine iff_of_true ?_ fun _ => rfl
        rcases hk.handleDomainSocketRequest m with ⟨_, heq⟩ | ⟨i, e, _, _, _, heq⟩
        · rw [heq, createQueueable_eq]
          exact survives_ok _
        · rw [heq]
          exact survives_ok _

/-- **An event is survived if and only if it is safe.** -/
theorem SocketsKnown.survives_iff (hk : s.SocketsKnown) (env : Env) (ev : Event) :
    Survives (s.handleEvent env ev) ↔ s.Safe ev := by
  cases ev with
  | poll => exact iff_of_true (survives_ok _) trivial
  | appConnect fd => exact iff_of_true (survives_ok _) trivial
  | routeConnect fd => exact iff_of_true (survives_ok _) trivial
  | forwardConnect fd => exact iff_of_true (survives_ok _) trivial
  | stdin => exact iff_of_true (survives_ok _) trivial
  | routeData tablePackage =>
    by_cases hr : s.routeSocket = -1
    · refine iff_of_true (by simp [handleEvent, hr]) ?_
      cases tablePackage with
      | none => trivial
      | some p => exact fun h => absurd hr h
    · cases tablePackage with
      | none => exact iff_of_true (by simp [handleEvent, hr]) trivial
      | some p =>
        simp only [handleEvent, hr, ↓reduceIte, survives_broadcastRouteTable_iff]
        exact ⟨fun h _ => h, fun h => h hr⟩
  | forwardData forwardResponse =>
    by_cases hf : s.forwardSocket = -1
    · refine iff_of_true (by simp [handleEvent, hf]) ?_
      cases forwardResponse with
      | none => trivial
      | some nextHop => exact fun h => absurd hf h
    · cases forwardResponse with
      | none => exact iff_of_true (by simp [handleEvent, hf]) trivial
      | some nextHop =>
        simp only [handleEvent, hf, ↓reduceIte, hk.survives_forwardData_iff]
        exact ⟨fun h _ => h, fun h => h hf⟩
  | rawFrame sd frame =>
    rw [handleEvent]
    split
    · rename_i hsd
      rw [survives_rawFrame_iff hsd]
      exact ⟨fun h _ => h, fun h => h hsd⟩
    · rename_i hsd
      exact iff_of_true (survives_ok _) fun h => absurd h hsd
  | appData available =>
    rw [handleEvent]
    split
    · rename_i happ
      exact iff_of_true (survives_ok _) fun h => absurd happ h
    · rename_i happ
      rw [hk.survives_applicationData_iff]
      exact ⟨fun h _ => h, fun h => h happ⟩

theorem wellSized_serialize (m : MIPDMessage) : WellSized m.serialize := by
  intro _
  have hhead : (m.serialize.take MAX_MIPMESSAGE_DATA_SIZE).take 3 = m.serialize.take 3 := by
    rw [List.take_take]
    rfl
  obtain ⟨m', hm', _⟩ := m.deserialize_prefix _ hhead
  rw [← MIPDMessage.deserialize_isSome, hm']
  rfl

end MIPDServer

/-! ## runs -/

def SafeStep : Except Fault MIPDServer → Env × Event → Prop
  | .ok s, x => s.Safe x.2
  | .error _, _ => True

/-- **A run of the daemon survives if and only if every event is safe in the state in which it
arrives.** -/
theorem survives_run_iff (table : InterfaceTable) (now : ℤ)
    {tr : List ((Env × Event) × Except Fault MIPDServer)}
    (hr : Run ServerStep (.ok (MIPDServer.start table now)) tr) :
    (∀ x ∈ tr, Survives x.2) ↔ Meets SafeStep (.ok (MIPDServer.start table now)) tr := by
  refine Run.meets_iff (I := fun r => ∀ s, r = .ok s → s.SocketsKnown) (P := Survives) ?_ ?_ hr
    (fun s hs => Except.ok.inj hs ▸ MIPDServer.socketsKnown_start table now) (survives_ok _)
  · intro r x r' hI _ _ hstep s' hs'
    obtain ⟨env, ev⟩ := x
    obtain ⟨s, rfl, rfl⟩ := hstep
    obtain ⟨y, hev, rfl⟩ := map_eq_ok_iff.mp hs'
    exact ((hI s rfl).event hev).2
  · intro r x r' hI _ hstep
    obtain ⟨env, ev⟩ := x
    obtain ⟨s, rfl, rfl⟩ := hstep
    rw [survives_map_iff]
    exact (hI s rfl).survives_iff env ev

/-- a MIP-ARP response from the address 20 -/
theorem survives_run_arp_response :
    Survives (((MIPDServer.start oneInterface 0).handleEvent quietEnv
      (.rawFrame 3 (frameOf (arpResponse 20)))).map Prod.fst) := by
  have hstep : ServerStep (.ok (MIPDServer.start oneInterface 0))
      (quietEnv, .rawFrame 3 (frameOf (arpResponse 20)))
      (((MIPDServer.start oneInterface 0).handleEvent quietEnv
        (.rawFrame 3 (frameOf (arpResponse 20)))).map Prod.fst) := ⟨_, rfl, rfl⟩
  have hsafe : SafeStep (.ok (MIPDServer.start oneInterface 0))
      (quietEnv, .rawFrame 3 (frameOf (arpResponse 20))) := by
    intro _
    rw [frameOf, receivedHeader_sendto]
    exact ⟨by decide, fun _ => by decide, fun _ => Or.inr (Or.inr (by decide))⟩
  exact (survives_run_iff oneInterface 0 (Run.cons hstep (Run.nil _))).mpr ⟨hsafe, trivial⟩ _
    (List.mem_singleton.mpr rfl)

/-- **One frame ends the daemon**: a MIP-ARP response with source address 255. -/
theorem errorExit_of_arp_response : ∃ tr,
    Run ServerStep (.ok (MIPDServer.start oneInterface 0)) tr ∧
      ∃ x ∈ tr, x.2 = .error .errorExit := by
  have hev : (MIPDServer.start oneInterface 0).handleEvent quietEnv
      (.rawFrame 3 (frameOf (arpResponse 255))) = .error .errorExit := by
    rw [MIPDServer.handleEvent_of_receive rfl (receivePackage_frameOf _ rfl)]
    rfl
  refine ⟨[((quietEnv, Event.rawFrame 3 (frameOf (arpResponse 255))), .error .errorExit)],
    Run.cons ⟨_, rfl, ?_⟩ (Run.nil _), _, List.mem_singleton.mpr rfl, rfl⟩
  rw [hev]
  rfl

end MipStack
