import MipStack.Mipd.Forwarding
import MipStack.Library.Keyed
import MipStack.Library.Reach

/-!
# The main loop of mipd (`MIPDServer_run`)

* `Event`              what the loop reacts to: one branch of its chain of tests, with the data read;
* `handleEvent`        one pass through the loop body;
* `ServerStep`         the same as a step on `Except Fault MIPDServer`, a fault being final;
* `SocketsKnown`       the invariant of the cache: every socket in it is in the interface table;
* `waiting`            the queued packages, oldest first; `Handled.waiting`, `.waiting_of_response`;
* `SocketsKnown.handleForwardResponse`, `SocketsKnown.handleDomainSocketRequest`   one lemma for each
                       handler that looks up a neighbour;
* `Dispatch`, `dispatch`   the handler that an event gets to;
* `FrameOutcome`, `AppOutcome`, `ResponseOutcome`   what the three large handlers do;
* `Handled`, `handled`   **what each event does to packages**: the inversion lemma from
                       which the invariants of the server follow.

Events of a descriptor that is no longer the connected one fall through the tests.  The kernel does
not hand out a descriptor that is open.  `stop` on stdin ends the loop, and with it the run.
-/

namespace MipStack
open Library

inductive Event
  | poll
  | appConnect (fd : ℕ)
  | routeConnect (fd : ℕ)
  | forwardConnect (fd : ℕ)
  /-- a route table from routerd, `none` when it has disconnected -/
  | routeData (tablePackage : Option MIPRouteTablePackage)
  /-- a response from routerd, `none` when it has disconnected -/
  | forwardData (forwardResponse : Option MIPAddress)
  /-- the bytes of a frame that waits on a raw socket -/
  | rawFrame (sd : ℤ) (frame : List UInt8)
  /-- the bytes that wait on the application socket, none when it has been closed -/
  | appData (available : List UInt8)
  /-- a line other than `stop` -/
  | stdin

/-- the descriptor of a frame and the package that is received -/
def Event.package (env : Env) : Event → Option (ℤ × MIPPackage)
  | .rawFrame sd frame => (receivePackage env.behind frame).toOption.map fun p => (sd, p)
  | _ => none

theorem Event.package_rawFrame {env : Env} {frame : List UInt8} {p : MIPPackage}
    (h : receivePackage env.behind frame = .ok p) (sd : ℤ) :
    (Event.rawFrame sd frame).package env = some (sd, p) := by
  rw [package, h]
  rfl

theorem Event.package_eq_some {env : Env} {ev : Event} {sd : ℤ} {p : MIPPackage}
    (h : ev.package env = some (sd, p)) :
    ∃ frame, ev = .rawFrame sd frame ∧ receivePackage env.behind frame = .ok p := by
  cases ev with
  | rawFrame sd' frame =>
    rw [package] at h
    cases hp : receivePackage env.behind frame with
    | error f =>
      rw [hp] at h
      cases h
    | ok q =>
      rw [hp] at h
      obtain ⟨rfl, rfl⟩ := Prod.mk.inj (Option.some.inj h)
      exact ⟨frame, rfl, hp⟩
  | _ => cases h

namespace MIPDServer

def handleForwardData (s : MIPDServer) (forwardResponse : MIPAddress) :
    Except Fault (MIPDServer × List Effect) :=
  if forwardFound forwardResponse then s.handleForwardResponse forwardResponse
  else match s.pop with
    | none => .error .errorExit
    | some (_, s') => .ok (s', [])

def handleEvent (env : Env) (s : MIPDServer) : Event → Except Fault (MIPDServer × List Effect)
  | .poll => .ok (s.updateArpCache env)
  | .appConnect fd => .ok ({ s with appSocket := fd }, [])
  | .routeConnect fd => .ok ({ s with routeSocket := fd }, [])
  | .forwardConnect fd => .ok ({ s with forwardSocket := fd }, [])
  | .routeData tablePackage =>
    if s.routeSocket = -1 then .ok (s, [])
    else match tablePackage with
      | none => .ok ({ s with routeSocket := -1 }, [])
      | some p => s.broadcastRouteTable env p
  | .forwardData forwardResponse =>
    if s.forwardSocket = -1 then .ok (s, [])
    else match forwardResponse with
      | none => .ok ({ s with forwardSocket := -1 }, [])
      | some nextHop => s.handleForwardData nextHop
  | .rawFrame sd frame =>
    if isSocketInTable s.iTable sd then s.handleRawSocketFrame env sd frame else .ok (s, [])
  | .appData available =>
    if s.appSocket = -1 then .ok (s, []) else s.handleApplicationData env available
  | .stdin => .ok (s, [])

/-! ## the neighbours in the cache -/

/-- every socket in the cache belongs to the table -/
def SocketsKnown (s : MIPDServer) : Prop :=
  ∀ e ∈ s.cache.entries, isSocketInTable s.iTable e.srcSocket = true

variable {s : MIPDServer} {a : MIPAddress}

theorem SocketsKnown.ne (h : s.SocketsKnown) {e : MipArpCacheEntry} (he : e ∈ s.cache.entries) :
    e.srcSocket ≠ -1 := by
  obtain ⟨i, _, _, hi⟩ := interfaceForSocket_of_mem (h e he)
  omega

theorem SocketsKnown.sub {t : MIPDServer} (h : s.SocketsKnown) (ht : t.iTable = s.iTable)
    (hs : ∀ e ∈ t.cache.entries, e ∈ s.cache.entries) : t.SocketsKnown := fun e he => by
  rw [ht]
  exact h e (hs e he)

theorem socket_of_none (h : s.cache.queryMipAddressPos a = none) :
    s.cache.queryMipAddressSrcSocket a = -1 := MipArpCache.queryMipAddressSrcSocket_of_none h

/-- **A neighbour in the cache is found**, with an interface and a cache entry. -/
theorem SocketsKnown.neighbor (h : s.SocketsKnown) {pos : ℕ}
    (hpos : s.cache.queryMipAddressPos a = some pos) :
    s.cache.queryMipAddressSrcSocket a ≠ -1 ∧
      ∃ i e, interfaceForSocket s.iTable (s.cache.queryMipAddressSrcSocket a) = some i ∧
        e ∈ s.cache.entries ∧ e.mipAddress = a ∧ s.neighbor a = .ok (i, e) := by
  obtain ⟨e, he, hget, ha⟩ := MipArpCache.getElem?_queryMipAddressPos hpos
  obtain ⟨e', he', _, hsock⟩ := MipArpCache.queryMipAddressSrcSocket_of_some hpos
  obtain ⟨i, _, hint, _⟩ := interfaceForSocket_of_mem (h e' he')
  refine ⟨hsock ▸ h.ne he', i, e, hsock ▸ hint, he, ha, ?_⟩
  rw [MIPDServer.neighbor, hpos, Option.bind_some, hget, hsock]
  dsimp only
  rw [hint]

/-- the record and the cache entry of a neighbour -/
theorem neighbor_inv {i : InterfaceRecord} {e : MipArpCacheEntry} (h : s.neighbor a = .ok (i, e)) :
    interfaceForSocket s.iTable (s.cache.queryMipAddressSrcSocket a) = some i ∧
      lookup MipArpCacheEntry.mipAddress a s.cache.entries = some e := by
  have hfind : ((s.cache.queryMipAddressPos a).bind fun pos => s.cache.entries[pos]?)
      = lookup MipArpCacheEntry.mipAddress a s.cache.entries :=
    List.find?_eq_bind_findIdx?_getElem?.symm
  unfold neighbor at h
  rw [hfind] at h
  split at h
  · cases h
  · rename_i e' he
    split at h
    · cases h
    · rename_i i' hi
      obtain ⟨rfl, rfl⟩ := Prod.mk.inj (Except.ok.inj h)
      exact ⟨hi, he⟩

/-! ## one lemma for each handler -/

/-- a frame that is handled has been received -/
theorem handleRawSocketFrame_inv {env : Env} {sd : ℤ} {frame : List UInt8} {s' : MIPDServer}
    {effects : List Effect} (h : s.handleRawSocketFrame env sd frame = .ok (s', effects)) :
    ∃ p, receivePackage env.behind frame = .ok p ∧
      s.handleReceivedPackage env sd p = .ok (s', effects) := by
  unfold handleRawSocketFrame at h
  cases hp : receivePackage env.behind frame with
  | error f =>
    rw [hp] at h
    cases h
  | ok p =>
    rw [hp] at h
    exact ⟨p, rfl, h⟩

theorem handleRawSocketFrame_of_receive {env : Env} {frame : List UInt8} {p : MIPPackage}
    (h : receivePackage env.behind frame = .ok p) (sd : ℤ) :
    s.handleRawSocketFrame env sd frame = s.handleReceivedPackage env sd p := by
  unfold handleRawSocketFrame
  rw [h]

/-- a frame on a socket of the table, when its bytes are received -/
theorem handleEvent_of_receive {env : Env} {sd : ℤ} {frame : List UInt8} {p : MIPPackage}
    (hsd : isSocketInTable s.iTable sd = true) (h : receivePackage env.behind frame = .ok p) :
    s.handleEvent env (.rawFrame sd frame) = s.handleReceivedPackage env sd p := by
  rw [handleEvent, if_pos hsd, handleRawSocketFrame_of_receive h]

theorem requestForwarding_eq (env : Env) (s : MIPDServer) (d : MIPAddress) (p : MIPPackage) :
    (s.writes env = true ∧ s.requestForwarding env d p
      = (s.push (env.clock 0) p, [.writeForward s.forwardSocket d p])) ∨
    s.requestForwarding env d p = (s, []) := by
  unfold requestForwarding
  split
  · exact Or.inl ⟨‹_›, rfl⟩
  · exact Or.inr rfl

/-- a response for a queued package sends it to the neighbour that is found -/
theorem handleForwardResponse_of_recv {entry : ForwardQueueEntry} {q : Queue ForwardQueueEntry}
    (hr : s.forwardQueue.recv = some (entry, q)) (nextHop : MIPAddress) :
    s.handleForwardResponse nextHop =
      if s.cache.queryMipAddressSrcSocket nextHop = -1 then .error .errorExit
      else match s.neighbor nextHop with
        | .error f => .error f
        | .ok (i, e) => .ok ({ s with forwardQueue := q },
            [.sendRaw (s.cache.queryMipAddressSrcSocket nextHop) (load i e entry.package)]) := by
  have hpop : s.pop = some (entry.package, { s with forwardQueue := q }) := by
    rw [pop, hr]
    rfl
  have hn : ({ s with forwardQueue := q } : MIPDServer).neighbor nextHop = s.neighbor nextHop := rfl
  rw [handleForwardResponse, hpop]
  dsimp only [Option.map_some, Option.getD_some]
  by_cases hsock : s.cache.queryMipAddressSrcSocket nextHop = -1
  · rw [loadForwardPackage, if_pos hsock, if_pos hsock]
  · rw [loadForwardPackage, if_neg hsock, if_neg hsock, hn]
    cases s.neighbor nextHop with
    | error f => rfl
    | ok x =>
      dsimp only
      rw [if_neg hsock]

/-- a response that finds no package goes wrong -/
theorem handleForwardResponse_of_empty (hq : s.forwardQueue = []) (nextHop : MIPAddress) :
    s.handleForwardResponse nextHop =
      if s.cache.queryMipAddressSrcSocket nextHop = -1 then .error .errorExit
      else match s.neighbor nextHop with
        | .error f => .error f
        | .ok _ => .error .nullDereference := by
  have hpop : s.pop = none := by
    rw [pop, hq]
    rfl
  rw [handleForwardResponse, hpop]
  dsimp only [Option.map_none, Option.getD_none]
  by_cases hsock : s.cache.queryMipAddressSrcSocket nextHop = -1
  · rw [loadForwardPackage, if_pos hsock, if_pos hsock]
  · rw [loadForwardPackage, if_neg hsock, if_neg hsock]
    cases s.neighbor nextHop with
    | error f => rfl
    | ok x => rfl

/-- a response without a package, or for a next hop that is not in the cache, goes wrong -/
theorem SocketsKnown.handleForwardResponse (h : s.SocketsKnown) (nextHop : MIPAddress) :
    (s.cache.queryMipAddressPos nextHop = none ∧
      s.handleForwardResponse nextHop = .error .errorExit) ∨
    (s.forwardQueue = [] ∧ (s.cache.queryMipAddressPos nextHop).isSome ∧
      s.handleForwardResponse nextHop = .error .nullDereference) ∨
    ∃ entry q i e, s.forwardQueue.recv = some (entry, q) ∧
      (s.cache.queryMipAddressPos nextHop).isSome ∧
      interfaceForSocket s.iTable (s.cache.queryMipAddressSrcSocket nextHop) = some i ∧
      e ∈ s.cache.entries ∧ e.mipAddress = nextHop ∧
      s.handleForwardResponse nextHop = .ok ({ s with forwardQueue := q },
        [.sendRaw (s.cache.queryMipAddressSrcSocket nextHop) (load i e entry.package)]) := by
  cases hpos : s.cache.queryMipAddressPos nextHop with
  | none =>
    refine Or.inl ⟨rfl, ?_⟩
    have hsock := socket_of_none hpos
    cases hrecv : s.forwardQueue.recv with
    | none => rw [handleForwardResponse_of_empty ((Queue.recv_eq_none_iff _).mp hrecv), if_pos hsock]
    | some x => rw [handleForwardResponse_of_recv hrecv, if_pos hsock]
  | some pos =>
    obtain ⟨hsock, i, e, hi, he, ha, hn⟩ := h.neighbor hpos
    refine Or.inr ?_
    cases hrecv : s.forwardQueue.recv with
    | none =>
      have hempty := (Queue.recv_eq_none_iff _).mp hrecv
      refine Or.inl ⟨hempty, rfl, ?_⟩
      rw [handleForwardResponse_of_empty hempty, if_neg hsock, hn]
    | some x =>
      refine Or.inr ⟨x.1, x.2, i, e, rfl, rfl, hi, he, ha, ?_⟩
      rw [handleForwardResponse_of_recv hrecv, if_neg hsock, hn]

/-- the neighbour that is found, and the frame it is sent -/
theorem handleDomainSocketRequest_eq (s : MIPDServer) (m : MIPDMessage) :
    s.handleDomainSocketRequest m =
      if s.cache.queryMipAddressSrcSocket m.mipAddress = -1 then .ok none
      else match s.neighbor m.mipAddress with
        | .error f => .error f
        | .ok (i, e) => .ok (some [.sendRaw (s.cache.queryMipAddressSrcSocket m.mipAddress)
            (MIPPackage.transport (createEthernetFrame e.dstInterface i.soName) i.mipAddress
              m.mipAddress m.data)]) := by
  unfold handleDomainSocketRequest
  dsimp only
  split
  · rfl
  · cases s.neighbor m.mipAddress with
    | error f => rfl
    | ok x =>
      dsimp only
      rw [MIPPackage.create_transport _ _ _ m.size]

theorem SocketsKnown.handleDomainSocketRequest (h : s.SocketsKnown) (m : MIPDMessage) :
    (s.cache.queryMipAddressPos m.mipAddress = none ∧
      s.handleDomainSocketRequest m = .ok none) ∨
    ∃ i e, interfaceForSocket s.iTable (s.cache.queryMipAddressSrcSocket m.mipAddress) = some i ∧
      e ∈ s.cache.entries ∧ e.mipAddress = m.mipAddress ∧
      s.handleDomainSocketRequest m = .ok (some
        [.sendRaw (s.cache.queryMipAddressSrcSocket m.mipAddress)
          (MIPPackage.transport (createEthernetFrame e.dstInterface i.soName) i.mipAddress
            m.mipAddress m.data)]) := by
  rw [handleDomainSocketRequest_eq]
  cases hpos : s.cache.queryMipAddressPos m.mipAddress with
  | none => exact Or.inl ⟨rfl, if_pos (socket_of_none hpos)⟩
  | some pos =>
    obtain ⟨hsock, i, e, hi, he, ha, hn⟩ := h.neighbor hpos
    refine Or.inr ⟨i, e, hi, he, ha, ?_⟩
    rw [if_neg hsock, hn]

theorem createQueueable_eq (env : Env) (m : MIPDMessage) :
    createQueueable env m = some (MIPPackage.transport
      (createTransportEthernetFrame env.layout .defaultMac .defaultMac) 255 m.mipAddress m.data) :=
  MIPPackage.createRaw_eq_some _ _ _ _ _ (by decide) m.size

end MIPDServer

/-! ## the handler of an event -/

/-- an event that gets to no handler -/
structure Inert (s : MIPDServer) (ev : Event) : Prop where
  poll : ev ≠ .poll
  frame : ∀ sd frame, ev = .rawFrame sd frame → isSocketInTable s.iTable sd ≠ true
  table : ∀ p, ev = .routeData (some p) → s.routeSocket = -1
  response : ∀ nextHop, ev = .forwardData (some nextHop) → s.forwardSocket = -1

/-- **The handler that an event gets to**, if it is not inert; then at most the sockets change. -/
inductive Dispatch (env : Env) (s : MIPDServer) : Event → MIPDServer → List Effect → Prop
  | inert {ev : Event} {t : MIPDServer} (hev : Inert s ev)
      (hq : t.forwardQueue = s.forwardQueue) (ht : t.iTable = s.iTable) (hc : t.cache = s.cache) :
      Dispatch env s ev t []
  | poll : Dispatch env s .poll (s.updateArpCache env).1 (s.updateArpCache env).2
  | table {tablePackage : MIPRouteTablePackage} {s' : MIPDServer} {effects : List Effect}
      (hr : s.routeSocket ≠ -1)
      (h : s.broadcastRouteTable env tablePackage = .ok (s', effects)) :
      Dispatch env s (.routeData (some tablePackage)) s' effects
  | response {nextHop : MIPAddress} {s' : MIPDServer} {effects : List Effect}
      (hf : s.forwardSocket ≠ -1) (h : s.handleForwardData nextHop = .ok (s', effects)) :
      Dispatch env s (.forwardData (some nextHop)) s' effects
  | frame {sd : ℤ} {frame : List UInt8} {p : MIPPackage} {s' : MIPDServer} {effects : List Effect}
      (hsd : isSocketInTable s.iTable sd = true) (hp : receivePackage env.behind frame = .ok p)
      (h : s.handleReceivedPackage env sd p = .ok (s', effects)) :
      Dispatch env s (.rawFrame sd frame) s' effects
  | app {available : List UInt8} {s' : MIPDServer} {effects : List Effect}
      (h : s.handleApplicationData env available = .ok (s', effects)) :
      Dispatch env s (.appData available) s' effects

namespace MIPDServer
variable {env : Env} {s s' : MIPDServer} {ev : Event} {effects : List Effect}

theorem Dispatch.idle {t : MIPDServer}
    (h : (.ok (t, []) : Except Fault (MIPDServer × List Effect)) = .ok (s', effects))
    (hev : Inert s ev) (hq : t.forwardQueue = s.forwardQueue) (ht : t.iTable = s.iTable)
    (hc : t.cache = s.cache) : Dispatch env s ev s' effects := by
  obtain ⟨rfl, rfl⟩ := Prod.mk.inj (Except.ok.inj h)
  exact Dispatch.inert hev hq ht hc

/-- **Every event gets to its handler.** -/
theorem dispatch (h : s.handleEvent env ev = .ok (s', effects)) : Dispatch env s ev s' effects := by
  cases ev with
  | poll =>
    obtain ⟨rfl, rfl⟩ := Prod.mk.inj (Except.ok.inj h)
    exact Dispatch.poll
  | appConnect fd => exact Dispatch.idle h ⟨nofun, nofun, nofun, nofun⟩ rfl rfl rfl
  | routeConnect fd => exact Dispatch.idle h ⟨nofun, nofun, nofun, nofun⟩ rfl rfl rfl
  | forwardConnect fd => exact Dispatch.idle h ⟨nofun, nofun, nofun, nofun⟩ rfl rfl rfl
  | routeData tablePackage =>
    by_cases hr : s.routeSocket = -1
    · simp only [handleEvent, hr, ↓reduceIte] at h
      exact Dispatch.idle h ⟨nofun, nofun, fun _ _ => hr, nofun⟩ rfl rfl rfl
    · simp only [handleEvent, hr, ↓reduceIte] at h
      cases tablePackage with
      | none => exact Dispatch.idle h ⟨nofun, nofun, nofun, nofun⟩ rfl rfl rfl
      | some p => exact Dispatch.table hr h
  | forwardData forwardResponse =>
    by_cases hf : s.forwardSocket = -1
    · simp only [handleEvent, hf, ↓reduceIte] at h
      exact Dispatch.idle h ⟨nofun, nofun, nofun, fun _ _ => hf⟩ rfl rfl rfl
    · simp only [handleEvent, hf, ↓reduceIte] at h
      cases forwardResponse with
      | none => exact Dispatch.idle h ⟨nofun, nofun, nofun, nofun⟩ rfl rfl rfl
      | some nextHop => exact Dispatch.response hf h
  | rawFrame sd frame =>
    rw [handleEvent] at h
    split at h
    · rename_i hsd
      obtain ⟨p, hp, h⟩ := handleRawSocketFrame_inv h
      exact Dispatch.frame hsd hp h
    · rename_i hsd
      refine Dispatch.idle h ⟨nofun, fun sd' frame' heq => ?_, nofun, nofun⟩ rfl rfl rfl
      rw [← (Event.rawFrame.inj heq).1]
      exact hsd
  | appData available =>
    rw [handleEvent] at h
    split at h
    · exact Dispatch.idle h ⟨nofun, nofun, nofun, nofun⟩ rfl rfl rfl
    · exact Dispatch.app h
  | stdin => exact Dispatch.idle h ⟨nofun, nofun, nofun, nofun⟩ rfl rfl rfl

end MIPDServer

/-- **What becomes of a received package**, by the type in its MIP header. -/
inductive FrameOutcome (env : Env) (s : MIPDServer) (sd : ℤ) (p : MIPPackage) :
    MIPDServer → List Effect → Prop
  | learned {i : InterfaceRecord} {rc : ℤ} {cache : MipArpCache} (htra : p.mHeader.tra = 0)
      (hi : interfaceForSocket s.iTable sd = some i) (hrc : rc ≠ -1)
      (happ : s.cache.appendToCache (env.clock 0) sd p.mHeader.srcAddr i.soName = .ok (rc, cache)) :
      FrameOutcome env s sd p { s with cache := cache } []
  | answered {i : InterfaceRecord} {rc : ℤ} {cache : MipArpCache} {response : MIPPackage}
      (htra : p.mHeader.tra = 1) (hi : interfaceForSocket s.iTable sd = some i)
      (hfd : i.rawSocket = sd)
      (hresponse : MIPPackage.createRaw env.layout i.mipAddress
        (.interface (getInterfacePosForSocket s.iTable sd)) p.mHeader.srcAddr .receivedSource [] 0
          = some response)
      (happ : s.cache.appendToCache (env.clock 0) sd p.mHeader.srcAddr i.soName = .ok (rc, cache)) :
      FrameOutcome env s sd p { s with cache := cache } [.sendRaw i.rawSocket response]
  | table (htra : p.mHeader.tra = 2) : FrameOutcome env s sd p s (s.recvRouteTableBroadcast p)
  | transport {s' : MIPDServer} {effects : List Effect} (htra : p.mHeader.tra = 3)
      (h : s.handleTransport env p = .ok (s', effects)) : FrameOutcome env s sd p s' effects
  | dropped (hresponse : p.mHeader.tra ≠ 0) (hrequest : p.mHeader.tra ≠ 1) :
      FrameOutcome env s sd p s []

/-- **Every package received on a socket of the table has one of these outcomes.** -/
theorem MIPDServer.frameOutcome {env : Env} {s s' : MIPDServer} {effects : List Effect} {sd : ℤ}
    {p : MIPPackage} (hsd : isSocketInTable s.iTable sd = true)
    (h : s.handleReceivedPackage env sd p = .ok (s', effects)) :
    FrameOutcome env s sd p s' effects := by
  obtain ⟨i, _, hi, hfd⟩ := interfaceForSocket_of_mem hsd
  unfold handleReceivedPackage at h
  rw [hi] at h
  dsimp only at h
  split at h
  · rename_i htra
    unfold handleMipArpResponse at h
    split at h
    · cases h
    · rename_i rc cache happ
      split at h
      · cases h
      · rename_i hrc
        obtain ⟨rfl, rfl⟩ := Prod.mk.inj (Except.ok.inj h)
        exact FrameOutcome.learned htra hi hrc happ
  · rename_i hresponse
    split at h
    · rename_i htra
      unfold handleMipArpRequest at h
      split at h
      · cases h
      · rename_i response hcreate
        split at h
        · cases h
        · rename_i rc cache happ
          obtain ⟨rfl, rfl⟩ := Prod.mk.inj (Except.ok.inj h)
          rw [hfd] at happ
          exact FrameOutcome.answered htra hi hfd hcreate happ
    · rename_i hrequest
      split at h
      · rename_i htra
        obtain ⟨rfl, rfl⟩ := Prod.mk.inj (Except.ok.inj h)
        exact FrameOutcome.table htra
      · split at h
        · rename_i htra
          exact FrameOutcome.transport htra h
        · obtain ⟨rfl, rfl⟩ := Prod.mk.inj (Except.ok.inj h)
          exact FrameOutcome.dropped hresponse hrequest

/-- **What becomes of the bytes of an application.** -/
inductive AppOutcome (env : Env) (s : MIPDServer) (available : List UInt8) :
    MIPDServer → List Effect → Prop
  | closed (hlen : (available.take MAX_MIPMESSAGE_DATA_SIZE).length = 0) :
      AppOutcome env s available { s with appSocket := -1 } []
  | short (hlen : (available.take MAX_MIPMESSAGE_DATA_SIZE).length < SIZEOF_MIPDMESSAGE) :
      AppOutcome env s available s []
  | direct {m : MIPDMessage} {i : InterfaceRecord} {e : MipArpCacheEntry}
      (hlen : SIZEOF_MIPDMESSAGE ≤ (available.take MAX_MIPMESSAGE_DATA_SIZE).length)
      (hd : MIPDMessage.deserialize (available.take MAX_MIPMESSAGE_DATA_SIZE) = some m)
      (hn : s.neighbor m.mipAddress = .ok (i, e)) :
      AppOutcome env s available s
        [.sendRaw (s.cache.queryMipAddressSrcSocket m.mipAddress) (MIPPackage.transport
          (createEthernetFrame e.dstInterface i.soName) i.mipAddress m.mipAddress m.data)]
  | routed {m : MIPDMessage} {p : MIPPackage}
      (hlen : SIZEOF_MIPDMESSAGE ≤ (available.take MAX_MIPMESSAGE_DATA_SIZE).length)
      (hd : MIPDMessage.deserialize (available.take MAX_MIPMESSAGE_DATA_SIZE) = some m)
      (hp : p = MIPPackage.transport (createTransportEthernetFrame env.layout .defaultMac .defaultMac)
        255 m.mipAddress m.data) :
      AppOutcome env s available (s.requestForwarding env m.mipAddress p).1
        (s.requestForwarding env m.mipAddress p).2

theorem MIPDServer.appOutcome {env : Env} {s s' : MIPDServer} {effects : List Effect}
    {available : List UInt8} (h : s.handleApplicationData env available = .ok (s', effects)) :
    AppOutcome env s available s' effects := by
  unfold handleApplicationData at h
  dsimp only at h
  split at h
  · rename_i hlen
    obtain ⟨rfl, rfl⟩ := Prod.mk.inj (Except.ok.inj h)
    exact AppOutcome.closed hlen
  · split at h
    · rename_i hlen
      obtain ⟨rfl, rfl⟩ := Prod.mk.inj (Except.ok.inj h)
      exact AppOutcome.short hlen
    · rename_i hlen
      split at h
      · cases h
      · rename_i m hd
        rw [handleDomainSocketRequest_eq] at h
        by_cases hsock : s.cache.queryMipAddressSrcSocket m.mipAddress = -1
        · rw [if_pos hsock, createQueueable_eq] at h
          obtain ⟨rfl, rfl⟩ := Prod.mk.inj (Except.ok.inj h)
          exact AppOutcome.routed (Nat.le_of_not_lt hlen) hd rfl
        · rw [if_neg hsock] at h
          cases hn : s.neighbor m.mipAddress with
          | error f =>
            rw [hn] at h
            cases h
          | ok x =>
            rw [hn] at h
            obtain ⟨rfl, rfl⟩ := Prod.mk.inj (Except.ok.inj h)
            exact AppOutcome.direct (Nat.le_of_not_lt hlen) hd hn

/-- **What becomes of a response of routerd**, and of the oldest waiting package. -/
inductive ResponseOutcome (s : MIPDServer) (nextHop : MIPAddress) : MIPDServer → List Effect → Prop
  | sent {entry : ForwardQueueEntry} {q : Queue ForwardQueueEntry} {i : InterfaceRecord}
      {e : MipArpCacheEntry} (hr : s.forwardQueue.recv = some (entry, q))
      (hn : s.neighbor nextHop = .ok (i, e)) :
      ResponseOutcome s nextHop { s with forwardQueue := q }
        [.sendRaw (s.cache.queryMipAddressSrcSocket nextHop) (MIPDServer.load i e entry.package)]
  | notFound {entry : ForwardQueueEntry} {q : Queue ForwardQueueEntry}
      (hr : s.forwardQueue.recv = some (entry, q)) :
      ResponseOutcome s nextHop { s with forwardQueue := q } []

theorem MIPDServer.responseOutcome {s s' : MIPDServer} {effects : List Effect}
    {nextHop : MIPAddress} (h : s.handleForwardData nextHop = .ok (s', effects)) :
    ResponseOutcome s nextHop s' effects := by
  unfold handleForwardData at h
  split at h
  · cases hr : s.forwardQueue.recv with
    | none =>
      rw [handleForwardResponse_of_empty ((Queue.recv_eq_none_iff _).mp hr)] at h
      split at h
      · cases h
      · split at h <;> cases h
    | some x =>
      rw [handleForwardResponse_of_recv hr] at h
      split at h
      · cases h
      · split at h
        · cases h
        · rename_i i e hn
          obtain ⟨rfl, rfl⟩ := Prod.mk.inj (Except.ok.inj h)
          exact ResponseOutcome.sent hr hn
  · split at h
    · cases h
    · rename_i p t hpop
      obtain ⟨rfl, rfl⟩ := Prod.mk.inj (Except.ok.inj h)
      obtain ⟨x, hr, hx⟩ := Option.map_eq_some_iff.mp hpop
      obtain ⟨_, rfl⟩ := Prod.mk.inj hx
      exact ResponseOutcome.notFound hr

/-! ## what an event does to packages -/

/-- neither a transport frame nor anything for routerd's forward socket or the application -/
def Effect.IsControl : Effect → Prop
  | .sendRaw _ p => p.mHeader.tra ≠ 3
  | .writeRoute _ _ => True
  | .writeForward _ _ _ => False
  | .sendApp _ _ => False

/-- **The outcomes of an event**, with everything they do to transport packages. -/
inductive Handled (env : Env) (s : MIPDServer) : Event → MIPDServer → List Effect → Prop
  /-- nothing happens to any package, so this is no response; a new cache entry has a socket of the
  table -/
  | control {ev : Event} {s' : MIPDServer} {effects : List Effect}
      (hev : ∀ nextHop, ev = .forwardData (some nextHop) → s.forwardSocket = -1)
      (hq : s'.forwardQueue = s.forwardQueue) (ht : s'.iTable = s.iTable)
      (hc : ∀ e ∈ s'.cache.entries, e ∈ s.cache.entries ∨ isSocketInTable s.iTable e.srcSocket = true)
      (he : ∀ x ∈ effects, x.IsControl) : Handled env s ev s' effects
  | deliver {sd : ℤ} {frame : List UInt8} {p : MIPPackage} {message : MIPDMessage}
      (hp : receivePackage env.behind frame = .ok p) (htra : p.mHeader.tra = 3)
      (hown : (getInterfacePosForMipAddress s.iTable p.mHeader.dstAddr).isSome)
      (hm : MIPDMessage.create p.mHeader.srcAddr p.payloadBytes p.message = some message) :
      Handled env s (.rawFrame sd frame) s [.sendApp s.appSocket message.serialize]
  /-- a package for another host waits for its next hop -/
  | transit {sd : ℤ} {frame : List UInt8} {p : MIPPackage}
      (hp : receivePackage env.behind frame = .ok p) (htra : p.mHeader.tra = 3)
      (httl : p.mHeader.ttl ≠ 0) (hw : s.writes env = true) :
      Handled env s (.rawFrame sd frame) (s.push (env.clock 0) (MIPDServer.decrementTtl p))
        [.writeForward s.forwardSocket p.mHeader.dstAddr (MIPDServer.decrementTtl p)]
  | direct {available : List UInt8} {m : MIPDMessage} {i : InterfaceRecord} {e : MipArpCacheEntry}
      (hlen : SIZEOF_MIPDMESSAGE ≤ (available.take MAX_MIPMESSAGE_DATA_SIZE).length)
      (hd : MIPDMessage.deserialize (available.take MAX_MIPMESSAGE_DATA_SIZE) = some m)
      (hi : interfaceForSocket s.iTable (s.cache.queryMipAddressSrcSocket m.mipAddress) = some i)
      (he : e ∈ s.cache.entries) (ha : e.mipAddress = m.mipAddress) :
      Handled env s (.appData available) s
        [.sendRaw (s.cache.queryMipAddressSrcSocket m.mipAddress) (MIPPackage.transport
          (createEthernetFrame e.dstInterface i.soName) i.mipAddress m.mipAddress m.data)]
  /-- a message for another host waits for its next hop -/
  | request {available : List UInt8} {m : MIPDMessage} {eFrame : EtherFrame}
      (hlen : SIZEOF_MIPDMESSAGE ≤ (available.take MAX_MIPMESSAGE_DATA_SIZE).length)
      (hd : MIPDMessage.deserialize (available.take MAX_MIPMESSAGE_DATA_SIZE) = some m)
      (hw : s.writes env = true) :
      Handled env s (.appData available)
        (s.push (env.clock 0) (MIPPackage.transport eFrame 255 m.mipAddress m.data))
        [.writeForward s.forwardSocket m.mipAddress
          (MIPPackage.transport eFrame 255 m.mipAddress m.data)]
  | respond {nextHop : MIPAddress} {entry : ForwardQueueEntry} {q : Queue ForwardQueueEntry}
      {i : InterfaceRecord} {e : MipArpCacheEntry} (hr : s.forwardQueue.recv = some (entry, q))
      (hi : interfaceForSocket s.iTable (s.cache.queryMipAddressSrcSocket nextHop) = some i)
      (he : e ∈ s.cache.entries) (ha : e.mipAddress = nextHop) (hf : s.forwardSocket ≠ -1) :
      Handled env s (.forwardData (some nextHop)) { s with forwardQueue := q }
        [.sendRaw (s.cache.queryMipAddressSrcSocket nextHop) (MIPDServer.load i e entry.package)]
  /-- the oldest waiting package has no next hop -/
  | notFound {nextHop : MIPAddress} {entry : ForwardQueueEntry} {q : Queue ForwardQueueEntry}
      (hr : s.forwardQueue.recv = some (entry, q)) (hf : s.forwardSocket ≠ -1) :
      Handled env s (.forwardData (some nextHop)) { s with forwardQueue := q } []

namespace MIPDServer
variable {env : Env} {s s' : MIPDServer} {ev : Event} {effects : List Effect}

/-- the result `t` differs from `s` in its sockets only -/
theorem Handled.idle {t : MIPDServer}
    (h : (.ok (t, []) : Except Fault (MIPDServer × List Effect)) = .ok (s', effects))
    (hev : ∀ nextHop, ev = .forwardData (some nextHop) → s.forwardSocket = -1)
    (hq : t.forwardQueue = s.forwardQueue) (ht : t.iTable = s.iTable) (hc : t.cache = s.cache) :
    Handled env s ev s' effects := by
  obtain ⟨rfl, rfl⟩ := Prod.mk.inj (Except.ok.inj h)
  exact Handled.control hev hq ht (fun e he => Or.inl (hc ▸ he)) (by simp)

theorem tra_createRaw {layout : Layout} {srcMip dstMip : MIPAddress} {srcMac dstMac : MacObject}
    {message : List UInt8} {tra : UInt8} {p : MIPPackage}
    (h : MIPPackage.createRaw layout srcMip srcMac dstMip dstMac message tra = some p) :
    p.mHeader.tra = BitVec.ofNat 3 tra.toNat := by
  unfold MIPPackage.createRaw MIPPackage.create createPayload at h
  dsimp only at h
  split at h
  · split at h
    · split at h
      · obtain rfl := Option.some.inj h
        rfl
      · cases h
    · obtain rfl := Option.some.inj h
      rfl
  · cases h

theorem handled_updateArpCache : Handled env s .poll (s.updateArpCache env).1 (s.updateArpCache env).2 := by
  have hsub := MipArpCache.purge_sublist env.clock 0 s.cache
  have hmem : ∀ e ∈ (MipArpCache.purge env.clock 0 s.cache).2.entries,
      e ∈ s.cache.entries ∨ isSocketInTable s.iTable e.srcSocket = true :=
    fun e he => Or.inl (hsub.mem he)
  unfold updateArpCache
  dsimp only
  split
  · refine Handled.control (by simp) rfl rfl hmem fun x hx => ?_
    obtain ⟨i, _, hi⟩ := List.mem_filterMap.mp hx
    obtain ⟨p, hp, rfl⟩ := Option.map_eq_some_iff.mp hi
    rw [MIPPackage.createMipArpRequestPacket, MIPPackage.create_eq_some _ _ (by simp)] at hp
    obtain rfl := Option.some.inj hp
    show (1 : BitVec 3) ≠ 3
    decide
  · exact Handled.control (by simp) rfl rfl hmem (by simp)

theorem handled_broadcastRouteTable {tablePackage : MIPRouteTablePackage}
    (h : s.broadcastRouteTable env tablePackage = .ok (s', effects)) :
    Handled env s (.routeData (some tablePackage)) s' effects := by
  unfold broadcastRouteTable at h
  split at h
  · obtain ⟨rfl, rfl⟩ := Prod.mk.inj (Except.ok.inj h)
    refine Handled.control (by simp) rfl rfl (fun e he => Or.inl he) fun x hx => ?_
    obtain ⟨y, _, hy⟩ := List.mem_filterMap.mp hx
    obtain ⟨p, hp, rfl⟩ := Option.map_eq_some_iff.mp hy
    show p.mHeader.tra ≠ 3
    rw [tra_createRaw hp]
    decide
  · cases h

theorem mem_append_known {now sd rc : ℤ} {a : MIPAddress} {mac : MacAddress} {cache : MipArpCache}
    (hsd : isSocketInTable s.iTable sd = true)
    (h : s.cache.appendToCache now sd a mac = .ok (rc, cache)) :
    ∀ e ∈ cache.entries, e ∈ s.cache.entries ∨ isSocketInTable s.iTable e.srcSocket = true := by
  intro e he
  rcases MipArpCache.mem_appendToCache h he with hold | ⟨_, rfl⟩
  · exact Or.inl hold
  · exact Or.inr hsd

theorem handled_transport {sd : ℤ} {frame : List UInt8} {p : MIPPackage}
    (hp : receivePackage env.behind frame = .ok p) (htra : p.mHeader.tra = 3)
    (h : s.handleTransport env p = .ok (s', effects)) :
    Handled env s (.rawFrame sd frame) s' effects := by
  unfold handleTransport at h
  split at h
  · rename_i hown
    unfold handlePackageForApplication at h
    by_cases happ : s.appSocket = -1
    · rw [if_pos happ] at h
      exact Handled.idle h (by simp) rfl rfl rfl
    · rw [if_neg happ] at h
      cases hm : MIPDMessage.create p.mHeader.srcAddr p.payloadBytes p.message with
      | none => rw [hm] at h; cases h
      | some message =>
        rw [hm] at h
        obtain ⟨rfl, rfl⟩ := Prod.mk.inj (Except.ok.inj h)
        exact Handled.deliver hp htra hown hm
  · split at h
    · exact Handled.idle h (by simp) rfl rfl rfl
    · rename_i httl
      rcases s.requestForwarding_eq env p.mHeader.dstAddr (decrementTtl p) with ⟨hw, heq⟩ | heq
      · rw [heq] at h
        obtain ⟨rfl, rfl⟩ := Prod.mk.inj (Except.ok.inj h)
        exact Handled.transit hp htra httl hw
      · rw [heq] at h
        exact Handled.idle h (by simp) rfl rfl rfl

theorem handled_rawFrame {sd : ℤ} {frame : List UInt8} {p : MIPPackage}
    (hsd : isSocketInTable s.iTable sd = true) (hp : receivePackage env.behind frame = .ok p)
    (h : s.handleReceivedPackage env sd p = .ok (s', effects)) :
    Handled env s (.rawFrame sd frame) s' effects := by
  cases frameOutcome hsd h with
  | learned htra hi hrc happ =>
    exact Handled.control (by simp) rfl rfl (mem_append_known hsd happ) (by simp)
  | @answered i rc cache response htra hi hfd hresponse happ =>
    refine Handled.control (by simp) rfl rfl (mem_append_known hsd happ) fun x hx => ?_
    obtain rfl := List.mem_singleton.mp hx
    show response.mHeader.tra ≠ 3
    rw [tra_createRaw hresponse]
    decide
  | table htra =>
    refine Handled.control (by simp) rfl rfl (fun e he => Or.inl he) fun x hx => ?_
    unfold recvRouteTableBroadcast at hx
    split at hx
    · cases hx
    · obtain rfl := List.mem_singleton.mp hx
      trivial
  | transport htra h => exact handled_transport hp htra h
  | dropped _ _ => exact Handled.control (by simp) rfl rfl (fun e he => Or.inl he) (by simp)

theorem handled_applicationData {available : List UInt8}
    (h : s.handleApplicationData env available = .ok (s', effects)) :
    Handled env s (.appData available) s' effects := by
  cases appOutcome h with
  | closed _ => exact Handled.control (by simp) rfl rfl (fun e he => Or.inl he) (by simp)
  | short _ => exact Handled.control (by simp) rfl rfl (fun e he => Or.inl he) (by simp)
  | direct hlen hd hn =>
    obtain ⟨hi, he⟩ := neighbor_inv hn
    exact Handled.direct hlen hd hi (mem_of_lookup he) (key_of_lookup he)
  | @routed m p hlen hd hp =>
    subst hp
    rcases s.requestForwarding_eq env m.mipAddress (MIPPackage.transport
      (createTransportEthernetFrame env.layout .defaultMac .defaultMac) 255 m.mipAddress
      m.data) with ⟨hw, heq⟩ | heq
    · rw [heq]
      exact Handled.request hlen hd hw
    · rw [heq]
      exact Handled.control (by simp) rfl rfl (fun e he => Or.inl he) (by simp)

theorem handled_forwardData (hf : s.forwardSocket ≠ -1) {nextHop : MIPAddress}
    (h : s.handleForwardData nextHop = .ok (s', effects)) :
    Handled env s (.forwardData (some nextHop)) s' effects := by
  cases responseOutcome h with
  | sent hr hn =>
    obtain ⟨hi, he⟩ := neighbor_inv hn
    exact Handled.respond hr hi (mem_of_lookup he) (key_of_lookup he) hf
  | notFound hr => exact Handled.notFound hr hf

/-- **Every event has one of these outcomes.** -/
theorem handled (h : s.handleEvent env ev = .ok (s', effects)) : Handled env s ev s' effects := by
  cases dispatch h with
  | inert hev hq ht hc =>
    exact Handled.control hev.response hq ht (fun e he => Or.inl (hc ▸ he)) (by simp)
  | poll => exact handled_updateArpCache
  | table hr h => exact handled_broadcastRouteTable h
  | response hf h => exact handled_forwardData hf h
  | frame hsd hp h => exact handled_rawFrame hsd hp h
  | app h => exact handled_applicationData h

/-- the interface table stays, and with it the invariant of the cache -/
theorem SocketsKnown.event (hk : s.SocketsKnown) (h : s.handleEvent env ev = .ok (s', effects)) :
    s'.iTable = s.iTable ∧ s'.SocketsKnown := by
  have hsame : ∀ t : MIPDServer, t.iTable = s.iTable → t.cache = s.cache →
      t.iTable = s.iTable ∧ t.SocketsKnown := fun t ht hc =>
    ⟨ht, hk.sub ht fun e he => hc ▸ he⟩
  cases handled h with
  | control hev hq ht hc he =>
    refine ⟨ht, fun e hmem => ?_⟩
    rw [ht]
    exact (hc e hmem).elim (hk e) id
  | deliver hp htra hown hm => exact hsame s rfl rfl
  | transit hp htra httl hw => exact hsame _ rfl rfl
  | direct hlen hd hi he ha => exact hsame s rfl rfl
  | request hlen hd hw => exact hsame _ rfl rfl
  | respond hr hi he ha hf => exact hsame _ rfl rfl
  | notFound hr hf => exact hsame _ rfl rfl

end MIPDServer

/-! ## what an event does to the queue -/

def MIPDServer.waiting (s : MIPDServer) : List MIPPackage :=
  s.forwardQueue.inOrder.map ForwardQueueEntry.package

/-- the packages for which an event has written a request -/
def requestsOf (effects : List Effect) : List MIPPackage := effects.filterMap fun
  | .writeForward _ _ p => some p
  | _ => none

theorem MIPDServer.waiting_congr {s s' : MIPDServer} (h : s'.forwardQueue = s.forwardQueue) :
    s'.waiting = s.waiting := by rw [waiting, waiting, h]

theorem MIPDServer.waiting_push (s : MIPDServer) (now : ℤ) (p : MIPPackage) :
    (s.push now p).waiting = s.waiting ++ [p] := by
  rw [waiting, push]
  dsimp only
  rw [Queue.inOrder_send, List.map_append]
  rfl

theorem MIPDServer.waiting_of_recv {s : MIPDServer} {entry : ForwardQueueEntry}
    {q : Queue ForwardQueueEntry} (h : s.forwardQueue.recv = some (entry, q)) :
    s.waiting = entry.package :: ({ s with forwardQueue := q } : MIPDServer).waiting := by
  rw [waiting, Queue.recv_eq_some h]
  rfl

theorem requestsOf_control {effects : List Effect} (h : ∀ x ∈ effects, x.IsControl) :
    requestsOf effects = [] := by
  refine List.filterMap_eq_nil_iff.mpr fun x hx => ?_
  cases x with
  | writeForward fd d p => exact absurd (h _ hx) id
  | sendRaw sock p => rfl
  | writeRoute fd bytes => rfl
  | sendApp fd bytes => rfl

section
variable {env : Env} {s s' : MIPDServer} {ev : Event} {effects : List Effect}

/-- an event that is no response queues exactly the packages for which it has written a request -/
theorem Handled.waiting (h : Handled env s ev s' effects)
    (hev : ∀ nextHop, ev ≠ .forwardData (some nextHop)) :
    s'.waiting = s.waiting ++ requestsOf effects := by
  cases h with
  | control _ hq ht hc he =>
    rw [requestsOf_control he, List.append_nil, MIPDServer.waiting_congr hq]
  | deliver hp htra hown hm => exact (List.append_nil _).symm
  | transit hp htra httl hw => exact s.waiting_push _ _
  | direct hlen hd hi he ha => exact (List.append_nil _).symm
  | request hlen hd hw => exact s.waiting_push _ _
  | respond hr hi he ha hf => exact absurd rfl (hev _)
  | notFound hr hf => exact absurd rfl (hev _)

/-- a response pops the oldest package -/
theorem Handled.waiting_of_response {nextHop : MIPAddress}
    (h : Handled env s (.forwardData (some nextHop)) s' effects) (hc : s.forwardSocket ≠ -1)
    {popped : MIPPackage} {left : MIPDServer} (hp : s.pop = some (popped, left)) :
    s.waiting = popped :: s'.waiting := by
  obtain ⟨x, hrecv, hx⟩ := Option.map_eq_some_iff.mp hp
  obtain ⟨rfl, _⟩ := Prod.mk.inj hx
  cases h with
  | control hev hq ht _ he => exact absurd (hev nextHop rfl) hc
  | respond hr hi he ha hf =>
    obtain rfl := Option.some.inj (hr.symm.trans hrecv)
    exact MIPDServer.waiting_of_recv hr
  | notFound hr hf =>
    obtain rfl := Option.some.inj (hr.symm.trans hrecv)
    exact MIPDServer.waiting_of_recv hr

end

/-! ## runs -/

/-- the server when the main loop begins: the first MIP-ARP round is out -/
def MIPDServer.start (table : InterfaceTable) (now : ℤ) : MIPDServer :=
  ((MIPDServer.create table).completeMipArp now).1

theorem MIPDServer.socketsKnown_start (table : InterfaceTable) (now : ℤ) :
    (MIPDServer.start table now).SocketsKnown := by
  intro e he
  cases he

/-- one event; a fault is final -/
def ServerStep (r : Except Fault MIPDServer) (x : Env × Event) (r' : Except Fault MIPDServer) :
    Prop := ∃ s, r = .ok s ∧ r' = (s.handleEvent x.1 x.2).map Prod.fst

/-! ## a daemon with one interface -/

def quietEnv : Env := ⟨fun _ _ => 0, fun _ => true, fun _ => 0, fun _ => 0⟩

/-- one interface with address 10 on socket 3 -/
def oneInterface : InterfaceTable := [⟨fun _ => 0, fun _ => 0, 10, 3⟩]

/-- a MIP-ARP response from the address `srcAddr` -/
def arpResponse (srcAddr : MIPAddress) : MIPPackage :=
  ⟨⟨fun _ => 0, fun _ => 0, (0x88, 0xB5)⟩, ⟨0, 15, 0, 10, srcAddr⟩, []⟩

/-- the bytes of a package that `sendto_raw_mip_package` sends from another mipd -/
def frameOf (p : MIPPackage) : List UInt8 := sendtoRawMipPackage (fun _ => 0) p

/-- a package without payload is received -/
theorem receivePackage_frameOf (behind : Behind) {p : MIPPackage} (h : p.mHeader.payloadLen = 0) :
    receivePackage behind (frameOf p) = .ok p.wire.received :=
  receivePackage_sendto behind _ (by rw [MIPPackage.payloadBytes, h]; decide)

end MipStack
