import MipStack.Mipd.Link
import MipStack.Mipd.Neighbours
import MipStack.Network.SplitHorizon
import MipStack.Network.Traffic

/-!
# MIP-ARP in a network of mipds

A frame that was sent stays in the network: it may arrive at any later time, several times or never.
Servers start and end at any time, and react to all other events as well.

* `WiredNetwork`       no two interfaces of a node share a socket, and there are at most 64 of them;
* `arpFrom_of_sent`    a MIP-ARP frame bears the address of the interface it is sent on;
* `ArpNet`, `ArpAction`, `ArpStep`   the servers and all frames sent so far, and **one step**;
* `Acquainted`         every entry of a cache names the far end of the link on its socket;
* `ArpNet.Sound`, `ArpStep.sound`   the invariant and its step lemma;
* `ArpServer.room`     there is room for every neighbour;
* `arp_safe`           **the caches are right, never outgrow their arrays, and no MIP-ARP frame ends
                       a server.**
-/

set_option linter.unusedSectionVars false

namespace MipStack
open Library

structure WiredNetwork (Node : Type) extends PointToPoint Node where
  socket_unique : ∀ {x i i'}, i ∈ interfaces x → i' ∈ interfaces x →
    i.rawSocket = i'.rawSocket → i = i'
  few : ∀ x, (interfaces x).length ≤ ARP_CACHE_SIZE

/-! ## the frames of one server -/

def MIPPackage.IsArp (p : MIPPackage) : Prop := p.mHeader.tra = 0 ∨ p.mHeader.tra = 1

/-- a MIP-ARP frame as it is made for an interface -/
structure ArpFrom (i : InterfaceRecord) (p : MIPPackage) : Prop where
  srcAddr : p.mHeader.srcAddr = i.mipAddress
  empty : p.mHeader.payloadLen = 0

namespace MIPDServer
variable {env : Env} {s s' : MIPDServer} {ev : Event} {effects : List Effect}

/-- only transport packages wait for their next hop -/
def QueuesTransport (s : MIPDServer) : Prop :=
  ∀ entry ∈ s.forwardQueue, entry.package.mHeader.tra = 3

theorem QueuesTransport.event (hq : s.QueuesTransport)
    (h : s.handleEvent env ev = .ok (s', effects)) : s'.QueuesTransport := by
  have hpop : ∀ {entry : ForwardQueueEntry} {q : Queue ForwardQueueEntry},
      s.forwardQueue.recv = some (entry, q) →
      QueuesTransport { s with forwardQueue := q } := fun hr e he => by
    have hin : e ∈ s.forwardQueue.inOrder := by
      rw [Queue.recv_eq_some hr]
      exact List.mem_cons_of_mem _ (List.mem_reverse.mpr he)
    exact hq e (List.mem_reverse.mp hin)
  cases handled h with
  | control _ hqueue _ _ _ =>
    intro entry he
    rw [hqueue] at he
    exact hq entry he
  | deliver _ _ _ _ => exact hq
  | direct _ _ _ _ _ => exact hq
  | transit _ htra _ _ => exact List.forall_mem_cons.mpr ⟨htra, hq⟩
  | request _ _ _ => exact List.forall_mem_cons.mpr ⟨rfl, hq⟩
  | respond hr _ _ _ _ => exact hpop hr
  | notFound hr _ => exact hpop hr

/-- a round of requests: one on every interface -/
theorem completeMipArp_effects (now : ℤ) {sock : ℤ} {p : MIPPackage}
    (h : .sendRaw sock p ∈ (s.completeMipArp now).2) :
    ∃ i ∈ s.iTable, (i.rawSocket : ℤ) = sock ∧ ArpFrom i p := by
  obtain ⟨i, hi, hmap⟩ := List.mem_filterMap.mp h
  obtain ⟨p', hp, heq⟩ := Option.map_eq_some_iff.mp hmap
  obtain ⟨hsock, rfl⟩ := Effect.sendRaw.inj heq
  rw [MIPPackage.createMipArpRequestPacket, MIPPackage.create_eq_some _ _ (by simp)] at hp
  obtain rfl := Option.some.inj hp
  exact ⟨i, hi, hsock, rfl, rfl⟩

theorem requestForwarding_sends_nothing {d : MIPAddress} {q : MIPPackage} {sock : ℤ} {p : MIPPackage} :
    .sendRaw sock p ∉ (s.requestForwarding env d q).2 := by
  rcases s.requestForwarding_eq env d q with ⟨_, heq⟩ | heq <;> rw [heq] <;> simp

theorem handleTransport_sends_nothing {q : MIPPackage}
    (h : s.handleTransport env q = .ok (s', effects)) {sock : ℤ} {p : MIPPackage} :
    .sendRaw sock p ∉ effects := by
  unfold handleTransport handlePackageForApplication at h
  split at h
  · split at h
    · cases h
    · rename_i happ
      obtain ⟨_, rfl⟩ := Prod.mk.inj (Except.ok.inj h)
      split at happ
      · obtain rfl := Except.ok.inj happ
        exact List.not_mem_nil
      · split at happ
        · cases happ
        · obtain rfl := Except.ok.inj happ
          simp
  · split at h
    · obtain ⟨_, rfl⟩ := Prod.mk.inj (Except.ok.inj h)
      exact List.not_mem_nil
    · obtain ⟨_, rfl⟩ := Prod.mk.inj (Except.ok.inj h)
      exact requestForwarding_sends_nothing

/-- **Every MIP-ARP frame bears the address of the interface it is sent on.** -/
theorem arpFrom_of_sent (hq : s.QueuesTransport) (h : s.handleEvent env ev = .ok (s', effects))
    {sock : ℤ} {p : MIPPackage} (hp : .sendRaw sock p ∈ effects) (harp : p.IsArp) :
    ∃ i ∈ s.iTable, (i.rawSocket : ℤ) = sock ∧ ArpFrom i p := by
  have htransport : p.mHeader.tra ≠ 3 := by
    rcases harp with h0 | h1
    · rw [h0]
      decide
    · rw [h1]
      decide
  cases dispatch h with
  | inert _ _ _ _ => cases hp
  | poll =>
    unfold updateArpCache at hp
    dsimp only at hp
    split at hp
    · exact completeMipArp_effects ((MipArpCache.purge env.clock 0 s.cache).1 1) hp
    · cases hp
  | table _ h =>
    unfold broadcastRouteTable at h
    split at h
    · obtain ⟨_, rfl⟩ := Prod.mk.inj (Except.ok.inj h)
      obtain ⟨x, _, hx⟩ := List.mem_filterMap.mp hp
      obtain ⟨p', hcreate, heq⟩ := Option.map_eq_some_iff.mp hx
      obtain ⟨_, rfl⟩ := Effect.sendRaw.inj heq
      have htra : p'.mHeader.tra = 2 := tra_createRaw hcreate
      rw [MIPPackage.IsArp, htra] at harp
      exact absurd harp (by decide)
    · cases h
  | response _ h =>
    cases responseOutcome h with
    | notFound _ => cases hp
    | @sent entry q i e hr hn =>
      obtain ⟨_, rfl⟩ := Effect.sendRaw.inj (List.mem_singleton.mp hp)
      refine absurd ?_ htransport
      rw [mHeader_load]
      have hin : entry ∈ s.forwardQueue.inOrder := by
        rw [Queue.recv_eq_some hr]
        exact List.mem_cons_self
      exact hq entry (List.mem_reverse.mp hin)
  | frame hsd _ h =>
    obtain ⟨i', hmem, hi', _⟩ := interfaceForSocket_of_mem hsd
    cases frameOutcome hsd h with
    | learned _ _ _ _ => cases hp
    | table _ =>
      unfold recvRouteTableBroadcast at hp
      split at hp
      · cases hp
      · cases List.mem_singleton.mp hp
    | transport _ h => exact absurd hp (handleTransport_sends_nothing h)
    | dropped _ _ => cases hp
    | @answered i rc cache response _ hi hfd hresponse _ =>
      obtain ⟨rfl, rfl⟩ := Effect.sendRaw.inj (List.mem_singleton.mp hp)
      obtain rfl := Option.some.inj (hi'.symm.trans hi)
      rw [MIPPackage.createRaw_eq_some _ _ _ _ _ (by decide) (Nat.zero_le _)] at hresponse
      obtain rfl := Option.some.inj hresponse
      exact ⟨i', hmem, rfl, rfl, rfl⟩
  | app h =>
    cases appOutcome h with
    | closed _ => cases hp
    | short _ => cases hp
    | direct _ _ _ =>
      obtain ⟨_, rfl⟩ := Effect.sendRaw.inj (List.mem_singleton.mp hp)
      exact absurd rfl htransport
    | routed _ _ _ => exact absurd hp requestForwarding_sends_nothing

end MIPDServer

/-! ## the network -/

structure Frame (Node : Type) where
  sender : Node
  sock : ℤ
  package : MIPPackage

structure ArpNet (Node : Type) where
  servers : Node → Option MIPDServer
  sent : List (Frame Node)

def framesOf {Node : Type} (x : Node) (effects : List Effect) : List (Frame Node) :=
  effects.filterMap fun
    | .sendRaw sock p => some ⟨x, sock, p⟩
    | _ => none

theorem mem_framesOf {Node : Type} {x : Node} {effects : List Effect} {f : Frame Node} :
    f ∈ framesOf x effects ↔ f.sender = x ∧ .sendRaw f.sock f.package ∈ effects := by
  constructor
  · intro h
    obtain ⟨e, he, hf⟩ := List.mem_filterMap.mp h
    cases e with
    | sendRaw sock p =>
      obtain rfl := Option.some.inj hf
      exact ⟨rfl, he⟩
    | writeRoute fd bytes => cases hf
    | writeForward fd d p => cases hf
    | sendApp fd bytes => cases hf
  · intro h
    obtain ⟨rfl, he⟩ := h
    exact List.mem_filterMap.mpr ⟨_, he, rfl⟩

inductive ArpAction (Node : Type)
  | boot (x : Node) (now : ℤ)
  | stop (x : Node)
  /-- an event of `x` that is no frame -/
  | event (x : Node) (env : Env) (ev : Event)
  /-- the frame `f` arrives at `y` -/
  | arrive (f : Frame Node) (y : Node) (env : Env)

section
variable {Node : Type} [DecidableEq Node]

def ArpNet.start : ArpNet Node := ⟨fun _ => none, []⟩

def ArpNet.after (s : ArpNet Node) (x : Node) (server : MIPDServer) (effects : List Effect) :
    ArpNet Node :=
  ⟨Function.update s.servers x (some server), s.sent ++ framesOf x effects⟩

/-- **One step.**  A mipd starts with a round of requests.  What arrives are the bytes on the wire; a
frame of more than 40 words is received with whatever is behind the receive buffer. -/
inductive ArpStep (N : Network Node) : ArpNet Node → ArpAction Node → ArpNet Node → Prop
  | boot {s : ArpNet Node} {x : Node} {now : ℤ} (h : s.servers x = none) :
      ArpStep N s (.boot x now) (s.after x (MIPDServer.start (N.interfaces x) now)
        ((MIPDServer.create (N.interfaces x)).completeMipArp now).2)
  | stop {s : ArpNet Node} {x : Node} :
      ArpStep N s (.stop x) { s with servers := Function.update s.servers x none }
  | event {s : ArpNet Node} {x : Node} {env : Env} {ev : Event} {server server' : MIPDServer}
      {effects : List Effect} (hev : ∀ sd frame, ev ≠ .rawFrame sd frame)
      (hx : s.servers x = some server)
      (h : server.handleEvent env ev = .ok (server', effects)) :
      ArpStep N s (.event x env ev) (s.after x server' effects)
  | arrive {s : ArpNet Node} {y : Node} {env : Env} {i j : InterfaceRecord} {f : Frame Node}
      {pointer : Fin 8 → UInt8} {server server' : MIPDServer} {effects : List Effect}
      (hf : f ∈ s.sent) (hl : N.link f.sender i y j) (hsock : (i.rawSocket : ℤ) = f.sock)
      (hy : s.servers y = some server)
      (h : server.handleEvent env (.rawFrame j.rawSocket (sendtoRawMipPackage pointer f.package))
        = .ok (server', effects)) :
      ArpStep N s (.arrive f y env) (s.after y server' effects)

/-! ## the invariant -/

/-- every entry names the far end of the link on its socket -/
def Acquainted (N : Network Node) (x : Node) (cache : MipArpCache) : Prop :=
  ∀ e ∈ cache.entries, ∃ i y j, N.link x i y j ∧ (i.rawSocket : ℤ) = e.srcSocket ∧
    j.mipAddress = e.mipAddress

structure ArpServer (N : Network Node) (x : Node) (server : MIPDServer) : Prop where
  table : server.iTable = N.interfaces x
  wellFormed : CacheWellFormed server
  transport : server.QueuesTransport
  acquainted : Acquainted N x server.cache

structure ArpNet.Sound (N : Network Node) (s : ArpNet Node) : Prop where
  servers : ∀ x server, s.servers x = some server → ArpServer N x server
  sent : ∀ f ∈ s.sent, f.package.IsArp →
    ∃ i ∈ N.interfaces f.sender, (i.rawSocket : ℤ) = f.sock ∧ ArpFrom i f.package

variable {N : WiredNetwork Node} {s s' : ArpNet Node} {x y : Node} {server server' : MIPDServer}
  {env : Env} {ev : Event} {effects : List Effect}

theorem Acquainted.anti {N : Network Node} {cache cache' : MipArpCache} (h : Acquainted N x cache)
    (hs : ∀ e ∈ cache'.entries, e ∈ cache.entries) : Acquainted N x cache' :=
  fun e he => h e (hs e he)

theorem arpServer_start (N : Network Node) (x : Node) (now : ℤ) :
    ArpServer N x (MIPDServer.start (N.interfaces x) now) where
  table := rfl
  wellFormed := ⟨MIPDServer.socketsKnown_start _ now, unique_nil, fun _ he => by cases he⟩
  transport _ he := by cases he
  acquainted _ he := by cases he

/-- an event keeps the invariant where what it learns is right -/
theorem ArpServer.event {N : Network Node} (hs : ArpServer N x server)
    (h : server.handleEvent env ev = .ok (server', effects))
    (hlearn : ∀ sd p, ev.package env = some (sd, p) → IsArpFrame server sd p →
      ∃ i y j, N.link x i y j ∧ (i.rawSocket : ℤ) = sd ∧ j.mipAddress = p.mHeader.srcAddr) :
    ArpServer N x server' := by
  refine ⟨(hs.wellFormed.known.event h).1.trans hs.table, hs.wellFormed.event h,
    hs.transport.event h, ?_⟩
  generalize hcache : server'.cache = cache
  cases hcache ▸ MIPDServer.cached h with
  | purge => exact hs.acquainted.anti fun e he => (server.cache.updateArpCache_sublist _).mem he
  | keep _ _ => exact hs.acquainted
  | learn hev hp _ happ =>
    rcases MipArpCache.appendToCache_inv happ with ⟨_, rfl⟩ | ⟨_, _, rfl⟩
    · exact hs.acquainted
    · intro e he
      rcases mem_assign he with rfl | hold
      · exact hlearn _ _ hev hp
      · exact hs.acquainted e hold

/-- the header of what arrives is the one that was sent -/
theorem mHeader_of_package {sd sd' : ℤ} {pointer : Fin 8 → UInt8} {q p : MIPPackage}
    (h : (Event.rawFrame sd (sendtoRawMipPackage pointer q)).package env = some (sd', p)) :
    sd' = sd ∧ p.mHeader = q.mHeader := by
  obtain ⟨frame, hframe, hrecv⟩ := Event.package_eq_some h
  obtain ⟨rfl, rfl⟩ := Event.rawFrame.inj hframe
  exact ⟨rfl, (receivePackage_inv hrecv).2.1.trans (receivedHeader_sendto pointer q)⟩

/-- **What a MIP-ARP frame says is true**: it comes from the far end of the link it arrives on. -/
theorem ArpNet.Sound.source (hs : s.Sound N.toNetwork) {i j : InterfaceRecord} {f : Frame Node}
    (hf : f ∈ s.sent) (hl : N.link f.sender i y j) (hsock : (i.rawSocket : ℤ) = f.sock)
    (harp : f.package.IsArp) : ArpFrom i f.package := by
  obtain ⟨i', hi', hsock', hfrom⟩ := hs.sent f hf harp
  have hsame : i'.rawSocket = i.rawSocket := by
    rw [← Nat.cast_inj (R := ℤ), hsock', hsock]
  rwa [N.socket_unique hi' (N.link_mem hl) hsame] at hfrom

theorem ArpNet.isSome_after (h : (s.servers y).isSome) :
    ((s.after x server effects).servers y).isSome := by
  show (Function.update s.servers x (some server) y).isSome
  by_cases hxy : y = x
  · rw [hxy, Function.update_self]
    rfl
  · rwa [Function.update_of_ne hxy]

/-- a round of requests has one for every interface -/
theorem framesOf_completeMipArp {i : InterfaceRecord} (hi : i ∈ server.iTable) (now : ℤ) :
    ∃ f ∈ framesOf x (server.completeMipArp now).2, f.sender = x ∧ (i.rawSocket : ℤ) = f.sock ∧
      f.package.mHeader.tra = 1 := by
  have hp : MIPPackage.createMipArpRequestPacket i.mipAddress i.interface = some _ :=
    MIPPackage.create_eq_some _ _ (Nat.zero_le _)
  exact ⟨⟨x, i.rawSocket, _⟩, mem_framesOf.mpr ⟨rfl, List.mem_filterMap.mpr
    ⟨i, hi, Option.map_eq_some_iff.mpr ⟨_, hp, rfl⟩⟩⟩, rfl, rfl, rfl⟩

/-- a mipd that starts sends a request on every interface -/
theorem ArpStep.requests {N : Network Node} {now : ℤ} (h : ArpStep N s (.boot x now) s')
    {i : InterfaceRecord} (hi : i ∈ N.interfaces x) : ∃ f ∈ s'.sent, f.sender = x ∧
      (i.rawSocket : ℤ) = f.sock ∧ f.package.mHeader.tra = 1 := by
  cases h with
  | boot h =>
    obtain ⟨f, hf, hrequest⟩ := framesOf_completeMipArp (x := x)
      (show i ∈ (MIPDServer.create (N.interfaces x)).iTable from hi) now
    exact ⟨f, List.mem_append_right _ hf, hrequest⟩

theorem ArpNet.Sound.after (hs : s.Sound N.toNetwork) (hserver : ArpServer N.toNetwork x server')
    (hsent : ∀ sock p, .sendRaw sock p ∈ effects → p.IsArp →
      ∃ i ∈ N.interfaces x, (i.rawSocket : ℤ) = sock ∧ ArpFrom i p) :
    (s.after x server' effects).Sound N.toNetwork := by
  constructor
  · refine (Function.forall_update_iff s.servers fun y o => ∀ server, o = some server →
      ArpServer N.toNetwork y server).mpr ⟨fun t ht => ?_, fun y _ => hs.servers y⟩
    rwa [← Option.some.inj ht]
  · intro f hf harp
    rcases List.mem_append.mp hf with hold | hnew
    · exact hs.sent f hold harp
    · obtain ⟨rfl, he⟩ := mem_framesOf.mp hnew
      exact hsent f.sock f.package he harp

/-- **Every step keeps the invariant.** -/
theorem ArpStep.sound {a : ArpAction Node} (h : ArpStep N.toNetwork s a s')
    (hs : s.Sound N.toNetwork) : s'.Sound N.toNetwork := by
  cases h with
  | @boot x now h =>
    exact hs.after (arpServer_start _ x now) fun sock p hp _ =>
      MIPDServer.completeMipArp_effects now hp
  | @stop x =>
    refine ⟨(Function.forall_update_iff s.servers fun y o => ∀ server, o = some server →
      ArpServer N.toNetwork y server).mpr ⟨nofun, fun y _ => hs.servers y⟩, hs.sent⟩
  | @event x env ev server server' effects hev hx h =>
    have hserver := hs.servers x server hx
    refine hs.after (hserver.event h fun sd p hpackage => ?_) fun sock p hp harp => ?_
    · obtain ⟨frame, hframe, _⟩ := Event.package_eq_some hpackage
      exact absurd hframe (hev sd frame)
    rw [← hserver.table]
    exact MIPDServer.arpFrom_of_sent hserver.transport h hp harp
  | @arrive y env i j f pointer server server' effects hf hl hsock hy h =>
    have hserver := hs.servers y server hy
    refine hs.after (hserver.event h fun sd p hpackage hp => ?_) fun sock p hp harp => ?_
    · obtain ⟨rfl, hheader⟩ := mHeader_of_package hpackage
      have harp : f.package.IsArp := by
        rw [MIPPackage.IsArp, ← hheader]
        exact hp.2
      refine ⟨j, f.sender, i, N.link_symm hl, rfl, ?_⟩
      rw [hheader]
      exact (hs.source hf hl hsock harp).srcAddr.symm
    · rw [← hserver.table]
      exact MIPDServer.arpFrom_of_sent hserver.transport h hp harp

def ArpNet.Reachable (N : Network Node) (s : ArpNet Node) : Prop :=
  Reach (fun s => s = ArpNet.start) (fun s s' => ∃ a, ArpStep N s a s') s

theorem ArpNet.sound_start : (ArpNet.start : ArpNet Node).Sound N.toNetwork := by
  refine ⟨fun x server hx => ?_, fun f hf => ?_⟩
  · cases hx
  · cases hf

theorem ArpNet.sound_of_reachable (h : s.Reachable N.toNetwork) : s.Sound N.toNetwork := by
  refine h.invariant (I := fun s => s.Sound N.toNetwork) (fun s hs => ?_) fun s s' _ hs hstep => ?_
  · rw [hs]
    exact ArpNet.sound_start
  · obtain ⟨a, ha⟩ := hstep
    exact ha.sound hs

/-! ## what the invariant says -/

namespace ArpServer
variable {i j : InterfaceRecord} {e : MipArpCacheEntry}

theorem isSocketInTable (hs : ArpServer N.toNetwork x server) (hl : N.link y i x j) :
    isSocketInTable server.iTable j.rawSocket = true := by
  rw [hs.table]
  exact List.any_eq_true.mpr ⟨j, N.link_mem' hl, by simp⟩

theorem address_of_socket (hs : ArpServer N.toNetwork x server) (he : e ∈ server.cache.entries)
    (hl : N.link x i y j) (hsock : e.srcSocket = i.rawSocket) : e.mipAddress = j.mipAddress := by
  obtain ⟨i', y', j', hl', hsock', ha⟩ := hs.acquainted e he
  obtain rfl := N.socket_unique (N.link_mem hl) (N.link_mem hl')
    (Nat.cast_inj (R := ℤ) |>.mp (hsock.symm.trans hsock'.symm))
  obtain ⟨_, rfl⟩ := N.one_end hl hl'
  exact ha.symm

theorem socket_of_address (hs : ArpServer N.toNetwork x server) (he : e ∈ server.cache.entries)
    (hl : N.link x i y j) (ha : e.mipAddress = j.mipAddress) : e.srcSocket = i.rawSocket := by
  obtain ⟨i', y', j', hl', hsock, ha'⟩ := hs.acquainted e he
  obtain ⟨_, _, _, rfl⟩ := N.toPointToPoint.link_of_address (N.link_symm hl) (N.link_symm hl')
    (ha.symm.trans ha'.symm)
  exact hsock.symm

/-- no two entries are for one socket -/
theorem nodup_sockets (hs : ArpServer N.toNetwork x server) :
    (server.cache.entries.map MipArpCacheEntry.srcSocket).Nodup := by
  refine List.Nodup.map_on (fun e he e' he' hsock => ?_)
    (List.Nodup.of_map MipArpCacheEntry.mipAddress hs.wellFormed.unique)
  obtain ⟨i, y, j, hl, hi, _⟩ := hs.acquainted e he
  refine hs.wellFormed.unique.eq_of_key he he' ?_
  rw [hs.address_of_socket he hl hi.symm, hs.address_of_socket he' hl (hsock ▸ hi.symm)]

theorem mem_sockets (hs : ArpServer N.toNetwork x server) {sock : ℤ}
    (h : sock ∈ server.cache.entries.map MipArpCacheEntry.srcSocket) :
    sock ∈ (N.interfaces x).map fun i => (i.rawSocket : ℤ) := by
  obtain ⟨e, he, rfl⟩ := List.mem_map.mp h
  obtain ⟨i, y, j, hl, hi, _⟩ := hs.acquainted e he
  exact hi ▸ List.mem_map_of_mem (N.link_mem hl)

theorem length_le (hs : ArpServer N.toNetwork x server) :
    server.cache.entries.length ≤ (N.interfaces x).length := by
  have hsub := (List.Nodup.subperm hs.nodup_sockets fun _ => hs.mem_sockets).length_le
  rwa [List.length_map, List.length_map] at hsub

/-- **There is room for every neighbour**: as long as the far end of a link is not in the cache,
neither is the socket of the link. -/
theorem room (hs : ArpServer N.toNetwork x server) (hl : N.link x i y j) :
    (server.cache.queryMipAddressPos j.mipAddress).isSome ∨
      server.cache.entries.length < ARP_CACHE_SIZE := by
  by_cases hknown : (server.cache.queryMipAddressPos j.mipAddress).isSome
  · exact Or.inl hknown
  · have hfree : (i.rawSocket : ℤ) ∉ server.cache.entries.map MipArpCacheEntry.srcSocket := by
      intro hmem
      obtain ⟨e, he, hsock⟩ := List.mem_map.mp hmem
      exact hknown (MipArpCache.queryMipAddressPos_isSome.mpr
        ⟨e, he, hs.address_of_socket he hl hsock⟩)
    have hsub := (List.Nodup.subperm (List.nodup_cons.mpr ⟨hfree, hs.nodup_sockets⟩)
      (List.cons_subset.mpr ⟨List.mem_map_of_mem (f := fun i : InterfaceRecord => (i.rawSocket : ℤ))
        (N.link_mem hl), fun _ => hs.mem_sockets⟩)).length_le
    rw [List.length_cons, List.length_map, List.length_map] at hsub
    exact Or.inr (lt_of_lt_of_le hsub (N.few x))

theorem queryMipAddressSrcSocket_eq (hs : ArpServer N.toNetwork x server) (hl : N.link x i y j) :
    server.cache.queryMipAddressSrcSocket j.mipAddress
      = if (server.cache.queryMipAddressPos j.mipAddress).isSome then (i.rawSocket : ℤ) else -1 := by
  cases hpos : server.cache.queryMipAddressPos j.mipAddress with
  | none => exact MipArpCache.queryMipAddressSrcSocket_of_none hpos
  | some pos =>
    obtain ⟨e, he, ha, hsock⟩ := MipArpCache.queryMipAddressSrcSocket_of_some hpos
    rw [hsock]
    exact hs.socket_of_address he hl ha

theorem queryCacheSocketMipAddress_eq (hs : ArpServer N.toNetwork x server)
    (hl : N.link x i y j) : server.cache.queryCacheSocketMipAddress i.rawSocket
      = if (server.cache.queryMipAddressPos j.mipAddress).isSome then j.mipAddress else 255 := by
  have hlt : j.mipAddress < 255 := by
    have hne : j.mipAddress.toNat ≠ 255 := fun h =>
      N.unicast (N.interface_owned (N.link_mem' hl)) (UInt8.toNat_inj.mp h)
    have := j.mipAddress.toNat_lt
    exact UInt8.lt_iff_toNat_lt.mpr (show _ < 255 by omega)
  unfold MipArpCache.queryCacheSocketMipAddress
  cases hfind : server.cache.entries.find? fun e => decide (e.srcSocket = (i.rawSocket : ℤ)) with
  | none =>
    refine (if_neg fun hknown => ?_).symm
    obtain ⟨e, he, ha⟩ := MipArpCache.queryMipAddressPos_isSome.mp hknown
    exact absurd (hs.socket_of_address he hl ha) (by simpa using List.find?_eq_none.mp hfind e he)
  | some e =>
    have he := List.mem_of_find?_eq_some hfind
    have ha := hs.address_of_socket he hl (by simpa using List.find?_some hfind)
    rw [if_pos (MipArpCache.queryMipAddressPos_isSome.mpr ⟨e, he, ha⟩)]
    dsimp only
    rw [ha, if_pos hlt]

end ArpServer

/-- a MIP-ARP frame has no payload -/
theorem ArpNet.Sound.payloadBytes (hs : s.Sound N.toNetwork) {f : Frame Node} (hf : f ∈ s.sent)
    (harp : f.package.IsArp) : f.package.payloadBytes = 0 := by
  obtain ⟨i, _, _, hfrom⟩ := hs.sent f hf harp
  rw [MIPPackage.payloadBytes, hfrom.empty]
  rfl

/-- it is received as it was sent, whatever is behind the receive buffer -/
theorem ArpNet.Sound.received (hs : s.Sound N.toNetwork) {f : Frame Node} (hf : f ∈ s.sent)
    (harp : f.package.IsArp) (behind : Behind) (pointer : Fin 8 → UInt8) :
    receivePackage behind (sendtoRawMipPackage pointer f.package) = .ok f.package.wire.received :=
  receivePackage_sendto behind pointer ((hs.payloadBytes hf harp).trans_le (Nat.zero_le 160))

/-- **Whoever a MIP-ARP frame arrives at handles it.** -/
theorem ArpNet.Sound.handled (hs : s.Sound N.toNetwork) {f : Frame Node} (hf : f ∈ s.sent)
    (harp : f.package.IsArp) {i j : InterfaceRecord} (hl : N.link f.sender i x j)
    (hsock : (i.rawSocket : ℤ) = f.sock) (hx : s.servers x = some server)
    (pointer : Fin 8 → UInt8) (env : Env) :
    ∃ server' effects, server.handleEvent env (.rawFrame j.rawSocket
      (sendtoRawMipPackage pointer f.package)) = .ok (server', effects) := by
  have hserver := hs.servers x server hx
  have hfrom := hs.source hf hl hsock harp
  have hj := hserver.isSocketInTable hl
  have haccepts : Accepts server f.package.wire.received := by
    constructor
    · show f.package.mHeader.srcAddr ≠ 255
      rw [hfrom.srcAddr]
      exact N.unicast (N.interface_owned (N.link_mem hl))
    · show (server.cache.queryMipAddressPos f.package.mHeader.srcAddr).isSome ∨ _
      rw [hfrom.srcAddr]
      exact hserver.room (N.link_symm hl)
  have hrecv := hs.received hf harp env.behind pointer
  exact handleEvent_of_accepts (Event.package_rawFrame hrecv _)
    (show IsArpFrame server j.rawSocket f.package.wire.received from ⟨hj, harp⟩) haccepts

/-- **MIP-ARP is safe among mipds.**  Whatever the order, delay and repetition of frames, whenever
servers start and end and whatever else they do: an entry of a cache names the far end of the link
on its socket, and both queries answer with the far end of a link or with nothing; the cache has no
more entries than the node has interfaces; every MIP-ARP frame under way is received as it was sent,
and whoever receives it handles it without a fault. -/
theorem arp_safe (N : WiredNetwork Node) {s : ArpNet Node} (h : s.Reachable N.toNetwork) {x : Node}
    {server : MIPDServer} (hx : s.servers x = some server) :
    Acquainted N.toNetwork x server.cache ∧
    (∀ i y j, N.link x i y j →
      (server.cache.queryMipAddressSrcSocket j.mipAddress = i.rawSocket ∧
        server.cache.queryCacheSocketMipAddress i.rawSocket = j.mipAddress) ∨
      (server.cache.queryMipAddressSrcSocket j.mipAddress = -1 ∧
        server.cache.queryCacheSocketMipAddress i.rawSocket = 255)) ∧
    server.cache.entries.length ≤ (N.interfaces x).length ∧
    ∀ f ∈ s.sent, f.package.IsArp → ∀ i j, N.link f.sender i x j → (i.rawSocket : ℤ) = f.sock →
      ∀ pointer, (∀ empty, MIPPackage.createEmpty = some empty → recvRawMipPackage
          (sendtoRawMipPackage pointer f.package) empty = .ok f.package.wire.received) ∧
        ∀ env, ∃ server' effects, server.handleEvent env (.rawFrame j.rawSocket
          (sendtoRawMipPackage pointer f.package)) = .ok (server', effects) := by
  have hsound := ArpNet.sound_of_reachable h
  have hserver := hsound.servers x server hx
  refine ⟨hserver.acquainted, fun i y j hl => ?_, hserver.length_le, ?_⟩
  · rw [hserver.queryMipAddressSrcSocket_eq hl, hserver.queryCacheSocketMipAddress_eq hl]
    split
    · exact Or.inl ⟨rfl, rfl⟩
    · exact Or.inr ⟨rfl, rfl⟩
  · intro f hf harp i j hl hsock pointer
    refine ⟨fun empty hempty => ?_, hsound.handled hf harp hl hsock hx pointer⟩
    rw [recv_sendto pointer f.package hempty, hsound.payloadBytes hf harp]
    rfl

end

/-! ## two mipds and one link -/

def wiredPair : WiredNetwork Bool where
  toPointToPoint := pair
  socket_unique h h' _ := (List.mem_singleton.mp h).trans (List.mem_singleton.mp h').symm
  few _ := (by decide : 1 ≤ 64)

/-- both start, node `true` first -/
theorem exists_boots : ∃ s₁ s₂ : ArpNet Bool,
    ArpStep wiredPair.toNetwork ArpNet.start (.boot true 0) s₁ ∧
    ArpStep wiredPair.toNetwork s₁ (.boot false 0) s₂ ∧
    (s₂.servers false).isSome ∧ (s₂.servers true).isSome := by
  obtain ⟨s₁, h₁, hfalse, htrue⟩ : ∃ s₁, ArpStep wiredPair.toNetwork ArpNet.start (.boot true 0) s₁ ∧
      s₁.servers false = none ∧ (s₁.servers true).isSome := ⟨_, ArpStep.boot rfl, rfl, rfl⟩
  exact ⟨s₁, _, h₁, ArpStep.boot hfalse, rfl, ArpNet.isSome_after htrue⟩

theorem exists_booted : ∃ s : ArpNet Bool, s.Reachable wiredPair.toNetwork ∧
    (s.servers false).isSome ∧ (s.servers true).isSome ∧
    ∃ f ∈ s.sent, f.sender = false ∧ ((pairInterface false).rawSocket : ℤ) = f.sock ∧
      f.package.mHeader.tra = 1 := by
  obtain ⟨s₁, s₂, h₁, h₂, hx, hy⟩ := exists_boots
  exact ⟨s₂, Reach.next (Reach.next (Reach.start rfl) ⟨_, h₁⟩) ⟨_, h₂⟩, hx, hy,
    h₂.requests (List.mem_singleton_self _)⟩

/-- the request of `false` has arrived at `true` -/
theorem exists_heard : ∃ (s : ArpNet Bool) (server : MIPDServer), s.Reachable wiredPair.toNetwork ∧
    s.servers true = some server ∧ server.cache.entries ≠ [] := by
  obtain ⟨s, hs, _, hy, f, hf, hfx, hsock, hreq⟩ := exists_booted
  obtain ⟨server, hserver⟩ := Option.isSome_iff_exists.mp hy
  have hsound := ArpNet.sound_of_reachable hs
  have hl : wiredPair.link f.sender (pairInterface false) true (pairInterface true) := by
    rw [hfx]
    exact ⟨by decide, rfl, rfl⟩
  have hfrom := hsound.source hf hl hsock (Or.inr hreq)
  have hrecv := hsound.received hf (Or.inr hreq) quietEnv.behind fun _ => 0
  have hj := (hsound.servers true server hserver).isSocketInTable hl
  obtain ⟨server', effects, hok⟩ :=
    hsound.handled hf (Or.inr hreq) hl hsock hserver (fun _ => 0) quietEnv
  have hself : Function.update s.servers true (some server') true = some server' :=
    Function.update_self ..
  refine ⟨_, server', Reach.next hs ⟨_, ArpStep.arrive hf hl hsock hserver hok⟩, hself, ?_⟩
  generalize hcache : server'.cache = cache
  cases hcache ▸ MIPDServer.cached hok with
  | keep _ hno =>
    exact absurd ⟨hj, Or.inr hreq⟩ (hno _ _ (Event.package_rawFrame hrecv _))
  | learn hev _ _ happ =>
    obtain ⟨_, hheader⟩ := mHeader_of_package hev
    rcases MipArpCache.appendToCache_inv happ with ⟨h255, _⟩ | ⟨_, _, rfl⟩
    · rw [hheader, hfrom.srcAddr] at h255
      exact absurd h255 (by decide)
    · exact List.ne_nil_of_mem (mem_assign_self _ _)

/-- the one entry of `true` names `false` -/
theorem arp_safe_pair : ∃ (s : ArpNet Bool) (server : MIPDServer) (e : MipArpCacheEntry),
    s.servers true = some server ∧ server.cache.entries = [e] ∧ e.mipAddress = 10 ∧
      e.srcSocket = 3 := by
  obtain ⟨s, server, hs, hserver, hne⟩ := exists_heard
  obtain ⟨hacquainted, _, hlen, _⟩ := arp_safe wiredPair hs hserver
  obtain ⟨e, he⟩ := List.length_eq_one_iff.mp (le_antisymm hlen (List.length_pos_iff.mpr hne))
  have hmem : e ∈ server.cache.entries := by
    rw [he]
    exact List.mem_singleton_self e
  obtain ⟨i, y, j, ⟨hxy, rfl, rfl⟩, hsock, ha⟩ := hacquainted e hmem
  obtain rfl : y = false := by simpa using hxy
  exact ⟨s, server, e, hserver, he, ha.symm, hsock.symm⟩

end MipStack
