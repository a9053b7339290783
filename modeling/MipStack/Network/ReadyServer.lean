import MipStack.Network.ArpExchange

/-!
# What a mipd does once it knows its neighbours

* `Ready N x server`   the caches are resolved, an application and routerd are connected;
* `Ready.neighbor`     the far end of every link is found, with the interface of the link;
* `Ready.unknown`      no other address is;
* `Ready.read_neighbor`, `Ready.read_far`    a message of the application goes out at once, or waits
                       for its next hop;
* `Ready.respond`, `Ready.respond_notFound`  a response sends or drops the package that waits;
* `Ready.arrive_own`, `.arrive_far`, `.arrive_expired`   a transport frame is handed to the
                       application, waits for its next hop, or is dropped.
-/

set_option linter.unusedSectionVars false

namespace MipStack
open Library

section
variable {Node : Type} [DecidableEq Node]

structure Ready (N : Network Node) (x : Node) (server : MIPDServer) : Prop where
  arp : ArpServer N x server
  knows : ∀ i y j, N.link x i y j → server.cache.Knows j.mipAddress
  app : server.appSocket ≠ -1
  forward : server.forwardSocket ≠ -1

/-- every write to a local socket succeeds -/
def Env.Writes (env : Env) : Prop := ∀ fd, env.writeOk fd = true

variable {N : WiredNetwork Node} {x y : Node} {i j : InterfaceRecord} {server : MIPDServer}
  {env : Env} {m : MIPDMessage} {entry : ForwardQueueEntry} {q : Queue ForwardQueueEntry}

/-- a message that fits into a frame is read at once -/
theorem take_serialize (hmax : m.data.length ≤ 160) :
    m.serialize.take MAX_MIPMESSAGE_DATA_SIZE = m.serialize := by
  refine List.take_of_length_le ?_
  rw [m.length_serialize]
  show _ ≤ 1496
  omega

namespace Ready

/-- only the queue is different -/
theorem queue (h : Ready N.toNetwork x server)
    (hq : ∀ entry ∈ q, entry.package.mHeader.tra = 3) :
    Ready N.toNetwork x { server with forwardQueue := q } :=
  ⟨⟨h.arp.table, ⟨h.arp.wellFormed.known, h.arp.wellFormed.unique, h.arp.wellFormed.address⟩, hq,
    h.arp.acquainted⟩, h.knows, h.app, h.forward⟩

theorem push (h : Ready N.toNetwork x server) {p : MIPPackage} (hp : p.mHeader.tra = 3) (now : ℤ) :
    Ready N.toNetwork x (server.push now p) :=
  h.queue (List.forall_mem_cons.mpr ⟨hp, h.arp.transport⟩)

theorem pop (h : Ready N.toNetwork x server) (hr : server.forwardQueue.recv = some (entry, q)) :
    Ready N.toNetwork x { server with forwardQueue := q } := by
  refine h.queue fun e he => ?_
  have hin : e ∈ server.forwardQueue.inOrder := by
    rw [Queue.recv_eq_some hr]
    exact List.mem_cons_of_mem _ (List.mem_reverse.mpr he)
  exact h.arp.transport e (List.mem_reverse.mp hin)

theorem writes (h : Ready N.toNetwork x server) (hw : env.Writes) : server.writes env = true := by
  rw [MIPDServer.writes, hw]
  simpa using h.forward

/-- **The far end of a link is found**, with the interface of the link. -/
theorem neighbor (h : Ready N.toNetwork x server) (hl : N.link x i y j) :
    server.cache.queryMipAddressSrcSocket j.mipAddress = i.rawSocket ∧
      ∃ e, server.neighbor j.mipAddress = .ok (i, e) := by
  have hknown := h.knows i y j hl
  have hquery := (h.arp.resolves_of_knows hl hknown).1
  obtain ⟨pos, hpos⟩ := Option.isSome_iff_exists.mp
    (MipArpCache.queryMipAddressPos_isSome.mpr hknown)
  obtain ⟨_, i', e, hi', _, _, hn⟩ := h.arp.wellFormed.known.neighbor hpos
  have hsock : isSocketInTable server.iTable i.rawSocket = true := by
    rw [h.arp.table]
    exact List.any_eq_true.mpr ⟨i, N.link_mem hl, by simp⟩
  obtain ⟨i'', hmem, hi'', hfd⟩ := interfaceForSocket_of_mem hsock
  rw [hquery] at hi'
  obtain rfl := Option.some.inj (hi''.symm.trans hi')
  rw [h.arp.table] at hmem
  obtain rfl := N.socket_unique hmem (N.link_mem hl) (Nat.cast_inj (R := ℤ) |>.mp hfd)
  exact ⟨hquery, e, hn⟩

theorem unknown (h : Ready N.toNetwork x server) {a : MIPAddress}
    (ha : ∀ i y j, N.link x i y j → j.mipAddress ≠ a) :
    server.cache.queryMipAddressSrcSocket a = -1 := by
  refine MipArpCache.queryMipAddressSrcSocket_of_none (Option.not_isSome_iff_eq_none.mp fun hs => ?_)
  obtain ⟨e, he, rfl⟩ := MipArpCache.queryMipAddressPos_isSome.mp hs
  obtain ⟨i, y, j, hl, _, hj⟩ := h.arp.acquainted e he
  exact ha i y j hl hj

/-! ## a message of the application -/

/-- the message goes to the neighbour that is found, or waits for its next hop -/
theorem handleApplicationData_serialize (server : MIPDServer) (env : Env)
    (hlen : 13 ≤ m.data.length) (hmax : m.data.length ≤ 160) :
    (∀ sent, server.handleDomainSocketRequest m = .ok (some sent) →
      server.handleApplicationData env m.serialize = .ok (server, sent)) ∧
    (server.handleDomainSocketRequest m = .ok none →
      server.handleApplicationData env m.serialize = .ok (server.requestForwarding env m.mipAddress
        (MIPPackage.transport (createTransportEthernetFrame env.layout .defaultMac .defaultMac) 255
          m.mipAddress m.data))) := by
  have hbytes := m.length_serialize
  have h16 : SIZEOF_MIPDMESSAGE = 16 := rfl
  have hm : MIPDMessage.deserialize m.serialize = some m := by
    have h := m.deserialize_serialize []
    rwa [List.append_nil] at h
  have hzero : ¬ m.serialize.length = 0 := by omega
  have hshort : ¬ m.serialize.length < SIZEOF_MIPDMESSAGE := by omega
  constructor
  · intro sent h
    simp only [MIPDServer.handleApplicationData, take_serialize hmax, hzero, hshort, hm, h, if_false]
  · intro h
    simp only [MIPDServer.handleApplicationData, take_serialize hmax, hzero, hshort, hm, h, if_false,
      MIPDServer.createQueueable_eq]
    rfl

theorem read_neighbor (h : Ready N.toNetwork x server) (hlen : 13 ≤ m.data.length)
    (hmax : m.data.length ≤ 160) (hl : N.link x i y j) (hd : m.mipAddress = j.mipAddress)
    (env : Env) : ∃ eFrame, server.handleEvent env (.appData m.serialize) = .ok (server,
      [.sendRaw i.rawSocket (MIPPackage.transport eFrame i.mipAddress m.mipAddress m.data)]) := by
  obtain ⟨hquery, e, hn⟩ := h.neighbor hl
  have hsock : (i.rawSocket : ℤ) ≠ -1 := by omega
  refine ⟨createEthernetFrame e.dstInterface i.soName, ?_⟩
  rw [MIPDServer.handleEvent, if_neg h.app]
  apply (handleApplicationData_serialize server env hlen hmax).1
  rw [MIPDServer.handleDomainSocketRequest_eq, hd, hquery, if_neg hsock, hn]

theorem read_far (h : Ready N.toNetwork x server) (hlen : 13 ≤ m.data.length)
    (hmax : m.data.length ≤ 160) (ha : ∀ i y j, N.link x i y j → j.mipAddress ≠ m.mipAddress)
    (hw : env.Writes) : ∃ eFrame, server.handleEvent env (.appData m.serialize) = .ok
      (server.push (env.clock 0) (MIPPackage.transport eFrame 255 m.mipAddress m.data),
        [.writeForward server.forwardSocket m.mipAddress
          (MIPPackage.transport eFrame 255 m.mipAddress m.data)]) := by
  refine ⟨createTransportEthernetFrame env.layout .defaultMac .defaultMac, ?_⟩
  rw [MIPDServer.handleEvent, if_neg h.app]
  have hnone : server.handleDomainSocketRequest m = .ok none := by
    rw [MIPDServer.handleDomainSocketRequest_eq, if_pos (h.unknown ha)]
  rw [(handleApplicationData_serialize server env hlen hmax).2 hnone, MIPDServer.requestForwarding,
    if_pos (h.writes hw)]

/-! ## a response of routerd -/

theorem respond (h : Ready N.toNetwork x server) (hr : server.forwardQueue.recv = some (entry, q))
    (hl : N.link x i y j) (env : Env) :
    ∃ e, server.handleEvent env (.forwardData (some j.mipAddress)) = .ok
      ({ server with forwardQueue := q }, [.sendRaw i.rawSocket (MIPDServer.load i e entry.package)])
      := by
  obtain ⟨hquery, e, hn⟩ := h.neighbor hl
  have hsock : (i.rawSocket : ℤ) ≠ -1 := by omega
  have hfound : MIPDServer.forwardFound j.mipAddress = true :=
    decide_eq_true (N.unicast (N.interface_owned (N.link_mem' hl)))
  refine ⟨e, ?_⟩
  rw [MIPDServer.handleEvent, if_neg h.forward]
  show server.handleForwardData j.mipAddress = _
  rw [MIPDServer.handleForwardData, if_pos hfound, MIPDServer.handleForwardResponse_of_recv hr, hquery,
    if_neg hsock, hn]

theorem respond_notFound (h : Ready N.toNetwork x server)
    (hr : server.forwardQueue.recv = some (entry, q)) (env : Env) :
    server.handleEvent env (.forwardData (some 255)) = .ok ({ server with forwardQueue := q }, []) := by
  have hpop : server.pop = some (entry.package, { server with forwardQueue := q }) := by
    rw [MIPDServer.pop, hr]
    rfl
  rw [MIPDServer.handleEvent, if_neg h.forward]
  show server.handleForwardData 255 = _
  rw [MIPDServer.handleForwardData, if_neg (by decide), hpop]

/-! ## a transport frame -/

variable {frame : List UInt8} {p : MIPPackage}

theorem handleEvent_transport (h : Ready N.toNetwork x server) (hj : j ∈ N.interfaces x)
    (hp : receivePackage env.behind frame = .ok p) (htra : p.mHeader.tra = 3) :
    server.handleEvent env (.rawFrame j.rawSocket frame) = server.handleTransport env p := by
  have hsock : isSocketInTable server.iTable j.rawSocket = true := by
    rw [h.arp.table]
    exact List.any_eq_true.mpr ⟨j, hj, by simp⟩
  obtain ⟨i, _, hi, _⟩ := interfaceForSocket_of_mem hsock
  rw [MIPDServer.handleEvent_of_receive hsock hp, MIPDServer.handleReceivedPackage, hi]
  dsimp only
  rw [htra]
  rfl

/-- the address is one of the node, as far as its mipd can tell -/
theorem isSome_getInterfacePosForMipAddress (h : Ready N.toNetwork x server) (a : MIPAddress) :
    (getInterfacePosForMipAddress server.iTable a).isSome ↔ ∃ i ∈ N.interfaces x, i.mipAddress = a := by
  rw [getInterfacePosForMipAddress, List.findIdx?_isSome, h.arp.table, List.any_eq_true]
  simp

theorem arrive_own (h : Ready N.toNetwork x server) (hj : j ∈ N.interfaces x)
    (hp : receivePackage env.behind frame = .ok p) (hc : Carries m p)
    (hown : ∃ i ∈ N.interfaces x, i.mipAddress = m.mipAddress) :
    ∃ m' : MIPDMessage, m'.mipAddress = p.mHeader.srcAddr ∧ m'.data = payload m.data ∧
      server.handleEvent env (.rawFrame j.rawSocket frame)
        = .ok (server, [.sendApp server.appSocket m'.serialize]) := by
  have hsize : p.payloadBytes ≤ MAX_MIPMESSAGE_DATA_SIZE := by
    have hwords : calculateMipPayloadWords m.data.length ≤ 374 := calculateMipPayloadWords_le m.size
    rw [hc.payloadBytes]
    show _ * 4 ≤ 1496
    omega
  obtain ⟨m', hm', ha, hd⟩ := MIPDMessage.create_eq_some p.mHeader.srcAddr p.message hsize
  refine ⟨m', ha, hd.trans hc.payload, ?_⟩
  have hpos := (h.isSome_getInterfacePosForMipAddress _).mpr hown
  rw [h.handleEvent_transport hj hp hc.tra, MIPDServer.handleTransport, hc.dstAddr, if_pos hpos,
    MIPDServer.handlePackageForApplication, if_neg h.app, hm']

theorem arrive_expired (h : Ready N.toNetwork x server) (hj : j ∈ N.interfaces x)
    (hp : receivePackage env.behind frame = .ok p) (hc : Carries m p)
    (hown : ¬ ∃ i ∈ N.interfaces x, i.mipAddress = m.mipAddress) (httl : p.mHeader.ttl = 0) :
    server.handleEvent env (.rawFrame j.rawSocket frame) = .ok (server, []) := by
  have hpos := mt (h.isSome_getInterfacePosForMipAddress _).mp hown
  rw [h.handleEvent_transport hj hp hc.tra, MIPDServer.handleTransport, hc.dstAddr, if_neg hpos,
    if_pos httl]

theorem arrive_far (h : Ready N.toNetwork x server) (hj : j ∈ N.interfaces x)
    (hp : receivePackage env.behind frame = .ok p) (hc : Carries m p)
    (hown : ¬ ∃ i ∈ N.interfaces x, i.mipAddress = m.mipAddress) (httl : p.mHeader.ttl ≠ 0)
    (hw : env.Writes) : server.handleEvent env (.rawFrame j.rawSocket frame) = .ok
      (server.push (env.clock 0) (MIPDServer.decrementTtl p),
        [.writeForward server.forwardSocket m.mipAddress (MIPDServer.decrementTtl p)]) := by
  have hpos := mt (h.isSome_getInterfacePosForMipAddress _).mp hown
  rw [h.handleEvent_transport hj hp hc.tra, MIPDServer.handleTransport, hc.dstAddr, if_neg hpos,
    if_neg httl, MIPDServer.requestForwarding, if_pos (h.writes hw)]

end Ready

end

end MipStack
