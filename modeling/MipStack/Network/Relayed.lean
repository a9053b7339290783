import MipStack.Network.Relay

/-!
# Where each message is

* `OnWay N o m k n x p`   the package `p` carries the message `m` of `o`, and has come to `x` over `k`
                       links of a shortest way, `n` links being left;
* `Queued`, `Flying`, `Received`   a message that waits, is in flight, or has been delivered;
* `Placed`             everything under way is one of these, and every lookup and answer belongs to
                       the package that waits for it;
* `Placed.transmit`, `.enqueue`, `.deliver`   a message is put somewhere;
* `RelayNet.Sound`     the invariant: every message that can be delivered is somewhere;
* `RelayStep.sound`    **every step keeps it.**
-/

set_option linter.unusedSectionVars false

namespace MipStack
open Library

section
variable {Node : Type} [DecidableEq Node]

/-! ## one message -/

structure OnWay (N : Network Node) (o : Node) (m : MIPDMessage) (k n : ℕ) (x : Node)
    (p : MIPPackage) : Prop where
  carries : Carries m p
  left : N.Distance m.mipAddress n x
  whole : N.Distance m.mipAddress (k + n) o
  srcAddr : p.mHeader.srcAddr ∈ N.addresses o

/-- the message `m` of `o` waits at `x` for its next hop -/
inductive Queued (N : Network Node) (o : Node) (m : MIPDMessage) (x : Node) (p : MIPPackage) : Prop
  | origin (hc : Carries m p) (hx : x = o) (httl : p.mHeader.ttl = 15)
      (hsrc : p.mHeader.srcAddr = 255)
  | transit {k n : ℕ} (hw : OnWay N o m k n x p) (httl : p.mHeader.ttl.toNat + k = 15)

/-- the frame arrives at the far end of the link that it is sent on -/
inductive Flying (N : Network Node) (o : Node) (m : MIPDMessage) (f : Flight Node) : Prop
  | intro {i j : InterfaceRecord} {y : Node} {k n : ℕ} (hl : N.link f.sender i y j)
      (hsock : (i.rawSocket : ℤ) = f.sock) (hw : OnWay N o m k n y f.package)
      (httl : f.package.mHeader.ttl.toNat + k = 16)

/-- the application of `y` has received `bytes`, the padded data of `m` with an address of `o` -/
structure Received (N : Network Node) (o : Node) (m : MIPDMessage) (y : Node) (bytes : List UInt8) :
    Prop where
  owner : m.mipAddress ∈ N.addresses y
  near : ∃ n, n ≤ 16 ∧ N.Distance m.mipAddress n o
  content : ∃ m' : MIPDMessage, m'.mipAddress ∈ N.addresses o ∧ m'.data = payload m.data ∧
    bytes = m'.serialize

variable {N : RoutedNetwork Node} {o x y : Node} {m : MIPDMessage} {p : MIPPackage} {k n : ℕ}
  {i j : InterfaceRecord}

theorem Network.distance_zero {N : Network Node} {d : MIPAddress} :
    N.Distance d 0 x ↔ d ∈ N.addresses x :=
  ⟨fun h => (hopsTo_zero (T := fun z => d ∈ N.addresses z)).mp h.1, fun h => ⟨hopsTo_zero.mpr h, fun k hk => absurd hk k.not_lt_zero⟩⟩

/-- the far end of a link is one link away -/
theorem Network.distance_one {N : Network Node} {d : MIPAddress} (hl : N.link x i y j)
    (hx : d ∉ N.addresses x) (hy : d ∈ N.addresses y) : N.Distance d 1 x := by
  refine ⟨RouteTo.link hl (distance_zero.mpr hy).1, fun k hk hto => hx ?_⟩
  obtain rfl : k = 0 := by omega
  exact (hopsTo_zero (T := fun z => d ∈ N.addresses z)).mp hto

theorem Queued.carries {N : Network Node} (h : Queued N o m x p) : Carries m p := by
  cases h with
  | origin hc _ _ _ => exact hc
  | transit hw _ => exact hw.carries

theorem OnWay.received {N : Network Node} (h : OnWay N o m k n x p) :
    OnWay N o m k n x p.wire.received := ⟨h.carries.arrived, h.left, h.whole, h.srcAddr⟩

theorem OnWay.owner {N : Network Node} (h : OnWay N o m k 0 x p) : m.mipAddress ∈ N.addresses x :=
  N.distance_zero.mp h.left

theorem OnWay.own_iff (h : OnWay N.toNetwork o m k n x p) :
    (∃ i ∈ N.interfaces x, i.mipAddress = m.mipAddress) ↔ n = 0 := by
  constructor
  · intro hex
    obtain ⟨i, hi, ha⟩ := hex
    exact h.left.unique (Network.distance_zero.mpr (ha ▸ N.interface_owned hi))
  · rintro rfl
    exact N.address_interface h.owner

/-- **A package that waits is sent one link further.** -/
theorem Queued.send (h : Queued N.toNetwork o m x p) (hl : N.link x i y j)
    (hx : N.Distance m.mipAddress (n + 1) x) (hy : N.Distance m.mipAddress n y)
    (e : MipArpCacheEntry) (id : ℕ) :
    Flying N.toNetwork o m ⟨id, x, i.rawSocket, MIPDServer.load i e p⟩ := by
  have hi := N.interface_owned (N.link_mem hl)
  cases h with
  | origin hc ho httl hsrc =>
    subst ho
    refine Flying.intro (k := 1) hl rfl ⟨hc.load i e, hy, by rwa [Nat.add_comm], ?_⟩ ?_
    · show (MIPDServer.load i e p).mHeader.srcAddr ∈ N.addresses x
      rw [mHeader_load, if_pos hsrc]
      exact hi
    · show (MIPDServer.load i e p).mHeader.ttl.toNat + 1 = 16
      rw [mHeader_load, httl]
      rfl
  | @transit k n' hw httl =>
    obtain rfl := hw.left.unique hx
    refine Flying.intro (k := k + 1) hl rfl ⟨hw.carries.load i e, hy, ?_, ?_⟩ ?_
    · rw [Nat.add_right_comm, Nat.add_assoc]
      exact hw.whole
    · show (MIPDServer.load i e p).mHeader.srcAddr ∈ N.addresses o
      rw [mHeader_load]
      show (if p.mHeader.srcAddr = 255 then i.mipAddress else p.mHeader.srcAddr) ∈ _
      rw [if_neg (show ¬ p.mHeader.srcAddr = 255 from N.unicast hw.srcAddr)]
      exact hw.srcAddr
    · show (MIPDServer.load i e p).mHeader.ttl.toNat + (k + 1) = 16
      rw [mHeader_load]
      show p.mHeader.ttl.toNat + (k + 1) = 16
      omega

/-- a link ends at one node only -/
theorem Flying.at_end {f : Flight Node} (h : Flying N.toNetwork o m f) (hl : N.link f.sender i y j)
    (hsock : (i.rawSocket : ℤ) = f.sock) :
    ∃ k n, OnWay N.toNetwork o m k n y f.package ∧ f.package.mHeader.ttl.toNat + k = 16 := by
  obtain @⟨i', j', y', k, n, hl', hsock', hway, httl⟩ := h
  obtain rfl := N.socket_unique (N.link_mem hl') (N.link_mem hl)
    (Nat.cast_inj (R := ℤ) |>.mp (hsock'.trans hsock.symm))
  obtain ⟨rfl, _⟩ := N.one_end hl' hl
  exact ⟨k, n, hway, httl⟩

theorem toNat_decrementTtl (httl : p.mHeader.ttl ≠ 0) :
    (MIPDServer.decrementTtl p).mHeader.ttl.toNat + 1 = p.mHeader.ttl.toNat := by
  show (p.mHeader.ttl - 1).toNat + 1 = p.mHeader.ttl.toNat
  have hpos : p.mHeader.ttl.toNat ≠ 0 := fun h0 => httl (BitVec.eq_of_toNat_eq h0)
  have hlt : p.mHeader.ttl.toNat < 16 := p.mHeader.ttl.isLt
  rw [BitVec.toNat_sub]
  show (16 - 1 + p.mHeader.ttl.toNat) % 16 + 1 = p.mHeader.ttl.toNat
  omega

/-- a package that arrives on its way waits for its next hop -/
theorem OnWay.wait {N : Network Node} (h : OnWay N o m k n x p) (hk : p.mHeader.ttl.toNat + k = 16)
    (httl : p.mHeader.ttl ≠ 0) : Queued N o m x (MIPDServer.decrementTtl p) := by
  have hdec := toNat_decrementTtl httl
  exact Queued.transit (k := k) ⟨h.carries.decrementTtl, h.left, h.whole, h.srcAddr⟩ (by omega)

/-! ## all messages -/

/-- the answer is right for the package that waits -/
abbrev RightAnswer (N : Network Node) (x : Node) (a : Node × MIPAddress) (w : Waiting Node) : Prop :=
  NextHop N x w.package.mHeader.dstAddr a.2

abbrev LookupOf (l : Node × MIPAddress) (w : Waiting Node) : Prop :=
  l.2 = w.package.mHeader.dstAddr

structure Placed (N : Network Node) (messages : List (Node × MIPDMessage)) (t : Traffic Node)
    (lookups answers : List (Node × MIPAddress)) (inbox : List (Node × ℕ × List UInt8)) : Prop where
  reads : t.reads = messages.map fun m => m.2.serialize
  served : ∀ x, Served (RightAnswer N x) LookupOf (lane Prod.fst x answers)
    (lane Prod.fst x lookups) (lane Waiting.node x t.queued)
  queued : ∀ w ∈ t.queued, ∃ o m, messages[w.id]? = some (o, m) ∧
    m.mipAddress ∉ N.addresses w.node ∧ Queued N o m w.node w.package
  flying : ∀ f ∈ t.flying, ∃ o m, messages[f.id]? = some (o, m) ∧ Flying N o m f
  arrived : ∀ e ∈ inbox, ∃ o m, messages[e.2.1]? = some (o, m) ∧ Received N o m e.1 e.2.2
  delivered : t.delivered = inbox.map fun e => (e.1, e.2.1)

namespace Placed
variable {N : Network Node} {messages : List (Node × MIPDMessage)} {t : Traffic Node}
  {lookups answers before after : List (Node × MIPAddress)} {inbox : List (Node × ℕ × List UInt8)}
  {id : ℕ}

theorem transmit (h : Placed N messages t lookups answers inbox) {f : Flight Node}
    (hm : messages[f.id]? = some (o, m)) (hf : Flying N o m f) :
    Placed N messages (t.transmit f) lookups answers inbox :=
  ⟨h.reads, h.served, h.queued, List.forall_mem_append.mpr ⟨h.flying,
    List.forall_mem_singleton.mpr ⟨o, m, hm, hf⟩⟩, h.arrived, h.delivered⟩

theorem deliver (h : Placed N messages t lookups answers inbox) {bytes : List UInt8}
    (hm : messages[id]? = some (o, m)) (hr : Received N o m y bytes) :
    Placed N messages (t.deliver y id) lookups answers (inbox ++ [(y, id, bytes)]) := by
  refine ⟨h.reads, h.served, h.queued, h.flying, List.forall_mem_append.mpr ⟨h.arrived,
    List.forall_mem_singleton.mpr ⟨o, m, hm, hr⟩⟩, ?_⟩
  show t.delivered ++ [(y, id)] = _
  rw [h.delivered, List.map_append]
  rfl

theorem enqueue (h : Placed N messages t lookups answers inbox)
    (hm : messages[id]? = some (o, m)) (hfar : m.mipAddress ∉ N.addresses x)
    (hq : Queued N o m x p) : Placed N messages (t.enqueue ⟨x, id, p⟩)
      (lookups ++ [(x, m.mipAddress)]) answers inbox := by
  refine ⟨h.reads, fun y => ?_, List.forall_mem_append.mpr ⟨h.queued,
    List.forall_mem_singleton.mpr ⟨o, m, hm, hfar, hq⟩⟩, h.flying, h.arrived, h.delivered⟩
  show Served _ _ _ _ (lane Waiting.node y (t.queued ++ [⟨x, id, p⟩]))
  rw [lane_append, lane_append]
  by_cases hxy : x = y
  · rw [lane_singleton (show Prod.fst (x, m.mipAddress) = y from hxy),
      lane_singleton (show (⟨x, id, p⟩ : Waiting Node).node = y from hxy)]
    exact (h.served y).request hq.carries.dstAddr.symm
  · rw [lane_singleton_of_ne (show Prod.fst (x, m.mipAddress) ≠ y from hxy),
      lane_singleton_of_ne (show (⟨x, id, p⟩ : Waiting Node).node ≠ y from hxy), List.append_nil,
      List.append_nil]
    exact h.served y

/-- the destination of a package that waits at `x` is elsewhere -/
theorem far (h : Placed N messages t lookups answers inbox) {w : Waiting Node}
    (hw : w ∈ lane Waiting.node x t.queued) : w.package.mHeader.dstAddr ∉ N.addresses x := by
  obtain ⟨hmem, hnode⟩ := List.mem_filter.mp hw
  obtain ⟨o, m, _, hfar, hq⟩ := h.queued w hmem
  obtain rfl : w.node = x := by simpa using hnode
  rwa [hq.carries.dstAddr]

theorem answer (h : Placed N messages t lookups answers inbox) {d hop : MIPAddress}
    (hq : lookups = before ++ (x, d) :: after) (hfirst : IsFirst Prod.fst x before)
    (hhop : d ∉ N.addresses x → NextHop N x d hop) :
    Placed N messages t (before ++ after) (answers ++ [(x, hop)]) inbox := by
  refine ⟨h.reads, fun y => ?_, h.queued, h.flying, h.arrived, h.delivered⟩
  have hserved := h.served y
  rw [hq] at hserved
  rw [lane_append]
  by_cases hxy : x = y
  · subst hxy
    rw [lane_pop hfirst rfl] at hserved
    rw [lane_singleton (show Prod.fst (x, hop) = x from rfl)]
    refine hserved.answer fun w hw hd => ?_
    have hdst : d = w.package.mHeader.dstAddr := hd
    subst hdst
    exact hhop (h.far hw)
  · rw [lane_pop_of_ne (show Prod.fst (x, d) ≠ y from hxy)] at hserved
    rwa [lane_singleton_of_ne (show Prod.fst (x, hop) ≠ y from hxy), List.append_nil]

/-- the oldest answer is right for the package that has waited longest -/
theorem pop (h : Placed N messages t lookups answers inbox) {hop : MIPAddress}
    (ha : answers = before ++ (x, hop) :: after) (hfirst : IsFirst Prod.fst x before)
    {before' after' : List (Waiting Node)} {w : Waiting Node}
    (hq : t.queued = before' ++ w :: after') (hnode : w.node = x)
    (hfirst' : IsFirst Waiting.node x before') :
    NextHop N x w.package.mHeader.dstAddr hop ∧
      Placed N messages { t with queued := before' ++ after' } lookups (before ++ after) inbox := by
  have hpop := h.served x
  rw [ha, hq, lane_pop hfirst rfl, lane_pop hfirst' hnode] at hpop
  obtain ⟨w', rest, hw', hhop, hserved⟩ := hpop.pop
  obtain ⟨rfl, rfl⟩ := List.cons.inj hw'
  refine ⟨hhop, h.reads, fun y => ?_, fun v hv => h.queued v ((sublist_of_removed hq).mem hv),
    h.flying, h.arrived, h.delivered⟩
  show Served _ _ _ _ (lane Waiting.node y (before' ++ after'))
  by_cases hxy : x = y
  · exact hxy ▸ hserved
  · have hother := h.served y
    rwa [ha, hq, lane_pop_of_ne (show Prod.fst (x, hop) ≠ y from hxy),
      lane_pop_of_ne (show w.node ≠ y from hnode ▸ hxy)] at hother

theorem land (h : Placed N messages t lookups answers inbox) {before after : List (Flight Node)}
    {f : Flight Node} (hf : t.flying = before ++ f :: after) :
    Placed N messages { t with flying := before ++ after } lookups answers inbox :=
  ⟨h.reads, h.served, h.queued, fun g hg => h.flying g ((sublist_of_removed hf).mem hg), h.arrived,
    h.delivered⟩

theorem read (h : Placed N messages t lookups answers inbox) (x : Node) (m : MIPDMessage) :
    Placed N (messages ++ [(x, m)]) (t.read m.serialize) lookups answers inbox := by
  have hold : ∀ {id : ℕ} {a : Node × MIPDMessage}, messages[id]? = some a →
      (messages ++ [(x, m)])[id]? = some a := fun ha =>
    (List.getElem?_append_left (List.getElem?_eq_some_iff.mp ha).1).trans ha
  refine ⟨?_, h.served, fun w hw => ?_, fun f hf => ?_, fun e he => ?_, h.delivered⟩
  · show t.reads ++ [m.serialize] = _
    rw [h.reads, List.map_append]
    rfl
  · obtain ⟨o, m, hm, hq⟩ := h.queued w hw
    exact ⟨o, m, hold hm, hq⟩
  · obtain ⟨o, m, hm, hq⟩ := h.flying f hf
    exact ⟨o, m, hold hm, hq⟩
  · obtain ⟨o, m, hm, hr⟩ := h.arrived e he
    exact ⟨o, m, hold hm, hr⟩

end Placed

/-! ## the invariant -/

/-- a message whose destination is at most 16 links away is somewhere -/
def Accounted (N : Network Node) (messages : List (Node × MIPDMessage)) (t : Traffic Node) : Prop :=
  ∀ id o m n, messages[id]? = some (o, m) → n ≤ 16 → N.Distance m.mipAddress n o → 0 < t.present id

structure RelayNet.Sound (N : RoutedNetwork Node) (s : RelayNet Node) : Prop where
  ready : ∀ x, ∃ server, s.net.servers x = some server ∧ Ready N.toNetwork x server
  net : s.net.Sound N.toUnicastNetwork
  sendable : ∀ a ∈ s.messages, Sendable N.toNetwork a.1 a.2
  placed : Placed N.toNetwork s.messages s.net.traffic s.lookups s.answers s.inbox
  accounted : Accounted N.toNetwork s.messages s.net.traffic

theorem Traffic.present_of_queued {t : Traffic Node} {before after : List (Waiting Node)}
    {w : Waiting Node} (hq : t.queued = before ++ w :: after) (id : ℕ) :
    t.present id = Traffic.present { t with queued := before ++ after } id
      + if w.id = id then 1 else 0 := by
  simp only [present, copies, deliveries, hq, List.countP_append, List.countP_cons,
    decide_eq_true_eq]
  omega

theorem Traffic.present_of_flying {t : Traffic Node} {before after : List (Flight Node)}
    {f : Flight Node} (hf : t.flying = before ++ f :: after) (id : ℕ) :
    t.present id = Traffic.present { t with flying := before ++ after } id
      + if f.id = id then 1 else 0 := by
  simp only [present, copies, deliveries, hf, List.countP_append, List.countP_cons,
    decide_eq_true_eq]
  omega

namespace Accounted
variable {N : Network Node} {messages : List (Node × MIPDMessage)} {t t' : Traffic Node}

theorem mono (h : Accounted N messages t) (hle : ∀ k, t.present k ≤ t'.present k) :
    Accounted N messages t' :=
  fun id o m n hm hn hd => (h id o m n hm hn hd).trans_le (hle id)

/-- a message is dropped whose destination is too far away -/
theorem drop (h : Accounted N messages t) {id : ℕ}
    (heq : ∀ k, t.present k = t'.present k + if id = k then 1 else 0)
    (hm : messages[id]? = some (o, m)) (hfar : ∀ n, n ≤ 16 → ¬ N.Distance m.mipAddress n o) :
    Accounted N messages t' := by
  intro k o' m' n hm' hn hd
  have hpos := h k o' m' n hm' hn hd
  have hne : id ≠ k := by
    rintro rfl
    obtain ⟨rfl, rfl⟩ := Prod.mk.inj (Option.some.inj (hm.symm.trans hm'))
    exact hfar n hn hd
  rwa [heq k, if_neg hne] at hpos

theorem read (h : Accounted N messages t) (x : Node) (m : MIPDMessage)
    (hle : ∀ k, t.present k + (if messages.length = k then 1 else 0) ≤ t'.present k) :
    Accounted N (messages ++ [(x, m)]) t' := by
  intro k o' m' n hm' hn hd
  have hk := hle k
  rcases Nat.lt_or_ge k messages.length with hold | hnew
  · rw [List.getElem?_append_left hold] at hm'
    have hpos := h k o' m' n hm' hn hd
    omega
  · obtain ⟨hlt, _⟩ := List.getElem?_eq_some_iff.mp hm'
    have hlen : (messages ++ [(x, m)]).length = messages.length + 1 := List.length_append
    rw [if_pos (by omega)] at hk
    omega

end Accounted

namespace RelayNet.Sound
variable {s s' : RelayNet Node} {server server' : MIPDServer} {env : Env} {effects : List Effect}

theorem ready_of (hs : s.Sound N) (hx : s.net.servers x = some server) :
    Ready N.toNetwork x server := by
  obtain ⟨server', hx', h⟩ := hs.ready x
  obtain rfl := Option.some.inj (hx.symm.trans hx')
  exact h

theorem ready_update (hs : s.Sound N) (h : Ready N.toNetwork x server') :
    ∀ y, ∃ server, Function.update s.net.servers x (some server') y = some server ∧
      Ready N.toNetwork y server :=
  (Function.forall_update_iff s.net.servers fun y o => ∃ server, o = some server ∧
    Ready N.toNetwork y server).mpr ⟨⟨server', rfl, h⟩, fun y _ => hs.ready y⟩

/-- what has waited longest at `x` is the oldest entry of its queue -/
theorem recv (hs : s.Sound N) (hx : s.net.servers x = some server)
    {before after : List (Waiting Node)} {w : Waiting Node}
    (hq : s.net.traffic.queued = before ++ w :: after) (hnode : w.node = x)
    (hfirst : IsFirst Waiting.node x before) :
    ∃ entry q, server.forwardQueue.recv = some (entry, q) ∧ entry.package = w.package := by
  have hwaiting : w.package :: (lane Waiting.node x (before ++ after)).map Waiting.package
      = server.waiting := by
    rw [← (hs.net.server hx).2.2]
    show _ = (lane Waiting.node x s.net.traffic.queued).map Waiting.package
    rw [hq, lane_pop hfirst hnode]
    rfl
  cases hr : server.forwardQueue.recv with
  | none =>
    have hempty := (Queue.recv_eq_none_iff _).mp hr
    rw [MIPDServer.waiting, hempty] at hwaiting
    cases hwaiting
  | some a =>
    obtain ⟨entry, q⟩ := a
    rw [MIPDServer.waiting_of_recv hr] at hwaiting
    exact ⟨entry, q, rfl, (List.cons.inj hwaiting).1.symm⟩

theorem length_reads (hs : s.Sound N) : s.net.traffic.reads.length = s.messages.length := by
  rw [hs.placed.reads, List.length_map]

/-! ## what a step can do -/

/-- **A message is read**: it goes to a neighbour, or waits. -/
theorem read_cases (hs : s.Sound N) (hx : s.net.servers x = some server) (hw : env.Writes)
    (hm : Sendable N.toNetwork x m) :
    (∃ i y j eFrame, N.link x i y j ∧ m.mipAddress ∈ N.addresses y ∧
      server.handleEvent env (.appData m.serialize) = .ok (server,
        [.sendRaw i.rawSocket (MIPPackage.transport eFrame i.mipAddress m.mipAddress m.data)])) ∨
    ∃ eFrame, server.handleEvent env (.appData m.serialize) = .ok
      (server.push (env.clock 0) (MIPPackage.transport eFrame 255 m.mipAddress m.data),
        [.writeForward server.forwardSocket m.mipAddress
          (MIPPackage.transport eFrame 255 m.mipAddress m.data)]) := by
  have hready := hs.ready_of hx
  by_cases hl : ∃ i y j, N.link x i y j ∧ j.mipAddress = m.mipAddress
  · obtain ⟨i, y, j, hl, hj⟩ := hl
    obtain ⟨eFrame, hok⟩ := hready.read_neighbor hm.min hm.max hl hj.symm env
    exact Or.inl ⟨i, y, j, eFrame, hl, hj ▸ N.interface_owned (N.link_mem' hl), hok⟩
  · push Not at hl
    exact Or.inr (hready.read_far hm.min hm.max hl hw)

/-- **An answer arrives**: the package is sent one link further, or has nowhere to go. -/
theorem respond_cases (hs : s.Sound N) {nextHop : MIPAddress}
    {before after : List (Node × MIPAddress)} {before' after' : List (Waiting Node)}
    {w : Waiting Node} (hx : s.net.servers x = some server)
    (ha : s.answers = before ++ (x, nextHop) :: after) (hfirst : IsFirst Prod.fst x before)
    (hq : s.net.traffic.queued = before' ++ w :: after') (hnode : w.node = x)
    (hfirst' : IsFirst Waiting.node x before') (env : Env) :
    ∃ o m q, s.messages[w.id]? = some (o, m) ∧
      Ready N.toNetwork x { server with forwardQueue := q } ∧
      ((∃ i p, p.mHeader.tra = 3 ∧ p.mHeader.ttl = w.package.mHeader.ttl ∧
          Flying N.toNetwork o m ⟨w.id, x, (i : InterfaceRecord).rawSocket, p⟩ ∧
          server.handleEvent env (.forwardData (some nextHop)) = .ok
            ({ server with forwardQueue := q }, [.sendRaw i.rawSocket p])) ∨
        ((∀ n, ¬ N.Distance m.mipAddress n o) ∧
          server.handleEvent env (.forwardData (some nextHop)) = .ok
            ({ server with forwardQueue := q }, []))) := by
  have hready := hs.ready_of hx
  obtain ⟨entry, q, hr, hentry⟩ := hs.recv hx hq hnode hfirst'
  obtain ⟨hhop, _⟩ := hs.placed.pop ha hfirst hq hnode hfirst'
  obtain ⟨o, m, hm, _, hqueued⟩ := hs.placed.queued w (by rw [hq]; simp)
  rw [hqueued.carries.dstAddr] at hhop
  subst hnode
  refine ⟨o, m, q, hm, hready.pop hr, ?_⟩
  rcases hhop with ⟨n, i, y, j, hl, rfl, hdx, hdy⟩ | ⟨rfl, hnone⟩
  · obtain ⟨e, hok⟩ := hready.respond hr hl env
    rw [hentry] at hok
    refine Or.inl ⟨i, _, (hqueued.carries.load i e).tra, ?_, hqueued.send hl hdx hdy e w.id, hok⟩
    rw [mHeader_load]
  · refine Or.inr ⟨fun n hd => ?_, hready.respond_notFound hr env⟩
    cases hqueued with
    | origin _ ho _ _ => exact hnone n (ho ▸ hd)
    | transit hw _ => exact hnone _ hw.left

/-- a frame that is in flight has at most 40 words -/
theorem payloadBytes_flight (hs : s.Sound N) {f : Flight Node} (hf : f ∈ s.net.traffic.flying) :
    f.package.payloadBytes ≤ 160 := by
  obtain ⟨o, m, hm, hflying⟩ := hs.placed.flying f hf
  have hmax := (hs.sendable _ (List.mem_of_getElem? hm)).max
  obtain ⟨_, _, hway, _⟩ := hflying
  rw [hway.carries.payloadBytes]
  unfold calculateMipPayloadWords MIP_PAYLOAD_WORD
  dsimp only at hmax ⊢
  split <;> omega

/-- **A frame arrives**: it is delivered, waits for its next hop, or has come too far. -/
theorem arrive_cases (hs : s.Sound N) {f : Flight Node} (hf : f ∈ s.net.traffic.flying)
    (hl : N.link f.sender i y j) (hsock : (i.rawSocket : ℤ) = f.sock)
    (hy : s.net.servers y = some server) (hw : env.Writes) (pointer : Fin 8 → UInt8) :
    ∃ o m, s.messages[f.id]? = some (o, m) ∧
      ((∃ m', Received N.toNetwork o m y (m' : MIPDMessage).serialize ∧
          server.handleEvent env (.rawFrame j.rawSocket (sendtoRawMipPackage pointer f.package))
            = .ok (server, [.sendApp server.appSocket m'.serialize])) ∨
        ((∀ n, n ≤ 16 → ¬ N.Distance m.mipAddress n o) ∧
          server.handleEvent env (.rawFrame j.rawSocket (sendtoRawMipPackage pointer f.package))
            = .ok (server, [])) ∨
        ∃ p, m.mipAddress ∉ N.addresses y ∧ Queued N.toNetwork o m y p ∧
          p.mHeader.ttl.toNat + 1 = f.package.mHeader.ttl.toNat ∧
          server.handleEvent env (.rawFrame j.rawSocket (sendtoRawMipPackage pointer f.package))
            = .ok (server.push (env.clock 0) p, [.writeForward server.forwardSocket m.mipAddress p])) := by
  have hready := hs.ready_of hy
  obtain ⟨o, m, hm, hflying⟩ := hs.placed.flying f hf
  obtain ⟨k, n, hway, httl⟩ := hflying.at_end hl hsock
  have hj := N.link_mem' hl
  have hway' := hway.received
  have hp := receivePackage_sendto env.behind pointer (hs.payloadBytes_flight hf)
  refine ⟨o, m, hm, ?_⟩
  by_cases hn : n = 0
  · obtain ⟨m', ha, hd, hok⟩ := hready.arrive_own hj hp hway'.carries (hway'.own_iff.mpr hn)
    subst hn
    exact Or.inl ⟨m', ⟨hway.owner, ⟨k + 0, by omega, hway.whole⟩, m', ha ▸ hway.srcAddr, hd, rfl⟩, hok⟩
  · have hown := mt hway'.own_iff.mp hn
    by_cases hzero : f.package.mHeader.ttl = 0
    · refine Or.inr (Or.inl ⟨fun n' hle hd => ?_,
        hready.arrive_expired hj hp hway'.carries hown hzero⟩)
      have hwhole := hd.unique hway.whole
      rw [hzero] at httl
      have hk : 0 + k = 16 := httl
      omega
    · refine Or.inr (Or.inr ⟨_, fun hmem => hown (N.address_interface hmem), hway'.wait httl hzero,
        ?_, hready.arrive_far hj hp hway'.carries hown hzero hw⟩)
      exact toNat_decrementTtl hzero

/-! ## the step lemmas -/

theorem read (hs : s.Sound N) (hx : s.net.servers x = some server) (hw : env.Writes)
    (hm : Sendable N.toNetwork x m)
    (h : server.handleEvent env (.appData m.serialize) = .ok (server', effects)) :
    (({ s with messages := s.messages ++ [(x, m)] } : RelayNet Node).after x server'
      (s.net.traffic.read m.serialize) s.net.traffic.reads.length effects).Sound N := by
  have hready := hs.ready_of hx
  have hnet := NetStep.read (N := N.toNetwork) hx hready.app h
  rw [take_serialize hm.max] at hnet
  have hsound := hnet.sound (N := N.toUnicastNetwork) hs.net
  have hsend : ∀ a ∈ s.messages ++ [(x, m)], Sendable N.toNetwork a.1 a.2 :=
    List.forall_mem_append.mpr ⟨hs.sendable, List.forall_mem_singleton.mpr hm⟩
  have hid : (s.messages ++ [(x, m)])[s.net.traffic.reads.length]? = some (x, m) := by
    rw [hs.length_reads]
    exact List.getElem?_concat_length
  have hplaced := hs.placed.read x m
  rcases hs.read_cases hx hw hm with ⟨i, y, j, eFrame, hl, hy, hok⟩ | ⟨eFrame, hok⟩
  · obtain ⟨rfl, rfl⟩ := Prod.mk.inj (Except.ok.inj (hok.symm.trans h))
    refine ⟨hs.ready_update hready, hsound, hsend, ?_, ?_⟩
    · show Placed _ _ (Traffic.recordAll _ _ _ _) (s.lookups ++ []) s.answers (s.inbox ++ [])
      rw [Traffic.recordAll_send rfl, List.append_nil, List.append_nil]
      exact hplaced.transmit hid (Flying.intro (k := 1) hl rfl ⟨carries_transport _ _ m,
        Network.distance_zero.mpr hy, Network.distance_one hl hm.far hy,
        N.interface_owned (N.link_mem hl)⟩ rfl)
    · refine hs.accounted.read x m fun k => ?_
      show _ ≤ (Traffic.recordAll _ _ _ _).present k
      rw [Traffic.recordAll_send rfl, Traffic.present_transmit, hs.length_reads]
      exact le_rfl
  · obtain ⟨rfl, rfl⟩ := Prod.mk.inj (Except.ok.inj (hok.symm.trans h))
    refine ⟨hs.ready_update (hready.push rfl _), hsound, hsend, ?_, ?_⟩
    · show Placed _ _ (Traffic.enqueue _ _) _ s.answers (s.inbox ++ [])
      rw [List.append_nil]
      exact hplaced.enqueue hid hm.far (Queued.origin (carries_transport _ _ m) rfl rfl rfl)
    · refine hs.accounted.read x m fun k => ?_
      show _ ≤ (Traffic.enqueue _ _).present k
      rw [Traffic.present_enqueue, hs.length_reads]
      exact le_rfl

theorem respond (hs : s.Sound N) {nextHop : MIPAddress} {before after : List (Node × MIPAddress)}
    {before' after' : List (Waiting Node)} {w : Waiting Node} (hx : s.net.servers x = some server)
    (ha : s.answers = before ++ (x, nextHop) :: after) (hfirst : IsFirst Prod.fst x before)
    (hq : s.net.traffic.queued = before' ++ w :: after') (hnode : w.node = x)
    (hfirst' : IsFirst Waiting.node x before')
    (h : server.handleEvent env (.forwardData (some nextHop)) = .ok (server', effects)) :
    (({ s with answers := before ++ after } : RelayNet Node).after x server'
      { s.net.traffic with queued := before' ++ after' } w.id effects).Sound N := by
  have hsound := (NetStep.respond hx (hs.ready_of hx).forward hq hnode hfirst' h).sound
    (N := N.toUnicastNetwork) hs.net
  obtain ⟨_, hhole⟩ := hs.placed.pop ha hfirst hq hnode hfirst'
  obtain ⟨o, m, q, hm, hready, hcases⟩ := hs.respond_cases hx ha hfirst hq hnode hfirst' env
  rcases hcases with ⟨i, p, htra, _, hflying, hok⟩ | ⟨hnone, hok⟩
  · obtain ⟨rfl, rfl⟩ := Prod.mk.inj (Except.ok.inj (hok.symm.trans h))
    refine ⟨hs.ready_update hready, hsound, hs.sendable, ?_, ?_⟩
    · show Placed _ _ (Traffic.recordAll _ _ _ _) (s.lookups ++ []) (before ++ after) (s.inbox ++ [])
      rw [Traffic.recordAll_send htra, List.append_nil, List.append_nil]
      exact hhole.transmit hm hflying
    · refine hs.accounted.mono fun k => ?_
      show _ ≤ (Traffic.recordAll _ _ _ _).present k
      rw [Traffic.recordAll_send htra, Traffic.present_transmit, Traffic.present_of_queued hq]
  · obtain ⟨rfl, rfl⟩ := Prod.mk.inj (Except.ok.inj (hok.symm.trans h))
    refine ⟨hs.ready_update hready, hsound, hs.sendable, ?_, ?_⟩
    · show Placed _ _ _ (s.lookups ++ []) (before ++ after) (s.inbox ++ [])
      rw [List.append_nil, List.append_nil]
      exact hhole
    · exact hs.accounted.drop (Traffic.present_of_queued hq) hm fun n _ => hnone n

theorem arrive (hs : s.Sound N) {f : Flight Node} {pointer : Fin 8 → UInt8}
    {before after : List (Flight Node)} (hf : s.net.traffic.flying = before ++ f :: after)
    (hl : N.link f.sender i y j) (hsock : (i.rawSocket : ℤ) = f.sock)
    (hy : s.net.servers y = some server) (hw : env.Writes)
    (h : server.handleEvent env (.rawFrame j.rawSocket (sendtoRawMipPackage pointer f.package))
      = .ok (server', effects)) :
    (s.after y server' { s.net.traffic with flying := before ++ after } f.id effects).Sound N := by
  have hready := hs.ready_of hy
  have hhole := hs.placed.land hf
  have hmem : f ∈ s.net.traffic.flying := by
    rw [hf]
    simp
  have hintact := receivePackage_sendto env.behind pointer (hs.payloadBytes_flight hmem)
  have hsound := (NetStep.arrive hf hl hsock hintact hy h).sound (N := N.toUnicastNetwork) hs.net
  obtain ⟨o, m, hm, hcases⟩ := hs.arrive_cases hmem hl hsock hy hw pointer
  rcases hcases with ⟨m', hreceived, hok⟩ | ⟨hfar, hok⟩ | ⟨p, hown, hqueued, _, hok⟩
  · obtain ⟨rfl, rfl⟩ := Prod.mk.inj (Except.ok.inj (hok.symm.trans h))
    refine ⟨hs.ready_update hready, hsound, hs.sendable, ?_, ?_⟩
    · show Placed _ _ (Traffic.deliver _ _ _) (s.lookups ++ []) s.answers _
      rw [List.append_nil]
      exact hhole.deliver hm hreceived
    · refine hs.accounted.mono fun k => ?_
      show _ ≤ (Traffic.deliver _ _ _).present k
      rw [Traffic.present_deliver, Traffic.present_of_flying hf]
  · obtain ⟨rfl, rfl⟩ := Prod.mk.inj (Except.ok.inj (hok.symm.trans h))
    refine ⟨hs.ready_update hready, hsound, hs.sendable, ?_, ?_⟩
    · show Placed _ _ _ (s.lookups ++ []) s.answers (s.inbox ++ [])
      rw [List.append_nil, List.append_nil]
      exact hhole
    · exact hs.accounted.drop (Traffic.present_of_flying hf) hm hfar
  · obtain ⟨rfl, rfl⟩ := Prod.mk.inj (Except.ok.inj (hok.symm.trans h))
    refine ⟨hs.ready_update (hready.push hqueued.carries.tra _), hsound, hs.sendable, ?_, ?_⟩
    · show Placed _ _ (Traffic.enqueue _ _) _ s.answers (s.inbox ++ [])
      rw [List.append_nil]
      exact hhole.enqueue hm hown hqueued
    · refine hs.accounted.mono fun k => ?_
      show _ ≤ (Traffic.enqueue _ _).present k
      rw [Traffic.present_enqueue, Traffic.present_of_flying hf]

end RelayNet.Sound

/-- **Every step keeps the invariant.** -/
theorem RelayStep.sound {s s' : RelayNet Node} (h : RelayStep N.toNetwork s s') (hs : s.Sound N) :
    s'.Sound N := by
  cases h with
  | read hx hw hm h => exact hs.read hx hw hm h
  | answer hq hfirst hr =>
    exact ⟨hs.ready, hs.net, hs.sendable, hs.placed.answer hq hfirst fun hd => hr.nextHop hd,
      hs.accounted⟩
  | respond hx ha hfirst hq hnode hfirst' h => exact hs.respond hx ha hfirst hq hnode hfirst' h
  | arrive hf hl hsock hy hw h => exact hs.arrive hf hl hsock hy hw h

/-! ## idle steps -/

theorem lookupsOf_control {effects : List Effect} (h : ∀ e ∈ effects, e.IsControl) (x : Node) :
    lookupsOf x effects = [] := by
  refine List.filterMap_eq_nil_iff.mpr fun e he => ?_
  cases e with
  | writeForward fd d p => exact absurd (h _ he) id
  | sendRaw sock p => rfl
  | writeRoute fd bytes => rfl
  | sendApp fd bytes => rfl

theorem inboxOf_control {effects : List Effect} (h : ∀ e ∈ effects, e.IsControl) (x : Node)
    (id : ℕ) : inboxOf x id effects = [] := by
  refine List.filterMap_eq_nil_iff.mpr fun e he => ?_
  cases e with
  | sendApp fd bytes => exact absurd (h _ he) (fun h => h)
  | sendRaw sock p => rfl
  | writeRoute fd bytes => rfl
  | writeForward fd d p => rfl

/-- an idle step changes one server only -/
theorem IdleStep.eq {N : Network Node} {s s' : RelayNet Node} (h : IdleStep N s s') :
    ∃ x server', Ready N x server' ∧
      s' = { s with net := ⟨Function.update s.net.servers x (some server'), s.net.traffic⟩ } := by
  obtain @⟨x, _, _, server, server', effects, hx, hev, h, hready⟩ := h
  obtain ⟨_, hcontrol⟩ := hev.control h
  refine ⟨x, server', hready, ?_⟩
  rw [RelayNet.after, MipNet.after, Traffic.recordAll_control hcontrol, lookupsOf_control hcontrol,
    inboxOf_control hcontrol, List.append_nil, List.append_nil]

theorem IdleStep.sound {s s' : RelayNet Node} (h : IdleStep N.toNetwork s s') (hs : s.Sound N) :
    s'.Sound N := by
  have hnet : s'.net.Sound N.toUnicastNetwork := by
    cases h with
    | intro hx hev h hready => exact (NetStep.internal hx hev h).sound (N := N.toUnicastNetwork) hs.net
  obtain ⟨x, server', hready, rfl⟩ := h.eq
  exact ⟨hs.ready_update hready, hnet, hs.sendable, hs.placed, hs.accounted⟩

end

end MipStack
