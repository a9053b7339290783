import MipStack.Mipd.Link
import MipStack.Mipd.Server
import MipStack.Network.Topology

/-!
# Transport packages on their way through a network of mipds

* `UnicastNetwork`     no interface has address 255;
* `Traffic`            what the applications have written, where each message is now, and every
                       frame sent so far; `Traffic.record` notes the effects of one event;
* `NetStep`            **one step of the network**: a mipd starts, ends or handles an event, a frame
                       arrives or is lost;
* `Carries`, `Journey`, `Waits`   a package that carries a message, the frames sent for it, and a
                       package in a forward queue;
* `Waits.send`         a waiting package that is sent continues its journey.

A message is known by the number of the `recv` call that has read its first byte; the numbers are
not on the wire.  A frame is received by one node or lost.  That it is received intact is a condition
of the step: of at most 40 words it always is (`receivePackage_sendto`), of more words only if the
heap behind the receive buffer holds the rest of them (`exists_receivePackage`).  The answers of
routerd and all frames that are not transport frames may be anything at any time.
-/

namespace MipStack
open Library

structure UnicastNetwork (Node : Type) extends Network Node where
  interface_unicast : ∀ {x i}, i ∈ interfaces x → i.mipAddress ≠ 255

def AddressedNetwork.toUnicastNetwork {Node : Type} (N : AddressedNetwork Node) :
    UnicastNetwork Node :=
  { N with interface_unicast := fun h => N.unicast (N.interface_owned h) }

/-! ## frames -/

structure Flight (Node : Type) where
  id : ℕ
  sender : Node
  sock : ℤ
  package : MIPPackage

structure Waiting (Node : Type) where
  node : Node
  id : ℕ
  package : MIPPackage

/-! ## the state of a network -/

/-- `reads` are the bytes returned by each `recv` on an application socket, `transmissions` all
frames sent so far -/
structure Traffic (Node : Type) where
  reads : List (List UInt8)
  queued : List (Waiting Node)
  flying : List (Flight Node)
  delivered : List (Node × ℕ)
  transmissions : List (Flight Node)

namespace Traffic
variable {Node : Type}

def read (t : Traffic Node) (bytes : List UInt8) : Traffic Node :=
  { t with reads := t.reads ++ [bytes] }

def enqueue (t : Traffic Node) (w : Waiting Node) : Traffic Node :=
  { t with queued := t.queued ++ [w] }

def transmit (t : Traffic Node) (f : Flight Node) : Traffic Node :=
  { t with flying := t.flying ++ [f], transmissions := t.transmissions ++ [f] }

def deliver (t : Traffic Node) (x : Node) (id : ℕ) : Traffic Node :=
  { t with delivered := t.delivered ++ [(x, id)] }

/-- an effect of node `x` that concerns the message `id` -/
def record (x : Node) (id : ℕ) (t : Traffic Node) : Effect → Traffic Node
  | .sendRaw sock p => if p.mHeader.tra = 3 then t.transmit ⟨id, x, sock, p⟩ else t
  | .writeRoute _ _ => t
  | .writeForward _ _ p => t.enqueue ⟨x, id, p⟩
  | .sendApp _ _ => t.deliver x id

def recordAll (t : Traffic Node) (x : Node) (id : ℕ) (effects : List Effect) : Traffic Node :=
  effects.foldl (record x id) t

/-- the copies of a message, in forward queues and in flight -/
def copies (t : Traffic Node) (id : ℕ) : ℕ :=
  t.queued.countP (fun w => w.id = id) + t.flying.countP (fun f => f.id = id)

def deliveries (t : Traffic Node) (id : ℕ) : ℕ := t.delivered.countP fun d => d.2 = id

def log (t : Traffic Node) (id : ℕ) : List (Flight Node) :=
  t.transmissions.filter fun f => f.id = id

/-- the message that mipd finds in the bytes it has read; short reads are dropped -/
def parsed (t : Traffic Node) (id : ℕ) : Option MIPDMessage :=
  t.reads[id]?.bind fun bytes =>
    if SIZEOF_MIPDMESSAGE ≤ bytes.length then MIPDMessage.deserialize bytes else none

end Traffic

structure MipNet (Node : Type) where
  servers : Node → Option MIPDServer
  traffic : Traffic Node

section
variable {Node : Type} [DecidableEq Node]

/-- the packages in the forward queue of `x`, oldest first -/
def Traffic.packagesAt (t : Traffic Node) (x : Node) : List MIPPackage :=
  (t.queued.filter fun w => w.node = x).map Waiting.package

def MipNet.start : MipNet Node := ⟨fun _ => none, ⟨[], [], [], [], []⟩⟩

/-- the server of `x` has handled an event that concerns the message `id` -/
def MipNet.after (s : MipNet Node) (x : Node) (server : MIPDServer) (t : Traffic Node) (id : ℕ)
    (effects : List Effect) : MipNet Node :=
  ⟨Function.update s.servers x (some server), t.recordAll x id effects⟩

/-- events that do not concern a transport package -/
def Event.IsLocal (s : MIPDServer) : Event → Prop
  | .forwardData (some _) => s.forwardSocket = -1
  | .rawFrame _ frame => (receivedHeader frame).tra ≠ 3
  | .appData _ => s.appSocket = -1
  | _ => True

/-- **One step.**  An event that ends the daemon is a step of kind `stop`. -/
inductive NetStep (N : Network Node) : MipNet Node → MipNet Node → Prop
  | boot {s : MipNet Node} {x : Node} {now : ℤ} (h : s.servers x = none) :
      NetStep N s { s with
        servers := Function.update s.servers x (some (MIPDServer.start (N.interfaces x) now)) }
  /-- the daemon ends, its queue is lost -/
  | stop {s : MipNet Node} {x : Node} :
      NetStep N s ⟨Function.update s.servers x none,
        { s.traffic with queued := s.traffic.queued.filter fun w => w.node ≠ x }⟩
  | lose {s : MipNet Node} {before after : List (Flight Node)} {f : Flight Node}
      (h : s.traffic.flying = before ++ f :: after) :
      NetStep N s { s with traffic := { s.traffic with flying := before ++ after } }
  /-- the number is that of no message -/
  | internal {s : MipNet Node} {x : Node} {env : Env} {ev : Event} {server server' : MIPDServer}
      {effects : List Effect} (hx : s.servers x = some server) (hev : ev.IsLocal server)
      (h : server.handleEvent env ev = .ok (server', effects)) :
      NetStep N s (s.after x server' s.traffic s.traffic.reads.length effects)
  /-- mipd reads from its application -/
  | read {s : MipNet Node} {x : Node} {env : Env} {available : List UInt8}
      {server server' : MIPDServer} {effects : List Effect} (hx : s.servers x = some server)
      (happ : server.appSocket ≠ -1)
      (h : server.handleEvent env (.appData available) = .ok (server', effects)) :
      NetStep N s (s.after x server' (s.traffic.read (available.take MAX_MIPMESSAGE_DATA_SIZE))
        s.traffic.reads.length effects)
  /-- routerd answers; the oldest package of the queue is concerned -/
  | respond {s : MipNet Node} {x : Node} {env : Env} {nextHop : MIPAddress}
      {server server' : MIPDServer} {effects : List Effect} {before after : List (Waiting Node)}
      {w : Waiting Node} (hx : s.servers x = some server) (hf : server.forwardSocket ≠ -1)
      (hq : s.traffic.queued = before ++ w :: after) (hw : w.node = x)
      (hfirst : ∀ v ∈ before, v.node ≠ x)
      (h : server.handleEvent env (.forwardData (some nextHop)) = .ok (server', effects)) :
      NetStep N s (s.after x server' { s.traffic with queued := before ++ after } w.id effects)
  /-- the bytes of a frame arrive at the other end of its link, and are received intact -/
  | arrive {s : MipNet Node} {y : Node} {env : Env} {i j : InterfaceRecord} {f : Flight Node}
      {pointer : Fin 8 → UInt8} {server server' : MIPDServer} {effects : List Effect}
      {before after : List (Flight Node)} (hf : s.traffic.flying = before ++ f :: after)
      (hl : N.link f.sender i y j) (hsock : (i.rawSocket : ℤ) = f.sock)
      (hintact : receivePackage env.behind (sendtoRawMipPackage pointer f.package)
        = .ok f.package.wire.received) (hy : s.servers y = some server)
      (h : server.handleEvent env (.rawFrame j.rawSocket (sendtoRawMipPackage pointer f.package))
        = .ok (server', effects)) :
      NetStep N s (s.after y server' { s.traffic with flying := before ++ after } f.id effects)

end

/-! ## packages that carry a message -/

structure Carries (m : MIPDMessage) (p : MIPPackage) : Prop where
  tra : p.mHeader.tra = 3
  dstAddr : p.mHeader.dstAddr = m.mipAddress
  payloadLen : p.mHeader.payloadLen = BitVec.ofNat 9 (calculateMipPayloadWords m.data.length)
  payload : p.wire.message = payload m.data

section
variable {m : MIPDMessage} {p q : MIPPackage}

theorem Carries.payloadBytes (h : Carries m p) :
    p.payloadBytes = calculateMipPayloadWords m.data.length * MIP_PAYLOAD_WORD := by
  have hle : calculateMipPayloadWords m.data.length ≤ 374 := calculateMipPayloadWords_le m.size
  rw [MIPPackage.payloadBytes, h.payloadLen, BitVec.toNat_ofNat, Nat.mod_eq_of_lt]
  omega

theorem carries_transport (eFrame : EtherFrame) (srcAddr : MIPAddress) (m : MIPDMessage) :
    Carries m (MIPPackage.transport eFrame srcAddr m.mipAddress m.data) := by
  refine ⟨rfl, rfl, rfl, ?_⟩
  have hle : calculateMipPayloadWords m.data.length ≤ 374 := calculateMipPayloadWords_le m.size
  show (MipStack.payload m.data).takeD ((BitVec.ofNat 9 (calculateMipPayloadWords m.data.length)).toNat
    * MIP_PAYLOAD_WORD) 0 = MipStack.payload m.data
  rw [BitVec.toNat_ofNat, Nat.mod_eq_of_lt (by omega), MipStack.payload]
  exact takeD_takeD 0 m.data le_rfl

theorem Carries.congr (h : Carries m p) (htra : q.mHeader.tra = p.mHeader.tra)
    (hdst : q.mHeader.dstAddr = p.mHeader.dstAddr)
    (hlen : q.mHeader.payloadLen = p.mHeader.payloadLen) (hm : q.wire.message = p.wire.message) :
    Carries m q :=
  ⟨htra.trans h.tra, hdst.trans h.dstAddr, hlen.trans h.payloadLen, hm.trans h.payload⟩

/-- a frame that arrives carries what has been sent -/
theorem Carries.arrived (h : Carries m p) : Carries m p.wire.received := by
  refine h.congr rfl rfl rfl ?_
  have hle : calculateMipPayloadWords m.data.length ≤ 374 := calculateMipPayloadWords_le m.size
  have hbytes : p.payloadBytes ≤ PAYLOAD_MAX_WORD_NUM * MIP_PAYLOAD_WORD := by
    rw [h.payloadBytes, PAYLOAD_MAX_WORD_NUM]
    exact Nat.mul_le_mul_right _ hle
  show ((p.message.takeD p.payloadBytes 0).takeD _ 0).takeD p.payloadBytes 0 = _
  rw [takeD_takeD 0 _ hbytes]
  exact takeD_takeD 0 _ le_rfl

theorem Carries.decrementTtl (h : Carries m p) : Carries m (MIPDServer.decrementTtl p) :=
  h.congr rfl rfl rfl rfl

theorem mHeader_load (i : InterfaceRecord) (e : MipArpCacheEntry) (p : MIPPackage) :
    (MIPDServer.load i e p).mHeader = { p.mHeader with
      srcAddr := if p.mHeader.srcAddr = 255 then i.mipAddress else p.mHeader.srcAddr } := by
  unfold MIPDServer.load
  dsimp only
  split <;> rfl

theorem Carries.load (h : Carries m p) (i : InterfaceRecord) (e : MipArpCacheEntry) :
    Carries m (MIPDServer.load i e p) := by
  have hbytes : (MIPDServer.load i e p).payloadBytes = p.payloadBytes := by
    rw [MIPPackage.payloadBytes, mHeader_load]
    rfl
  refine h.congr (by rw [mHeader_load]) (by rw [mHeader_load]) (by rw [mHeader_load]) ?_
  show p.message.takeD (MIPDServer.load i e p).payloadBytes 0 = p.message.takeD p.payloadBytes 0
  rw [hbytes]

end

/-! ## journeys -/

section
variable {Node : Type}

def Network.AddressOn (N : Network Node) (x : Node) (sock : ℤ) (a : MIPAddress) : Prop :=
  ∃ i ∈ N.interfaces x, (i.rawSocket : ℤ) = sock ∧ i.mipAddress = a

/-- **The frames sent for a message**, in order. -/
inductive Journey (N : Network Node) (m : MIPDMessage) : List (Flight Node) → Prop
  | nil : Journey N m []
  | first {f : Flight Node} (hc : Carries m f.package) (httl : f.package.mHeader.ttl = 15)
      (hsrc : N.AddressOn f.sender f.sock f.package.mHeader.srcAddr) : Journey N m ([] ++ [f])
  | next {l : List (Flight Node)} {f g : Flight Node} (h : Journey N m (l ++ [f]))
      (hc : Carries m g.package)
      (httl : g.package.mHeader.ttl.toNat + 1 = f.package.mHeader.ttl.toNat)
      (hsrc : g.package.mHeader.srcAddr = f.package.mHeader.srcAddr) :
      Journey N m (l ++ [f] ++ [g])

/-- a package in a forward queue, `l` being the frames sent for it so far -/
inductive Waits (m : MIPDMessage) : List (Flight Node) → MIPPackage → Prop
  | origin {p : MIPPackage} (hc : Carries m p) (httl : p.mHeader.ttl = 15)
      (hsrc : p.mHeader.srcAddr = 255) : Waits m [] p
  | underway {l : List (Flight Node)} {f : Flight Node} {p : MIPPackage} (hc : Carries m p)
      (httl : p.mHeader.ttl.toNat + 1 = f.package.mHeader.ttl.toNat)
      (hsrc : p.mHeader.srcAddr = f.package.mHeader.srcAddr) : Waits m (l ++ [f]) p

variable {N : Network Node} {m : MIPDMessage} {l : List (Flight Node)} {f g : Flight Node}

theorem Journey.carries (h : Journey N m l) : ∀ f ∈ l, Carries m f.package := by
  induction h with
  | nil => exact fun f hf => absurd hf List.not_mem_nil
  | first hc httl hsrc => simpa using hc
  | next h hc httl hsrc ih =>
    intro g hg
    rcases List.mem_append.mp hg with hold | hnew
    · exact ih g hold
    · rw [List.mem_singleton.mp hnew]
      exact hc

/-- the TTL falls by one with every link -/
theorem Journey.ttl (h : Journey N m l) :
    ∀ k f, l[k]? = some f → f.package.mHeader.ttl.toNat + k = 15 := by
  induction h with
  | nil => exact fun k f hf => absurd hf (by simp)
  | @first f hc httl hsrc =>
    intro k g hg
    obtain ⟨hlt, hk⟩ := List.getElem?_eq_some_iff.mp hg
    obtain rfl : k = 0 := by simpa using hlt
    obtain rfl : f = g := hk
    rw [httl]
    rfl
  | @next l f g h hc httl hsrc ih =>
    intro k g' hg
    obtain ⟨hlt, hk⟩ := List.getElem?_eq_some_iff.mp hg
    have hlen : (l ++ [f] ++ [g]).length = l.length + 2 := by simp
    rcases Nat.lt_or_ge k (l.length + 1) with hold | hlast
    · have hin : k < (l ++ [f]).length := by simpa using hold
      exact ih k g' ((List.getElem?_append_left hin).symm.trans hg)
    · obtain rfl : k = l.length + 1 := by omega
      obtain rfl : g = g' := by simpa using hg
      have := ih l.length f (by simp)
      omega

/-- **At most sixteen links.** -/
theorem Journey.length_le (h : Journey N m l) : l.length ≤ 16 := by
  by_contra hgt
  have h16 : 16 < l.length := by omega
  have := h.ttl 16 l[16] (List.getElem?_eq_getElem h16)
  omega

theorem Journey.srcAddr (h : Journey N m l) : ∀ first, l.head? = some first →
    ∀ f ∈ l, N.AddressOn first.sender first.sock f.package.mHeader.srcAddr := by
  induction h with
  | nil => exact fun first hfirst => absurd hfirst (by simp)
  | @first f hc httl hsrc =>
    intro first hfirst g hg
    obtain rfl : f = first := by simpa using hfirst
    obtain rfl : g = f := by simpa using hg
    exact hsrc
  | @next l f g h hc httl hsrc ih =>
    intro first hfirst g' hg
    have hhead : (l ++ [f]).head? = some first := by
      rw [← hfirst, List.head?_append_of_ne_nil (l ++ [f]) (by simp)]
    rcases List.mem_append.mp hg with hold | hnew
    · exact ih first hhead g' hold
    · rw [List.mem_singleton.mp hnew, hsrc]
      exact ih first hhead f (by simp)

end

section
variable {Node : Type} {N : UnicastNetwork Node} {m : MIPDMessage} {l : List (Flight Node)}
  {p : MIPPackage}

theorem Journey.srcAddr_ne {f : Flight Node} (h : Journey N.toNetwork m (l ++ [f])) :
    f.package.mHeader.srcAddr ≠ 255 := by
  obtain ⟨first, hfirst⟩ : ∃ first, (l ++ [f]).head? = some first := by
    rw [← Option.isSome_iff_exists]
    simp
  obtain ⟨i, hi, _, ha⟩ := h.srcAddr first hfirst f (by simp)
  rw [← ha]
  exact N.interface_unicast hi

theorem Waits.carries (hw : Waits m l p) : Carries m p := by
  cases hw with
  | origin hc httl hsrc => exact hc
  | underway hc httl hsrc => exact hc

/-- **A waiting package that is sent continues its journey.** -/
theorem Waits.send (hw : Waits m l p) (hj : Journey N.toNetwork m l) {x : Node} {sock : ℤ}
    {i : InterfaceRecord} (hi : i ∈ N.interfaces x) (hsock : (i.rawSocket : ℤ) = sock)
    (e : MipArpCacheEntry) (id : ℕ) :
    Journey N.toNetwork m (l ++ [⟨id, x, sock, MIPDServer.load i e p⟩]) := by
  cases hw with
  | origin hc httl hsrc =>
    refine Journey.first (hc.load i e) ?_ ⟨i, hi, hsock, ?_⟩
    · show (MIPDServer.load i e p).mHeader.ttl = 15
      rw [mHeader_load]
      exact httl
    · show i.mipAddress = (MIPDServer.load i e p).mHeader.srcAddr
      rw [mHeader_load]
      exact (if_pos hsrc).symm
  | @underway l f p hc httl hsrc =>
    have hne : p.mHeader.srcAddr ≠ 255 := hsrc ▸ hj.srcAddr_ne
    refine Journey.next hj (hc.load i e) ?_ ?_
    · show (MIPDServer.load i e p).mHeader.ttl.toNat + 1 = f.package.mHeader.ttl.toNat
      rw [mHeader_load]
      exact httl
    · show (MIPDServer.load i e p).mHeader.srcAddr = f.package.mHeader.srcAddr
      rw [mHeader_load]
      exact (if_neg hne).trans hsrc

theorem Journey.wait {f : Flight Node} (h : Journey N.toNetwork m (l ++ [f]))
    (httl : f.package.mHeader.ttl ≠ 0) :
    Waits m (l ++ [f]) (MIPDServer.decrementTtl f.package.wire.received) := by
  have hc : Carries m f.package := h.carries f (by simp)
  refine Waits.underway hc.arrived.decrementTtl ?_ rfl
  show (f.package.mHeader.ttl - 1).toNat + 1 = f.package.mHeader.ttl.toNat
  have hpos : f.package.mHeader.ttl.toNat ≠ 0 := fun h0 => httl (BitVec.eq_of_toNat_eq h0)
  have hlt : f.package.mHeader.ttl.toNat < 16 := f.package.mHeader.ttl.isLt
  rw [BitVec.toNat_sub]
  show (16 - 1 + f.package.mHeader.ttl.toNat) % 16 + 1 = _
  omega

end

end MipStack
