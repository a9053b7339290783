import MipStack.Library.Lanes
import MipStack.Network.AtMostOnce
import MipStack.Network.Asynchronous
import MipStack.Network.ReadyServer
import MipStack.Routerd.Server

/-!
# Applications, mipds and routerds at work

Every mipd is ready, every routerd answers from a table of shortest routes.  Messages, lookups,
answers and frames are under way at the same time and are processed in any order, each socket in the
order in which it was written.

* `RoutedNetwork`      every address of a node is on one of its interfaces;
* `Settled N x t`      `t` holds the shortest routes of `x` and no others; `settled_of_phases`;
* `NextHop N x d hop`  what a settled routerd answers, `Settled.nextHop`;
* `RelayNet`           the traffic of the mipds, the lookups and answers between each mipd and its
                       routerd, and what the applications have written and received;
* `RelayStep`          **one step**: a message is read, a lookup is answered, an answer or a frame
                       arrives;
* `IdleStep`           anything else a mipd does that leaves it ready.
-/

set_option linter.unusedSectionVars false

namespace MipStack
open Library

structure RoutedNetwork (Node : Type) extends WiredNetwork Node where
  address_interface : ∀ {x a}, a ∈ addresses x → ∃ i ∈ interfaces x, i.mipAddress = a

section
variable {Node : Type} [DecidableEq Node]

/-! ## settled tables -/

structure Settled (N : Network Node) (x : Node) (t : RouterTable) : Prop where
  known : ∀ d n, N.Distance d n x → ∃ e, t.get d = some e ∧
    (0 < n → ∃ i y j, N.link x i y j ∧ j.mipAddress = e.nextHop ∧ N.Distance d (n - 1) y)
  shortest : ∀ d e, t.get d = some e → N.Distance d e.cost.toNat x

/-- **The exchange of routerd settles the tables.** -/
theorem settled_of_phases {N : SmallNetwork Node} {k : ℕ} {s : RoutingState Node} (h : Phases N k s)
    (hk : 63 ≤ k) (x : Node) : Settled N.toNetwork x (s.tables x) := by
  refine ⟨fun d n hd => ?_, fun d e he => h.distance_of_get hk he⟩
  have hn := N.distance_lt hd
  obtain ⟨e, he, _, hnext⟩ := h.get_of_distance (by omega) hd
  exact ⟨e, he, hnext⟩

/-- the next hop of `x` on a shortest way to `d`, 255 where there is none -/
def NextHop (N : Network Node) (x : Node) (d hop : MIPAddress) : Prop :=
  (∃ n i y j, N.link x i y j ∧ j.mipAddress = hop ∧ N.Distance d (n + 1) x ∧ N.Distance d n y) ∨
  (hop = 255 ∧ ∀ n, ¬ N.Distance d n x)

theorem Settled.nextHop {N : WiredNetwork Node} {x : Node} {r : RouterServer}
    (h : Settled N.toNetwork x r.table) {d : MIPAddress} (hd : d ∉ N.addresses x) :
    NextHop N.toNetwork x d (r.handleForwardingRequest (some d)) := by
  show NextHop _ x d (r.table.getNextHop d)
  by_cases hex : ∃ n, N.Distance d n x
  · obtain ⟨n, hn⟩ := hex
    obtain ⟨z, _, hz⟩ := hn.1
    have hne : d ≠ MIP_BROADCAST_ADDRESS := N.unicast hz
    obtain ⟨e, he, hnext⟩ := h.known d n hn
    cases n with
    | zero => exact absurd (hopsTo_zero.mp hn.1) hd
    | succ n =>
      obtain ⟨i, y, j, hl, hj, hy⟩ := hnext n.succ_pos
      refine Or.inl ⟨n, i, y, j, hl, ?_, hn, hy⟩
      rw [MIPRouteTable.getNextHop, if_neg hne, he]
      exact hj
  · refine Or.inr ⟨?_, fun n hn => hex ⟨n, hn⟩⟩
    have hnone : r.table.get d = none := by
      cases he : r.table.get d with
      | none => rfl
      | some e => exact absurd ⟨_, h.shortest d e he⟩ hex
    rw [MIPRouteTable.getNextHop, hnone]
    split <;> rfl

/-! ## the network -/

/-- `lookups` and `answers` are under way between a node's mipd and routerd, `inbox` holds what the
applications have received and `messages` what they have written, a message's number being its
position -/
structure RelayNet (Node : Type) where
  net : MipNet Node
  lookups : List (Node × MIPAddress)
  answers : List (Node × MIPAddress)
  inbox : List (Node × ℕ × List UInt8)
  messages : List (Node × MIPDMessage)

def lookupsOf (x : Node) (effects : List Effect) : List (Node × MIPAddress) :=
  effects.filterMap fun
    | .writeForward _ d _ => some (x, d)
    | _ => none

def inboxOf (x : Node) (id : ℕ) (effects : List Effect) : List (Node × ℕ × List UInt8) :=
  effects.filterMap fun
    | .sendApp _ bytes => some (x, id, bytes)
    | _ => none

/-- the mipd of `x` has handled an event that concerns the message `id` -/
def RelayNet.after (s : RelayNet Node) (x : Node) (server : MIPDServer) (t : Traffic Node) (id : ℕ)
    (effects : List Effect) : RelayNet Node :=
  { s with
    net := s.net.after x server t id effects
    lookups := s.lookups ++ lookupsOf x effects
    inbox := s.inbox ++ inboxOf x id effects }

/-- a message that one `recv` reads, that fits into a frame, and that is not for the node itself: one
that is would end its mipd -/
structure Sendable (N : Network Node) (x : Node) (m : MIPDMessage) : Prop where
  min : 13 ≤ m.data.length
  max : m.data.length ≤ 160
  far : m.mipAddress ∉ N.addresses x

/-- **One step.**  The applications write sendable messages only, one `recv` for each. -/
inductive RelayStep (N : Network Node) : RelayNet Node → RelayNet Node → Prop
  | read {s : RelayNet Node} {x : Node} {env : Env} {m : MIPDMessage} {server server' : MIPDServer}
      {effects : List Effect} (hx : s.net.servers x = some server) (hw : env.Writes)
      (hm : Sendable N x m)
      (h : server.handleEvent env (.appData m.serialize) = .ok (server', effects)) :
      RelayStep N s (({ s with messages := s.messages ++ [(x, m)] } : RelayNet Node).after x server'
        (s.net.traffic.read m.serialize) s.net.traffic.reads.length effects)
  /-- routerd answers the oldest lookup of `x` -/
  | answer {s : RelayNet Node} {x : Node} {d : MIPAddress} {r : RouterServer}
      {before after : List (Node × MIPAddress)} (hq : s.lookups = before ++ (x, d) :: after)
      (hfirst : IsFirst Prod.fst x before) (hr : Settled N x r.table) :
      RelayStep N s { s with
        lookups := before ++ after
        answers := s.answers ++ [(x, r.handleForwardingRequest (some d))] }
  /-- mipd reads the oldest answer, for the package that has waited longest -/
  | respond {s : RelayNet Node} {x : Node} {env : Env} {nextHop : MIPAddress}
      {server server' : MIPDServer} {effects : List Effect} {before after : List (Node × MIPAddress)}
      {before' after' : List (Waiting Node)} {w : Waiting Node} (hx : s.net.servers x = some server)
      (ha : s.answers = before ++ (x, nextHop) :: after) (hfirst : IsFirst Prod.fst x before)
      (hq : s.net.traffic.queued = before' ++ w :: after') (hnode : w.node = x)
      (hfirst' : IsFirst Waiting.node x before')
      (h : server.handleEvent env (.forwardData (some nextHop)) = .ok (server', effects)) :
      RelayStep N s (({ s with answers := before ++ after } : RelayNet Node).after x server'
        { s.net.traffic with queued := before' ++ after' } w.id effects)
  /-- the bytes of a frame arrive at the other end of its link -/
  | arrive {s : RelayNet Node} {y : Node} {env : Env} {i j : InterfaceRecord} {f : Flight Node}
      {pointer : Fin 8 → UInt8} {server server' : MIPDServer} {effects : List Effect}
      {before after : List (Flight Node)} (hf : s.net.traffic.flying = before ++ f :: after)
      (hl : N.link f.sender i y j) (hsock : (i.rawSocket : ℤ) = f.sock)
      (hy : s.net.servers y = some server) (hw : env.Writes)
      (h : server.handleEvent env (.rawFrame j.rawSocket (sendtoRawMipPackage pointer f.package))
        = .ok (server', effects)) :
      RelayStep N s (s.after y server' { s.net.traffic with flying := before ++ after } f.id effects)

/-- a timer, a MIP-ARP frame, a route table, a new connection, a line on stdin -/
inductive IdleStep (N : Network Node) : RelayNet Node → RelayNet Node → Prop
  | intro {s : RelayNet Node} {x : Node} {env : Env} {ev : Event} {server server' : MIPDServer}
      {effects : List Effect} (hx : s.net.servers x = some server) (hev : ev.IsLocal server)
      (h : server.handleEvent env ev = .ok (server', effects)) (hready : Ready N x server') :
      IdleStep N s (s.after x server' s.net.traffic s.net.traffic.reads.length effects)

/-- the mipds are ready, and no message has been written yet -/
structure RelayNet.Initial (N : Network Node) (s : RelayNet Node) : Prop where
  ready : ∀ x, ∃ server, s.net.servers x = some server ∧ Ready N x server ∧ server.forwardQueue = []
  idle : s.net.traffic = ⟨[], [], [], [], []⟩ ∧ s.lookups = [] ∧ s.answers = [] ∧ s.inbox = [] ∧
    s.messages = []

end

end MipStack
