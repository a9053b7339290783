import MipStack.Network.Topology
import Mathlib.Logic.Function.Basic

/-!
# Asynchronous exchange of route tables

A package that was sent stays in the network: it may be delivered at any later time, several times
or never, and arrives as it was sent (the receive buffer of mipd holds tables of up to 20 entries).
A broadcast may poison each interface against any address.

* `Exchange N`         the broadcasts and deliveries of a network;
* `RoutingStep N`      these steps and the removal of old entries;
* `Exchange.within`    without expiry costs never rise and no destination is lost;
* `Sound`              the invariant of tables and packages: every route is justified by a walk;
* `route_cost_realised`   **the costs in all reachable tables are lengths of walks.**
-/

set_option linter.unusedSectionVars false

namespace MipStack
open Library

structure Sent (Node : Type) where
  sender : Node
  interface : InterfaceRecord
  package : MIPRouteTablePackage

structure RoutingState (Node : Type) where
  tables : Node → RouterTable
  packages : List (Sent Node)

section
variable {Node : Type} [DecidableEq Node]

/-- every routerd has been created from its addresses, nothing has been sent -/
def Network.Initial (N : Network Node) (s : RoutingState Node) : Prop :=
  s.packages = [] ∧ ∀ x, ∃ clock, s.tables x = RouterTable.create clock (N.addresses x)

def Network.broadcast (N : Network Node) (x : Node) (p : MIPRouteTablePackage)
    (poison : InterfaceRecord → MIPAddress) : List (Sent Node) :=
  (N.interfaces x).map fun i =>
    ⟨x, i, poisonReverse { p with tableAddress := i.mipAddress } (poison i)⟩

/-- a broadcast, or the delivery of a package over a link of the interface it was sent on -/
inductive Exchange (N : Network Node) : RoutingState Node → RoutingState Node → Prop
  | broadcast {s : RoutingState Node} {x : Node} {p : MIPRouteTablePackage}
      (poison : InterfaceRecord → MIPAddress) (h : (s.tables x).createPackage = some p) :
      Exchange N s { s with packages := s.packages ++ N.broadcast x p poison }
  | deliver {s : RoutingState Node} {m : Sent Node} {y : Node} {j : InterfaceRecord}
      {t : RouterTable} (decoded now : Clock) (hm : m ∈ s.packages)
      (hl : N.link m.sender m.interface y j)
      (h : (s.tables y).receive m.package decoded now = some t) :
      Exchange N s { s with tables := Function.update s.tables y t }

inductive RoutingStep (N : Network Node) : RoutingState Node → RoutingState Node → Prop
  | exchange {s s' : RoutingState Node} (h : Exchange N s s') : RoutingStep N s s'
  | expire {s : RoutingState Node} (x : Node) (clock : Clock) :
      RoutingStep N s
        { s with tables := Function.update s.tables x ((s.tables x).removeOldEntries clock) }

theorem mem_broadcast {N : Network Node} {x : Node} {t : RouterTable} {p : MIPRouteTablePackage}
    {poison : InterfaceRecord → MIPAddress} (hp : t.createPackage = some p) {m : Sent Node}
    (hm : m ∈ N.broadcast x p poison) :
    m.sender = x ∧ m.interface ∈ N.interfaces x ∧
      m.package.tableAddress = m.interface.mipAddress ∧
      ∀ ch ∈ m.package.used, ch.cost ≠ UINT_MAX → ∃ e ∈ t.entries, e.toPackage = ch := by
  obtain ⟨i, hi, rfl⟩ := List.mem_map.mp hm
  refine ⟨rfl, hi, rfl, fun ch hch hmax => ?_⟩
  exact RouterTable.mem_of_createPackage hp (mem_poisonReverse hch hmax).1

/-- without expiry costs never rise and no destination is lost -/
theorem Exchange.within {N : Network Node} {s s' : RoutingState Node} (h : Exchange N s s')
    {x : Node} {d : MIPAddress} {n : ℕ} (hw : (s.tables x).Within d n) :
    (s'.tables x).Within d n := by
  cases h with
  | broadcast poison h => exact hw
  | @deliver m y j t decoded now hm hl h =>
    show (Function.update s.tables y t x).Within d n
    by_cases hx : x = y
    · subst hx
      rw [Function.update_self]
      exact RouterTable.within_receive h hw
    · rwa [Function.update_of_ne hx]

/-! ## the invariant -/

/-- every entry of a table is justified, every unpoisoned entry of a package is the end of a walk
of its sender -/
structure Sound (N : Network Node) (s : RoutingState Node) : Prop where
  tables : ∀ x, ∀ e ∈ (s.tables x).entries, N.Justified x e
  packages : ∀ m ∈ s.packages, m.package.tableAddress = m.interface.mipAddress ∧
    ∀ ch ∈ m.package.used, ch.cost ≠ UINT_MAX → N.RouteTo ch.destination ch.cost.toNat m.sender

theorem Sound.initial {N : Network Node} {s : RoutingState Node} (h : N.Initial s) :
    Sound N s where
  tables x e he := by
    obtain ⟨clock, hclock⟩ := h.2 x
    rw [hclock] at he
    exact N.justified_create he
  packages m hm := by
    rw [h.1] at hm
    cases hm

theorem Sound.exchange {N : Network Node} {s s' : RoutingState Node} (hs : Sound N s)
    (h : Exchange N s s') : Sound N s' := by
  cases h with
  | @broadcast x p poison h =>
    refine ⟨hs.tables, fun m hm => ?_⟩
    rcases List.mem_append.mp hm with hold | hnew
    · exact hs.packages m hold
    · obtain ⟨rfl, _, ha, hu⟩ := mem_broadcast h hnew
      refine ⟨ha, fun ch hch hmax => ?_⟩
      obtain ⟨e, he, rfl⟩ := hu ch hch hmax
      exact (hs.tables _ e he).routeTo
  | @deliver m y j t decoded now hm hl h =>
    obtain ⟨ha, hr⟩ := hs.packages m hm
    refine ⟨(Function.forall_update_iff s.tables fun x t => ∀ e ∈ t.entries, N.Justified x e).mpr
      ⟨fun e he => ?_, fun x _ => hs.tables x⟩, hs.packages⟩
    rcases RouterTable.mem_receive h he with hold | ⟨ch, hch, hmax, hd, hn, hc⟩
    · exact hs.tables y e hold
    · exact N.justified_of_received hl (hr ch hch hmax) hd (hn.trans ha) hc

theorem Sound.step {N : Network Node} {s s' : RoutingState Node} (hs : Sound N s)
    (h : RoutingStep N s s') : Sound N s' := by
  cases h with
  | exchange h => exact hs.exchange h
  | expire x clock =>
    refine ⟨(Function.forall_update_iff s.tables fun x t => ∀ e ∈ t.entries, N.Justified x e).mpr
      ⟨fun e he => ?_, fun x _ => hs.tables x⟩, hs.packages⟩
    exact hs.tables x e (RouterTable.mem_of_mem_removeOldEntries he)

theorem sound_of_reach {N : Network Node} {s : RoutingState Node}
    (h : Reach N.Initial (RoutingStep N) s) : Sound N s :=
  h.invariant (fun _ h0 => Sound.initial h0) fun _ _ _ hs hstep => hs.step hstep

/-! ## costs -/

/-- **Costs are lengths of walks.**  An entry of cost `c` in a reachable state has a walk of exactly
`c` links to an owner of its destination, over the interface that is its next hop; so no cost is
below the distance, and a challenger is only accepted when adding one to its cost does not wrap. -/
theorem route_cost_realised (N : Network Node) {s : RoutingState Node}
    (h : Reach N.Initial (RoutingStep N) s) {x : Node} {e : MIPRouteEntry}
    (he : e ∈ (s.tables x).entries) :
    N.RouteTo e.destination e.cost.toNat x ∧
    (0 < e.cost.toNat → ∃ i y j, N.link x i y j ∧ j.mipAddress = e.nextHop ∧
      N.RouteTo e.destination (e.cost.toNat - 1) y) ∧
    (∀ n, N.Distance e.destination n x → n ≤ e.cost.toNat) ∧
    (∀ ch : MIPRouteEntry, ch.beats ((s.tables x).get ch.destination) = true →
      (ch.cost + 1).toNat = ch.cost.toNat + 1) := by
  have hj := (sound_of_reach h).tables x e he
  refine ⟨hj.routeTo, fun hpos => ?_, fun n hn => hn.le hj.routeTo, fun ch hb => ?_⟩
  · rcases hj with ⟨h0, _, _⟩ | ⟨n, i, y, j, hc, hl, hn, hr⟩
    · omega
    · exact ⟨i, y, j, hl, hn, by rw [hc]; exact hr⟩
  · exact cost_succ ((s.tables x).uniqueDest.beats hb).1

end

/-! ## a run of `pair` -/

/-- the two nodes of `pair` after their start -/
def pairStart : RoutingState Bool := ⟨fun x => RouterTable.create (fun _ => 0) (pair.addresses x), []⟩

def pairPackage : MIPRouteTablePackage :=
  poisonReverse { ((pairStart.tables true).createPackage.get rfl) with tableAddress := 20 } 10

def pairTable : RouterTable :=
  ((pairStart.tables false).receive pairPackage (fun _ => 1) fun _ => 2).get rfl

/-- node `true` has broadcast and node `false` has received it -/
def pairState : RoutingState Bool :=
  ⟨Function.update pairStart.tables false pairTable, [⟨true, pairInterface true, pairPackage⟩]⟩

theorem initial_pairStart : pair.Initial pairStart := ⟨rfl, fun _ => ⟨fun _ => 0, rfl⟩⟩

theorem reach_pairState : Reach pair.Initial (Exchange pair.toNetwork) pairState := by
  refine Reach.next (Reach.next (Reach.start initial_pairStart)
    (Exchange.broadcast (x := true) (fun _ => 10) (Option.some_get rfl).symm)) ?_
  exact Exchange.deliver (m := ⟨true, pairInterface true, pairPackage⟩) (y := false)
    (j := pairInterface false) (fun _ => 1) (fun _ => 2) (List.mem_singleton.mpr rfl)
    ⟨by decide, rfl, rfl⟩ (Option.some_get rfl).symm

theorem mem_pairState : (⟨20, 20, 1, 2⟩ : MIPRouteEntry) ∈ (pairState.tables false).entries := by
  decide

theorem route_cost_realised_pair : pair.RouteTo 20 1 false ∧
    ∃ i y j, pair.link false i y j ∧ j.mipAddress = 20 ∧ pair.RouteTo 20 0 y :=
  have h := route_cost_realised pair.toNetwork
    (reach_pairState.mono fun _ _ => RoutingStep.exchange) mem_pairState
  ⟨h.1, h.2.1 (by decide)⟩

end MipStack
