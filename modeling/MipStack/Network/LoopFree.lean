import MipStack.Network.Exchange

/-!
# Next hops form no loop while nothing expires

* `Descending`              the invariant: the owner of the next hop of a learned route has a route
                            that is cheaper, and so has the sender of a package in the network;
* `descending_of_reach`     it holds after any broadcasts and deliveries;
* `next_hops_loop_free`     **following the next hops leads to the owner of the destination**, in at
                            most as many hops as the route costs and without visiting a node twice.
-/

set_option linter.unusedSectionVars false

namespace MipStack
open Library

section
variable {Node : Type} [DecidableEq Node]

/-- a learned entry of node `x` has an owner of its next hop who has a cheaper entry -/
def Descends (N : AddressedNetwork Node) (s : RoutingState Node) (x : Node) (e : MIPRouteEntry) :
    Prop :=
  (e.cost.toNat = 0 ∧ e.destination ∈ N.addresses x) ∨
  ∃ y n, e.cost.toNat = n + 1 ∧ e.nextHop ∈ N.addresses y ∧ (s.tables y).Within e.destination n

structure Descending (N : AddressedNetwork Node) (s : RoutingState Node) : Prop where
  tables : ∀ x, ∀ e ∈ (s.tables x).entries, Descends N s x e
  packages : ∀ m ∈ s.packages, m.package.tableAddress ∈ N.addresses m.sender ∧
    ∀ ch ∈ m.package.used, ch.cost ≠ UINT_MAX →
      (s.tables m.sender).Within ch.destination ch.cost.toNat

theorem Descending.initial {N : AddressedNetwork Node} {s : RoutingState Node}
    (h : N.Initial s) : Descending N s where
  tables x e he := by
    obtain ⟨clock, hclock⟩ := h.2 x
    rw [hclock] at he
    obtain ⟨⟨hc, _⟩, hd⟩ := RouterTable.mem_create he
    exact Or.inl ⟨by rw [hc]; rfl, hd⟩
  packages m hm := by
    rw [h.1] at hm
    cases hm

theorem Descends.mono {N : AddressedNetwork Node} {s s' : RoutingState Node} {x : Node}
    {e : MIPRouteEntry} (h : Descends N s x e) (hs : Exchange N.toNetwork s s') :
    Descends N s' x e := by
  rcases h with hl | ⟨y, n, hc, hn, hw⟩
  · exact Or.inl hl
  · exact Or.inr ⟨y, n, hc, hn, hs.within hw⟩

theorem Descending.step {N : AddressedNetwork Node} {s s' : RoutingState Node}
    (hs : Descending N s) (h : Exchange N.toNetwork s s') : Descending N s' := by
  have hpackages : ∀ m ∈ s.packages, m.package.tableAddress ∈ N.addresses m.sender ∧
      ∀ ch ∈ m.package.used, ch.cost ≠ UINT_MAX →
        (s'.tables m.sender).Within ch.destination ch.cost.toNat := fun m hm =>
    ⟨(hs.packages m hm).1, fun ch hch hmax => h.within ((hs.packages m hm).2 ch hch hmax)⟩
  have htables : ∀ x, ∀ e ∈ (s.tables x).entries, Descends N s' x e := fun x e he =>
    (hs.tables x e he).mono h
  cases h with
  | @broadcast x p poison hp =>
    refine ⟨htables, fun m hm => ?_⟩
    rcases List.mem_append.mp hm with hold | hnew
    · exact hpackages m hold
    · obtain ⟨rfl, hi, ha, hu⟩ := mem_broadcast hp hnew
      refine ⟨ha ▸ N.interface_owned hi, fun ch hch hmax => ?_⟩
      obtain ⟨e, he, rfl⟩ := hu ch hch hmax
      exact MIPRouteTable.within_of_mem he
  | @deliver m y j t decoded now hm hl hr =>
    refine ⟨(Function.forall_update_iff s.tables fun x t' => ∀ e ∈ t'.entries,
      Descends N ⟨Function.update s.tables y t, s.packages⟩ x e).mpr
      ⟨fun e he => ?_, fun x _ => htables x⟩, hpackages⟩
    rcases RouterTable.mem_receive hr he with hold | ⟨ch, hch, hmax, hd, hn, hc⟩
    · exact htables y e hold
    · refine Or.inr ⟨m.sender, ch.cost.toNat, hc, hn ▸ (hpackages m hm).1, ?_⟩
      rw [hd]
      exact (hpackages m hm).2 ch hch hmax

theorem descending_of_reach {N : AddressedNetwork Node} {s : RoutingState Node}
    (h : Reach N.Initial (Exchange N.toNetwork) s) : Descending N s :=
  h.invariant (fun _ h0 => Descending.initial h0) fun _ _ _ hs hstep => hs.step hstep

/-! ## following the next hops -/

def NextNode (N : AddressedNetwork Node) (s : RoutingState Node) (d : MIPAddress) (u v : Node) :
    Prop := (s.tables u).getNextHop d ∈ N.addresses v

theorem nextNode_of_mem {N : AddressedNetwork Node} {s : RoutingState Node} {u v : Node}
    {e : MIPRouteEntry} (he : e ∈ (s.tables u).entries)
    (hd : e.destination ≠ MIP_BROADCAST_ADDRESS) (hv : e.nextHop ∈ N.addresses v) :
    NextNode N s e.destination u v := by
  have hget : (s.tables u).get e.destination = some e :=
    (s.tables u).uniqueDest.get_eq_some_iff.mpr ⟨he, rfl⟩
  rw [NextNode, MIPRouteTable.getNextHop, if_neg hd, hget]
  exact hv

/-- **Next hops form no loop.**  In every state reached by broadcasts and deliveries the owner of the
next hop of a learned route has a route to the same destination that costs at least one less; and
following the next hops from any node with a route leads to the owner of its destination, in at most
as many hops as the route costs and without coming back to a node. -/
theorem next_hops_loop_free (N : AddressedNetwork Node) {s : RoutingState Node}
    (h : Reach N.Initial (Exchange N.toNetwork) s) :
    (∀ x, ∀ e ∈ (s.tables x).entries, 0 < e.cost.toNat →
      ∃ y, e.nextHop ∈ N.addresses y ∧ ∃ e' ∈ (s.tables y).entries,
        e'.destination = e.destination ∧ e'.cost.toNat ≤ e.cost.toNat - 1) ∧
    (∀ x, ∀ e ∈ (s.tables x).entries, ∃ path : List Node,
      path.head? = some x ∧ path.IsChain (NextNode N s e.destination) ∧
      (∃ z, path.getLast? = some z ∧ e.destination ∈ N.addresses z) ∧
      path.length ≤ e.cost.toNat + 1 ∧ path.Nodup) := by
  have hdesc := descending_of_reach h
  have hsound := sound_of_reach (h.mono fun _ _ => RoutingStep.exchange)
  refine ⟨fun x e he hpos => ?_, fun x e he => ?_⟩
  · rcases hdesc.tables x e he with ⟨h0, _⟩ | ⟨y, n, hc, hn, e', he', hd, hle⟩
    · omega
    · exact ⟨y, hn, e', he', hd, by omega⟩
  · -- the cost of a node is the cost of its entry for the destination
    obtain ⟨z, _, hz⟩ := (hsound.tables x e he).routeTo
    have hne : e.destination ≠ MIP_BROADCAST_ADDRESS := N.unicast hz
    let cost := fun (y : Node) (n : ℕ) => ∃ e' ∈ (s.tables y).entries,
      e'.destination = e.destination ∧ e'.cost.toNat = n
    have hfun : ∀ y n m, cost y n → cost y m → n = m := by
      intro y n m hn hm
      obtain ⟨e₁, he₁, hd₁, rfl⟩ := hn
      obtain ⟨e₂, he₂, hd₂, rfl⟩ := hm
      rw [RouterTable.eq_of_dest he₁ he₂ (hd₁.trans hd₂.symm)]
    have hnext : ∀ y n, cost y n → e.destination ∈ N.addresses y ∨
        ∃ w m, NextNode N s e.destination y w ∧ m < n ∧ cost w m := by
      intro y n hn
      obtain ⟨e', he', hd, rfl⟩ := hn
      rcases hdesc.tables y e' he' with ⟨_, hown⟩ | ⟨w, n, hc, hn, e₂, he₂, hd₂, hle⟩
      · exact Or.inl (hd ▸ hown)
      · refine Or.inr ⟨w, e₂.cost.toNat, ?_, by omega, e₂, he₂, hd₂.trans hd, rfl⟩
        rw [← hd]
        exact nextNode_of_mem he' (hd ▸ hne) hn
    obtain ⟨path, hhead, hchain, hlast, hlen, hnodup, _⟩ :=
      exists_path_of_descends hfun hnext e.cost.toNat x ⟨e, he, rfl, rfl⟩
    exact ⟨path, hhead, hchain, hlast, hlen, hnodup⟩

theorem next_hops_loop_free_pair : ∃ path : List Bool, path.head? = some false ∧
    path.IsChain (NextNode pair.toAddressedNetwork pairState 20) ∧
    (∃ z, path.getLast? = some z ∧ (20 : MIPAddress) ∈ pair.addresses z) ∧
    path.length ≤ 2 ∧ path.Nodup :=
  (next_hops_loop_free pair.toAddressedNetwork reach_pairState).2 false ⟨20, 20, 1, 2⟩ mem_pairState

end

end MipStack
