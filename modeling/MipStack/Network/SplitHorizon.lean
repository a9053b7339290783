import MipStack.Network.Exchange

/-!
# Split horizon on every link

The broadcasts of this module are delivered and processed before the next step, over links whose
far ends the cache of the sender names.  Old entries may be removed at any time.

* `Deliveries N x cache p`   some of the copies of package `p` that `x` broadcasts are processed;
* `BroadcastStep N`          such a broadcast, or the removal of old entries at one node;
* `NoMutual`                 on no link do both ends use each other as next hop for a destination;
* `no_mutual_next_hops`      **it holds in every reachable state.**
-/

set_option linter.unusedSectionVars false

namespace MipStack
open Library

section
variable {Node : Type} [DecidableEq Node]

/-- the copies of one broadcast of `x` that have been processed, in any order and number -/
inductive Deliveries (N : PointToPoint Node) (x : Node) (cache : MipArpCache)
    (p : MIPRouteTablePackage) (T : Node → RouterTable) : (Node → RouterTable) → Prop
  | none : Deliveries N x cache p T T
  | more {T' : Node → RouterTable} {i j : InterfaceRecord} {y : Node} {t : RouterTable}
      (decoded now : Clock) (hd : Deliveries N x cache p T T') (hl : N.link x i y j)
      (h : (T' y).receive (routePackage cache i p) decoded now = some t) :
      Deliveries N x cache p T (Function.update T' y t)

inductive BroadcastStep (N : PointToPoint Node) :
    (Node → RouterTable) → (Node → RouterTable) → Prop
  | broadcast {T T' : Node → RouterTable} {x : Node} {p : MIPRouteTablePackage}
      {cache : MipArpCache} (hp : (T x).createPackage = some p) (hc : N.Resolves x cache)
      (hd : Deliveries N x cache p T T') : BroadcastStep N T T'
  | expire {T : Node → RouterTable} (x : Node) (clock : Clock) :
      BroadcastStep N T (Function.update T x ((T x).removeOldEntries clock))

def Network.Started (N : Network Node) (T : Node → RouterTable) : Prop :=
  ∀ x, ∃ clock, T x = RouterTable.create clock (N.addresses x)

/-- on no link do the two ends use each other as next hop for one destination -/
def NoMutual (N : PointToPoint Node) (T : Node → RouterTable) : Prop :=
  ∀ x i y j, N.link x i y j → ∀ e ∈ (T x).entries, ∀ f ∈ (T y).entries,
    e.destination = f.destination → ¬ (e.nextHop = j.mipAddress ∧ f.nextHop = i.mipAddress)

/-- an address of an interface names the interface and with it the link -/
theorem PointToPoint.link_of_address (N : PointToPoint Node) {x u y v : Node}
    {i k j l : InterfaceRecord} (hx : N.link x i y j) (hu : N.link u k v l)
    (ha : i.mipAddress = k.mipAddress) : u = x ∧ k = i ∧ v = y ∧ l = j := by
  have hown : k.mipAddress ∈ N.addresses x := ha ▸ N.interface_owned (N.link_mem hx)
  obtain rfl : u = x := N.owner_unique (N.interface_owned (N.link_mem hu)) hown
  obtain rfl : k = i := N.interface_unique (N.link_mem hu) (N.link_mem hx) ha.symm
  obtain ⟨rfl, rfl⟩ := N.one_end hu hx
  exact ⟨rfl, rfl, rfl, rfl⟩

theorem PointToPoint.not_mutual_self (N : PointToPoint Node) {x : Node} {i j : InterfaceRecord}
    (hl : N.link x i x j) {t : RouterTable} {e f : MIPRouteEntry} (he : e ∈ t.entries)
    (hf : f ∈ t.entries) (hd : e.destination = f.destination) :
    ¬ (e.nextHop = j.mipAddress ∧ f.nextHop = i.mipAddress) := by
  intro h
  obtain ⟨hej, hfi⟩ := h
  obtain rfl := RouterTable.eq_of_dest he hf hd
  have hij : i = j :=
    N.interface_unique (N.link_mem hl) (N.link_mem' hl) (hfi.symm.trans hej)
  subst hij
  exact N.no_loop hl

theorem NoMutual.started {N : PointToPoint Node} {T : Node → RouterTable} (h : N.Started T) :
    NoMutual N T := by
  intro x i y j hl e he f hf hd hmutual
  obtain ⟨hej, hfi⟩ := hmutual
  obtain ⟨c, hc⟩ := h x
  obtain ⟨c', hc'⟩ := h y
  -- both next hops are own addresses, so both nodes own the far end of the link
  obtain ⟨⟨_, hn⟩, hx⟩ := RouterTable.mem_create (hc ▸ he)
  have hjx : j.mipAddress ∈ N.addresses x := by rwa [← hej, hn]
  obtain rfl : x = y := N.owner_unique hjx (N.interface_owned (N.link_mem' hl))
  exact N.not_mutual_self hl he hf hd ⟨hej, hfi⟩

theorem NoMutual.anti {N : PointToPoint Node} {T T' : Node → RouterTable} (h : NoMutual N T)
    (hs : ∀ x, ∀ e ∈ (T' x).entries, e ∈ (T x).entries) : NoMutual N T' :=
  fun x i y j hl e he f hf hd => h x i y j hl e (hs x e he) f (hs y f hf) hd

/-- **One delivered copy.**  The entries that `y` learns over the link go through `x`, and the entry
of `x` for the same destination does not go through `y`: that one would have been poisoned. -/
theorem NoMutual.receive {N : PointToPoint Node} {T : Node → RouterTable} (h : NoMutual N T)
    {x y : Node} {i j : InterfaceRecord} {p : MIPRouteTablePackage} {cache : MipArpCache}
    {decoded now : Clock} {t : RouterTable} (hp : (T x).createPackage = some p)
    (hc : N.Resolves x cache) (hl : N.link x i y j) (hxy : x ≠ y)
    (hr : (T y).receive (routePackage cache i p) decoded now = some t) :
    NoMutual N (Function.update T y t) := by
  have hold : ∀ u, u ≠ y → Function.update T y t u = T u := fun u hu => Function.update_of_ne hu ..
  have hnew : Function.update T y t y = t := Function.update_self ..
  -- a learned entry of `y` and the entry of `x` for its destination
  have hpoison : ∀ e ∈ t.entries, e ∉ (T y).entries → e.nextHop = i.mipAddress ∧
      ∀ f ∈ (T x).entries, f.destination = e.destination → f.nextHop ≠ j.mipAddress := by
    intro e he hnot
    obtain ⟨ch, hch, hmax, hd, hn, _⟩ := (RouterTable.mem_receive hr he).resolve_left hnot
    refine ⟨hn, fun f hf hfd => ?_⟩
    obtain ⟨hused, hne⟩ := mem_poisonReverse hch hmax
    rw [routeDestination_of_resolves hc hl] at hne
    obtain ⟨g, hg, rfl⟩ := RouterTable.mem_of_createPackage hp hused
    rw [RouterTable.eq_of_dest hf hg (hfd.trans hd)]
    exact hne
  intro u k v l hul e he f hf hd hmutual
  obtain ⟨hel, hfk⟩ := hmutual
  by_cases huv : u = v
  · subst huv
    exact N.not_mutual_self hul he hf hd ⟨hel, hfk⟩
  by_cases hu : u = y
  · -- the entry at `u` may be learned, the one at `v` is old
    subst hu
    rw [hnew] at he
    rw [hold v (Ne.symm huv)] at hf
    by_cases hmem : e ∈ (T u).entries
    · exact h u k v l hul e hmem f hf hd ⟨hel, hfk⟩
    · obtain ⟨hn, hx⟩ := hpoison e he hmem
      obtain ⟨rfl, rfl, _, rfl⟩ := N.link_of_address hl (N.link_symm hul) (hn.symm.trans hel)
      exact hx f hf hd.symm hfk
  · rw [hold u hu] at he
    by_cases hv : v = y
    · subst hv
      rw [hnew] at hf
      by_cases hmem : f ∈ (T v).entries
      · exact h u k v l hul e he f hmem hd ⟨hel, hfk⟩
      · obtain ⟨hn, hx⟩ := hpoison f hf hmem
        obtain ⟨rfl, rfl, _, rfl⟩ := N.link_of_address hl hul (hn.symm.trans hfk)
        exact hx e he hd hel
    · rw [hold v hv] at hf
      exact h u k v l hul e he f hf hd ⟨hel, hfk⟩

/-- a node that hears itself over one of its own links learns nothing -/
theorem receive_own {t t' : RouterTable} {p : MIPRouteTablePackage} {cache : MipArpCache}
    {i : InterfaceRecord} {decoded now : Clock} (hp : t.createPackage = some p)
    (hr : t.receive (routePackage cache i p) decoded now = some t') : t' = t := by
  refine RouterTable.receive_eq_self hr fun ch hch hmax => ?_
  obtain ⟨e, he, rfl⟩ := RouterTable.mem_of_createPackage hp (mem_poisonReverse hch hmax).1
  exact MIPRouteTable.within_of_mem he

/-- the copies of a broadcast keep the table of the sender and the invariant -/
theorem NoMutual.deliveries {N : PointToPoint Node} {T T' : Node → RouterTable} {x : Node}
    {p : MIPRouteTablePackage} {cache : MipArpCache} (h : NoMutual N T)
    (hp : (T x).createPackage = some p) (hc : N.Resolves x cache)
    (hd : Deliveries N x cache p T T') : T' x = T x ∧ NoMutual N T' := by
  induction hd with
  | none => exact ⟨rfl, h⟩
  | @more T' i j y t decoded now hd hl hr ih =>
    obtain ⟨hx, hno⟩ := ih
    rw [← hx] at hp ⊢
    by_cases hxy : x = y
    · subst hxy
      rw [receive_own hp hr, Function.update_eq_self]
      exact ⟨rfl, hno⟩
    · exact ⟨Function.update_of_ne hxy .., hno.receive hp hc hl hxy hr⟩

theorem NoMutual.step {N : PointToPoint Node} {T T' : Node → RouterTable} (h : NoMutual N T)
    (hs : BroadcastStep N T T') : NoMutual N T' := by
  cases hs with
  | broadcast hp hc hd => exact (h.deliveries hp hc hd).2
  | expire x clock =>
    refine h.anti ((Function.forall_update_iff T fun u t => ∀ e ∈ t.entries, e ∈ (T u).entries).mpr
      ⟨fun e he => RouterTable.mem_of_mem_removeOldEntries he, fun u _ e he => he⟩)

/-- **Split horizon does its job on every link.**  Whatever is broadcast, learned and expired, two
ends of a link never use each other as next hop for one destination. -/
theorem no_mutual_next_hops (N : PointToPoint Node) {T : Node → RouterTable}
    (h : Reach N.Started (BroadcastStep N) T) {x y : Node} {i j : InterfaceRecord}
    (hl : N.link x i y j) {e f : MIPRouteEntry} (he : e ∈ (T x).entries) (hf : f ∈ (T y).entries)
    (hd : e.destination = f.destination) :
    ¬ (e.nextHop = j.mipAddress ∧ f.nextHop = i.mipAddress) :=
  h.invariant (fun _ h0 => NoMutual.started h0) (fun _ _ _ hs hstep => hs.step hstep)
    x i y j hl e he f hf hd

/-- a cache of node `true` of `pair` that names the address of node `false` -/
def pairCache : MipArpCache := ⟨[⟨10, 3, fun _ => 0, 0⟩], 10000, 0⟩

theorem no_mutual_next_hops_pair :
    ¬ ((20 : MIPAddress) = (pairInterface true).mipAddress ∧
      (20 : MIPAddress) = (pairInterface false).mipAddress) := by
  have hlink : pair.link true (pairInterface true) false (pairInterface false) :=
    ⟨by decide, rfl, rfl⟩
  have hresolve : pair.Resolves true pairCache := by
    intro i y j hl
    obtain ⟨hy, rfl, rfl⟩ := hl
    obtain rfl : y = false := by cases y <;> simp_all
    decide
  have hreach : Reach pair.Started (BroadcastStep pair) pairState.tables :=
    Reach.next (Reach.start initial_pairStart.2)
      (BroadcastStep.broadcast (x := true) (Option.some_get rfl).symm hresolve
        (Deliveries.more (fun _ => 1) (fun _ => 2) Deliveries.none hlink
          (Option.some_get rfl).symm))
  exact no_mutual_next_hops pair hreach (pair.link_symm hlink) mem_pairState
    (f := ⟨20, 20, 0, 0⟩) (by decide) rfl

end

end MipStack
