import MipStack.Network.Convergence
import Mathlib.Logic.Relation

/-!
# Convergence without rounds

Packages are broadcast and delivered at any time, late, repeatedly or never, as in `Exchange`.
Instead of rounds there are phases: in a phase at least one package crosses every link that was made
in the phase and poisoned against the other end of the link.

* `Later N s s'`       `s'` is reached from `s` by broadcasts and deliveries;
* `Hears N s s' x i y j`   from `s` to `s'` a package of `x` was made, sent on `i` and processed by `y`;
* `Phases N k s`       `s` is reached with `k` complete phases, and any other steps between them;
* `KnownWithin N k s`  the invariant: nobody misses a route of at most `k` hops;
* `phases_shortest`    **after `k` phases every route of at most `k` hops is a shortest one**;
* `exchange_not_stuck` **no package of such a network ends a routerd**, old entries may expire.
-/

set_option linter.unusedSectionVars false

namespace MipStack
open Library

section
variable {Node : Type} [DecidableEq Node]

/-! ## phases -/

abbrev Later (N : Network Node) : RoutingState Node → RoutingState Node → Prop :=
  Relation.ReflTransGen (Exchange N)

/-- the broadcast with the package `p` of `x`, poisoned as the cache of `x` says -/
def RoutingState.sent (N : Network Node) (s : RoutingState Node) (x : Node)
    (p : MIPRouteTablePackage) (cache : MipArpCache) : RoutingState Node :=
  { s with packages := s.packages ++ N.broadcast x p (routeDestination cache) }

theorem mem_sent {N : Network Node} {s : RoutingState Node} {x : Node} {p : MIPRouteTablePackage}
    {cache : MipArpCache} {i : InterfaceRecord} (hi : i ∈ N.interfaces x) :
    ⟨x, i, routePackage cache i p⟩ ∈ (s.sent N x p cache).packages :=
  List.mem_append_right _ (List.mem_map_of_mem hi)

/-- **A package crosses the link**, anything else may happen before, meanwhile and after. -/
inductive Hears (N : Network Node) (s s' : RoutingState Node) (x : Node) (i : InterfaceRecord)
    (y : Node) : Prop
  | intro {s₁ s₂ : RoutingState Node} {p : MIPRouteTablePackage} {cache : MipArpCache}
      {t : RouterTable} (decoded now : Clock) (before : Later N s s₁)
      (hp : (s₁.tables x).createPackage = some p) (hc : N.Resolves x cache)
      (meanwhile : Later N (s₁.sent N x p cache) s₂)
      (hr : (s₂.tables y).receive (routePackage cache i p) decoded now = some t)
      (after : Later N { s₂ with tables := Function.update s₂.tables y t } s')

inductive Phases (N : SmallNetwork Node) : ℕ → RoutingState Node → Prop
  | start {s : RoutingState Node} (h : N.Initial s) : Phases N 0 s
  | step {k : ℕ} {s s' : RoutingState Node} (h : Phases N k s) (hs : Exchange N.toNetwork s s') :
      Phases N k s'
  | phase {k : ℕ} {s s' : RoutingState Node} (h : Phases N k s) (hs : Later N.toNetwork s s')
      (hh : ∀ x i y j, N.link x i y j → Hears N.toNetwork s s' x i y) : Phases N (k + 1) s'

variable {N : SmallNetwork Node} {k : ℕ} {s s' : RoutingState Node}

theorem Later.within {N : Network Node} (h : Later N s s') {x : Node} {d : MIPAddress} {n : ℕ}
    (hw : (s.tables x).Within d n) : (s'.tables x).Within d n := by
  induction h with
  | refl => exact hw
  | tail _ hs ih => exact hs.within ih

theorem Later.reach {N : Network Node} (h : Later N s s')
    (hr : Reach N.Initial (Exchange N) s) : Reach N.Initial (Exchange N) s' := by
  induction h with
  | refl => exact hr
  | tail _ hs ih => exact Reach.next ih hs

theorem Phases.reach (h : Phases N k s) : Reach N.Initial (Exchange N.toNetwork) s := by
  induction h with
  | start h => exact Reach.start h
  | step _ hs ih => exact Reach.next ih hs
  | phase _ hs _ ih => exact Later.reach hs ih

/-! ## the invariant -/

/-- every destination at distance at most `k` is known, with at most that cost -/
def KnownWithin (N : SmallNetwork Node) (k : ℕ) (s : RoutingState Node) : Prop :=
  ∀ x d n, n ≤ k → N.Distance d n x → (s.tables x).Within d n

theorem KnownWithin.initial (h : N.Initial s) : KnownWithin N 0 s :=
  (Converged.start (N := N) h.2).complete

/-- costs are no less than the distance, so a known shortest route costs exactly that -/
theorem exists_entry_of_within (hs : Sound N.toNetwork s) {x : Node} {d : MIPAddress} {n : ℕ}
    (hw : (s.tables x).Within d n) (hd : N.Distance d n x) :
    ∃ e ∈ (s.tables x).entries, e.destination = d ∧ e.cost.toNat = n := by
  obtain ⟨e, he, rfl, hle⟩ := hw
  exact ⟨e, he, rfl, Nat.le_antisymm hle (hd.le (hs.tables x e he).routeTo)⟩

/-- **What crosses a link.**  When `y` is one hop farther from `d` than `x`, it learns the route. -/
theorem Hears.within (h : Hears N.toNetwork s s' x i y)
    (hr : Reach N.Initial (Exchange N.toNetwork) s) (hl : N.link x i y j) {d : MIPAddress} {n : ℕ}
    (hw : (s.tables x).Within d n) (hx : N.Distance d n x) (hy : N.Distance d (n + 1) y) :
    (s'.tables y).Within d (n + 1) := by
  obtain @⟨_, s₂, _, _, t, decoded, now, before, hp, hc, meanwhile, hrec, after⟩ := h
  have hsound := sound_of_reach ((Later.reach before hr).mono fun _ _ => RoutingStep.exchange)
  obtain ⟨e, he, rfl, rfl⟩ := exists_entry_of_within hsound (Later.within before hw) hx
  have hmax : e.cost ≠ UINT_MAX := by
    intro hc
    have hlt := N.distance_lt hx
    rw [hc] at hlt
    exact absurd hlt (by decide)
  have hne : e.nextHop ≠ j.mipAddress := nextHop_ne_of_farther hl (hsound.tables x e he) hy
  refine Later.within after ?_
  show (Function.update s₂.tables y t y).Within e.destination (e.cost.toNat + 1)
  rw [Function.update_self]
  refine (RouterTable.within_of_received hrec ?_ hmax :
    t.Within e.toPackage.destination (e.toPackage.cost.toNat + 1))
  refine mem_poisonReverse_of_ne (RouterTable.mem_createPackage hp he) ?_
  rwa [routeDestination_of_resolves hc hl]

theorem Phases.known (h : Phases N k s) : KnownWithin N k s := by
  induction h with
  | start h => exact KnownWithin.initial h
  | step _ hs ih => exact fun x d n hn hd => hs.within (ih x d n hn hd)
  | @phase k s s' hk hs hh ih =>
    intro y d n hn hd
    rcases Nat.lt_or_ge k n with hlt | hge
    · obtain rfl : n = k + 1 := by omega
      obtain ⟨x, ⟨j, i, hl⟩, hx⟩ := hd.step
      have hl' := N.link_symm hl
      exact (hh x i y j hl').within hk.reach hl' (ih x d k le_rfl hx) hx hd
    · exact Later.within hs (ih y d n hge hd)

theorem Phases.sound (h : Phases N k s) : Sound N.toNetwork s :=
  sound_of_reach (h.reach.mono fun _ _ => RoutingStep.exchange)

/-- a shortest route goes over a neighbour that is one hop closer -/
theorem Network.Justified.closer {N : Network Node} {x : Node} {e : MIPRouteEntry}
    (h : N.Justified x e) (hd : N.Distance e.destination e.cost.toNat x) (hpos : 0 < e.cost.toNat) :
    ∃ i y j, N.link x i y j ∧ j.mipAddress = e.nextHop ∧
      N.Distance e.destination (e.cost.toNat - 1) y := by
  rcases h with ⟨h0, _, _⟩ | ⟨n, i, y, j, hc, hl, hnext, hto⟩
  · omega
  · refine ⟨i, y, j, hl, hnext, ?_⟩
    rw [hc]
    exact ⟨hto, fun m hm hto' => hd.2 (m + 1) (by omega) (Network.RouteTo.link hl hto')⟩

theorem Phases.get_of_distance (h : Phases N k s) {x : Node} {d : MIPAddress} {n : ℕ} (hn : n ≤ k)
    (hd : N.Distance d n x) : ∃ e, (s.tables x).get d = some e ∧ e.cost.toNat = n ∧
      (0 < n → ∃ i y j, N.link x i y j ∧ j.mipAddress = e.nextHop ∧ N.Distance d (n - 1) y) := by
  obtain ⟨e, he, rfl, rfl⟩ := exists_entry_of_within h.sound (h.known x d n hn hd) hd
  exact ⟨e, (s.tables x).uniqueDest.get_eq_some_iff.mpr ⟨he, rfl⟩, rfl,
    (h.sound.tables x e he).closer hd⟩

theorem Phases.distance_of_get (h : Phases N k s) (hk : 63 ≤ k) {x : Node} {d : MIPAddress}
    {e : MIPRouteEntry} (he : (s.tables x).get d = some e) : N.Distance d e.cost.toNat x := by
  obtain ⟨hmem, rfl⟩ := (s.tables x).uniqueDest.get_eq_some_iff.mp he
  obtain ⟨n, _, hdist⟩ := (h.sound.tables x e hmem).routeTo.dist
  have hlt := N.distance_lt hdist
  obtain ⟨f, hf, hfd, hfc⟩ :=
    exists_entry_of_within h.sound (h.known x e.destination n (by omega) hdist) hdist
  rwa [RouterTable.eq_of_dest hmem hf hfd.symm, hfd, hfc]

/-- **Shortest routes after `k` phases**, whatever was delayed, reordered, repeated or lost.  A route
of at most `k` hops is in the table at its distance, and its next hop is the far end of a link to a
node that is one hop closer.  Distances are below 64, so after 63 phases there are no other routes. -/
theorem phases_shortest (N : SmallNetwork Node) {k : ℕ} {s : RoutingState Node} (h : Phases N k s)
    (x : Node) :
    (∀ d n, n ≤ k → N.Distance d n x → ∃ e, (s.tables x).get d = some e ∧ e.cost.toNat = n ∧
      (0 < n → ∃ i y j, N.link x i y j ∧ j.mipAddress = e.nextHop ∧ N.Distance d (n - 1) y)) ∧
    (63 ≤ k → ∀ d e, (s.tables x).get d = some e → N.Distance d e.cost.toNat x) :=
  ⟨fun _ _ hn hd => h.get_of_distance hn hd, fun hk _ _ he => h.distance_of_get hk he⟩

/-! ## nothing ends a routerd -/

theorem SmallNetwork.length_lt (N : SmallNetwork Node) {x : Node} {t : RouterTable}
    (h : ∀ e ∈ t.entries, N.Justified x e) : t.entries.length < 64 := by
  have hsub : (t.entries.map MIPRouteEntry.destination).toFinset ⊆ N.all := by
    intro d hd
    obtain ⟨e, he, rfl⟩ := List.mem_map.mp (List.mem_toFinset.mp hd)
    obtain ⟨z, _, hz⟩ := (h e he).routeTo
    exact N.owned_mem hz
  have hcard := Finset.card_le_card hsub
  have hnodup : (t.entries.map MIPRouteEntry.destination).Nodup := t.unique
  rw [List.toFinset_card_of_nodup hnodup, List.length_map] at hcard
  exact hcard.trans_lt N.small

/-- a package that was sent can be decoded -/
theorem numEntries_lt {N : Network Node} (h : Reach N.Initial (RoutingStep N) s) :
    ∀ m ∈ s.packages, m.package.numEntries.toNat < MIP_TABLE_PACKAGE_ENTRIES_MAX_SIZE := by
  refine h.invariant (I := fun s => ∀ m ∈ s.packages, m.package.numEntries.toNat < _)
    (fun s h0 m hm => ?_) fun s s' _ hs hstep m hm => ?_
  · rw [h0.1] at hm
    cases hm
  · cases hstep with
    | expire x clock => exact hs m hm
    | exchange he =>
      cases he with
      | deliver decoded now hm' hl hr => exact hs m hm
      | @broadcast x p poison hp =>
        rcases List.mem_append.mp hm with hold | hnew
        · exact hs m hold
        · obtain ⟨i, _, rfl⟩ := List.mem_map.mp hnew
          obtain ⟨hlt, hn, _⟩ := MIPRouteTable.createPackage_eq_some hp
          show p.numEntries.toNat < _
          rwa [hn]

/-- **A network of routerds never ends one of them.**  In every state that is reached by broadcasts,
deliveries and the removal of old entries, each routerd can build its package, and each package
under way can be decoded by whoever receives it, whatever table the receiver has by then. -/
theorem exchange_not_stuck (N : SmallNetwork Node) {s : RoutingState Node}
    (h : Reach N.Initial (RoutingStep N.toNetwork) s) :
    (∀ x, (s.tables x).createPackage.isSome) ∧
    ∀ m ∈ s.packages, ∀ (t : RouterTable) (decoded now : Clock),
      (t.receive m.package decoded now).isSome := by
  refine ⟨fun x => ?_, fun m hm t decoded now => ?_⟩
  · rw [MIPRouteTable.createPackage_isSome]
    exact N.length_lt ((sound_of_reach h).tables x)
  · exact t.receive_isSome decoded now (numEntries_lt h m hm)

end

/-! ## one phase of `pair` -/

/-- both nodes have sent their packages -/
def pairSent : RoutingState Bool :=
  (pairStart.sent pair.toNetwork true (smallPairPackages true) (smallPairCaches true)).sent
    pair.toNetwork false (smallPairPackages false) (smallPairCaches false)

/-- node `false` has processed the package of node `true` -/
def pairHalf : RoutingState Bool :=
  { pairSent with tables := Function.update pairSent.tables false (smallPairTables false) }

def pairDone : RoutingState Bool :=
  { pairHalf with tables := Function.update pairHalf.tables true (smallPairTables true) }

theorem resolves_smallPair (x : Bool) : pair.Resolves x (smallPairCaches x) := by
  intro i y j hl
  obtain ⟨hxy, rfl, rfl⟩ := hl
  cases x <;> cases y <;> first | exact absurd rfl hxy | decide

theorem smallPair_receive (y : Bool) : (pairStart.tables y).receive
    (routePackage (smallPairCaches !y) (pairInterface !y) (smallPairPackages !y)) (fun _ => 1)
      (fun _ => 2) = some (smallPairTables y) := by
  cases y <;> rfl

theorem pair_send (x : Bool) (s : RoutingState Bool) (h : s.tables = pairStart.tables) :
    Exchange pair.toNetwork s
      (s.sent pair.toNetwork x (smallPairPackages x) (smallPairCaches x)) := by
  refine Exchange.broadcast _ ?_
  rw [h]
  exact (Option.some_get _).symm

theorem pair_deliver (y : Bool) (s : RoutingState Bool) (h : s.tables y = pairStart.tables y)
    (hm : ⟨!y, pairInterface !y, routePackage (smallPairCaches !y) (pairInterface !y)
      (smallPairPackages !y)⟩ ∈ s.packages) :
    Exchange pair.toNetwork s
      { s with tables := Function.update s.tables y (smallPairTables y) } := by
  refine Exchange.deliver (j := pairInterface y) (fun _ => 1) (fun _ => 2) hm
    ⟨by cases y <;> decide, rfl, rfl⟩ ?_
  rw [h]
  exact smallPair_receive y

theorem phases_pairDone : Phases smallPair 1 pairDone := by
  have h1 : Exchange pair.toNetwork pairStart _ := pair_send true pairStart rfl
  have h2 : Exchange pair.toNetwork _ pairSent := pair_send false _ rfl
  have h3 : Exchange pair.toNetwork pairSent pairHalf :=
    pair_deliver false pairSent rfl (List.mem_append_left _ (mem_sent (List.mem_singleton_self _)))
  have h4 : Exchange pair.toNetwork pairHalf pairDone :=
    pair_deliver true pairHalf rfl (mem_sent (List.mem_singleton_self _))
  refine Phases.phase (Phases.start initial_pairStart)
    (((Relation.ReflTransGen.single h1).tail h2).tail h3 |>.tail h4) ?_
  intro x i y j hl
  obtain ⟨hxy, rfl, rfl⟩ := hl
  cases x with
  | false =>
    obtain rfl : y = true := by simpa using hxy
    exact Hears.intro _ _ (.single h1) (Option.some_get _).symm (resolves_smallPair false)
      (.single h3) (smallPair_receive true) .refl
  | true =>
    obtain rfl : y = false := by simpa using hxy
    exact Hears.intro _ _ .refl (Option.some_get _).symm (resolves_smallPair true)
      (.single h2) (smallPair_receive false) (.single h4)

theorem phases_shortest_pair : ∃ e, (pairDone.tables false).get 20 = some e ∧ e.cost.toNat = 1 := by
  have hd : smallPair.Distance 20 1 false :=
    ((converged_of_rounds rounds_smallPair).distance false ⟨20, 20, 1, 2⟩ (by decide)).1
  obtain ⟨e, he, hc, _⟩ := (phases_shortest smallPair phases_pairDone false).1 20 1 le_rfl hd
  exact ⟨e, he, hc⟩

theorem exchange_not_stuck_pair : (pairState.tables false).createPackage.isSome :=
  (exchange_not_stuck smallPair (reach_pairState.mono fun _ _ => RoutingStep.exchange)).1 false

end MipStack
