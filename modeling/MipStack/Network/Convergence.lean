import MipStack.Network.SplitHorizon
import Mathlib.Data.Finset.Card

/-!
# Convergence of the distance-vector exchange

* `SmallNetwork`       every node owns an address, fewer than 64 addresses in all;
* `Round N T T'`       one round: all packages are made from the tables `T` at its start, and every
                       node processes every package that reaches it, in any order;
* `Rounds N k T`       `T` is reached by `k` rounds from new routerds;
* `Converged N k T`    the invariant: the tables hold the routes of at most `k` hops, at their distance;
* `converged_rounds`   **after `k` rounds node `x` has an entry for `d` if and only if the owner of `d`
                       is at distance at most `k`, and its cost is that distance;** no round is stuck.
-/

set_option linter.unusedSectionVars false

namespace MipStack
open Library

/-! ## rounds -/

structure SmallNetwork (Node : Type) extends PointToPoint Node where
  all : Finset MIPAddress
  owned_mem : ∀ {a x}, a ∈ addresses x → a ∈ all
  nonempty : ∀ x, ∃ a, a ∈ addresses x
  small : all.card < 64

/-- a package that arrives on interface `inn`, sent by `sender` on its interface `out` -/
structure Arrival (Node : Type) where
  sender : Node
  out : InterfaceRecord
  inn : InterfaceRecord
  decoded : Clock
  now : Clock

section
variable {Node : Type}

/-- the node with table `t` processes the packages one after the other -/
def processArrivals (caches : Node → MipArpCache) (packages : Node → MIPRouteTablePackage) :
    List (Arrival Node) → RouterTable → Option RouterTable
  | [], t => some t
  | a :: rest, t =>
    match t.receive (routePackage (caches a.sender) a.out (packages a.sender)) a.decoded a.now with
    | none => none
    | some t' => processArrivals caches packages rest t'

/-- every package that is sent to `y` arrives, in any order; nothing else does -/
def Complete (N : SmallNetwork Node) (y : Node) (arrivals : List (Arrival Node)) : Prop :=
  (∀ a ∈ arrivals, N.link a.sender a.out y a.inn) ∧
  ∀ x i j, N.link x i y j → ∃ a ∈ arrivals, a.sender = x ∧ a.out = i

def Round (N : SmallNetwork Node) (T T' : Node → RouterTable) : Prop :=
  ∃ (caches : Node → MipArpCache) (packages : Node → MIPRouteTablePackage),
    (∀ x, N.Resolves x (caches x)) ∧ (∀ x, (T x).createPackage = some (packages x)) ∧
    ∀ y, ∃ arrivals, Complete N y arrivals ∧
      processArrivals caches packages arrivals (T y) = some (T' y)

inductive Rounds (N : SmallNetwork Node) : ℕ → (Node → RouterTable) → Prop
  | start {T : Node → RouterTable} (h : N.Started T) : Rounds N 0 T
  | round {k : ℕ} {T T' : Node → RouterTable} (h : Rounds N k T) (hr : Round N T T') :
      Rounds N (k + 1) T'

/-! ## one node in one round -/

variable {caches : Node → MipArpCache} {packages : Node → MIPRouteTablePackage}
  {arrivals : List (Arrival Node)} {t t' : RouterTable}

theorem mem_processArrivals (h : processArrivals caches packages arrivals t = some t')
    {e : MIPRouteEntry} (he : e ∈ t'.entries) :
    e ∈ t.entries ∨ ∃ a ∈ arrivals,
      ∃ ch ∈ (routePackage (caches a.sender) a.out (packages a.sender)).used,
        ch.cost ≠ UINT_MAX ∧ e.destination = ch.destination ∧ e.nextHop = a.out.mipAddress ∧
        e.cost.toNat = ch.cost.toNat + 1 := by
  induction arrivals generalizing t with
  | nil =>
    obtain rfl : t = t' := Option.some.inj h
    exact Or.inl he
  | cons a rest ih =>
    rw [processArrivals] at h
    split at h
    · cases h
    · rename_i t₁ hr
      rcases ih h with hold | ⟨b, hb, hch⟩
      · rcases RouterTable.mem_receive hr hold with hold | ⟨ch, hch, hmax, hd, hn, hc⟩
        · exact Or.inl hold
        · exact Or.inr ⟨a, List.mem_cons_self, ch, hch, hmax, hd, hn, hc⟩
      · exact Or.inr ⟨b, List.mem_cons_of_mem _ hb, hch⟩

theorem within_processArrivals (h : processArrivals caches packages arrivals t = some t')
    {d : MIPAddress} {n : ℕ} (hw : t.Within d n) : t'.Within d n := by
  induction arrivals generalizing t with
  | nil =>
    obtain rfl : t = t' := Option.some.inj h
    exact hw
  | cons a rest ih =>
    rw [processArrivals] at h
    split at h
    · cases h
    · rename_i t₁ hr
      exact ih h (RouterTable.within_receive hr hw)

theorem within_of_arrival (h : processArrivals caches packages arrivals t = some t')
    {a : Arrival Node} (ha : a ∈ arrivals) {ch : MIPRoutePackageEntry}
    (hch : ch ∈ (routePackage (caches a.sender) a.out (packages a.sender)).used)
    (hmax : ch.cost ≠ UINT_MAX) : t'.Within ch.destination (ch.cost.toNat + 1) := by
  induction arrivals generalizing t with
  | nil => cases ha
  | cons b rest ih =>
    rw [processArrivals] at h
    split at h
    · cases h
    · rename_i t₁ hr
      rcases List.mem_cons.mp ha with rfl | ha
      · exact within_processArrivals h (RouterTable.within_of_received hr hch hmax)
      · exact ih h ha

/-- packages of fewer than 64 entries are all decoded -/
theorem processArrivals_isSome (caches : Node → MipArpCache)
    (h : ∀ x, (packages x).numEntries.toNat < MIP_TABLE_PACKAGE_ENTRIES_MAX_SIZE)
    (arrivals : List (Arrival Node)) (t : RouterTable) :
    (processArrivals caches packages arrivals t).isSome := by
  induction arrivals generalizing t with
  | nil => rfl
  | cons a rest ih =>
    obtain ⟨t₁, ht₁⟩ := Option.isSome_iff_exists.mp (t.receive_isSome
      (p := routePackage (caches a.sender) a.out (packages a.sender)) a.decoded a.now (h a.sender))
    rw [processArrivals, ht₁]
    exact ih t₁

/-! ## the invariant -/

/-- the tables after `k` rounds -/
structure Converged (N : SmallNetwork Node) (k : ℕ) (T : Node → RouterTable) : Prop where
  justified : ∀ x, ∀ e ∈ (T x).entries, N.Justified x e
  distance : ∀ x, ∀ e ∈ (T x).entries, N.Distance e.destination e.cost.toNat x ∧ e.cost.toNat ≤ k
  complete : ∀ x d n, n ≤ k → N.Distance d n x → (T x).Within d n

theorem Converged.start {N : SmallNetwork Node} {T : Node → RouterTable} (h : N.Started T) :
    Converged N 0 T where
  justified x e he := by
    obtain ⟨clock, hclock⟩ := h x
    rw [hclock] at he
    exact N.justified_create he
  distance x e he := by
    obtain ⟨clock, hclock⟩ := h x
    rw [hclock] at he
    obtain ⟨⟨hc, _⟩, hd⟩ := RouterTable.mem_create he
    rw [hc]
    exact ⟨⟨hopsTo_zero.mpr hd, fun m hm => absurd hm (Nat.not_lt_zero m)⟩, le_rfl⟩
  complete x d n hn hd := by
    obtain rfl : n = 0 := Nat.le_zero.mp hn
    obtain ⟨clock, hclock⟩ := h x
    obtain ⟨z, rfl, hown⟩ := hd.1
    obtain ⟨e, he, ⟨hc, _⟩, rfl⟩ := RouterTable.local_create clock hown
    rw [hclock]
    exact ⟨e, he, rfl, by rw [hc]; exact le_rfl⟩

theorem SmallNetwork.distance_lt (N : SmallNetwork Node) {d : MIPAddress} {n : ℕ} {x : Node}
    (h : N.Distance d n x) : n < 64 := by
  have hcard : n < Fintype.card { a // a ∈ N.all } := by
    have hne : ∀ y, ∃ a : { a // a ∈ N.all }, a.1 ∈ N.addresses y := by
      intro y
      obtain ⟨a, ha⟩ := N.nonempty y
      exact ⟨⟨a, N.owned_mem ha⟩, ha⟩
    exact HopDist.lt_card hne (fun y z a hy hz => N.owner_unique hy hz) h
  rw [Fintype.card_coe] at hcard
  exact hcard.trans N.small

/-- **Poisoning hides no shortest path.**  When `y` is one hop farther from `d` than its neighbour
`x`, the entry of `x` for `d` does not go through `y`. -/
theorem nextHop_ne_of_farther {N : SmallNetwork Node} {x y : Node} {i j : InterfaceRecord}
    {e : MIPRouteEntry} (hl : N.link x i y j) (hj : N.Justified x e)
    (hy : N.Distance e.destination (e.cost.toNat + 1) y) : e.nextHop ≠ j.mipAddress := by
  intro hne
  have hjy : j.mipAddress ∈ N.addresses y := N.interface_owned (N.link_mem' hl)
  rcases hj with ⟨_, hn, hd⟩ | ⟨n, i', y', j', hc, hl', hn, hr⟩
  · -- then `x` is the owner of the address of `y`, and of `d`
    rw [hne] at hn
    exact hy.2 0 (by omega) (hopsTo_zero.mpr (hn ▸ hjy))
  · have hjy' : j.mipAddress ∈ N.addresses y' := by
      rw [← hne, ← hn]
      exact N.interface_owned (N.link_mem' hl')
    obtain rfl : y = y' := N.owner_unique hjy hjy'
    exact hy.2 n (by omega) hr

theorem Converged.createPackage {N : SmallNetwork Node} {k : ℕ} {T : Node → RouterTable}
    (h : Converged N k T) (x : Node) : (T x).createPackage.isSome := by
  rw [MIPRouteTable.createPackage_isSome]
  have hsub : ((T x).entries.map MIPRouteEntry.destination).toFinset ⊆ N.all := by
    intro d hd
    obtain ⟨e, he, rfl⟩ := List.mem_map.mp (List.mem_toFinset.mp hd)
    obtain ⟨z, _, hz⟩ := (h.distance x e he).1.1
    exact N.owned_mem hz
  have hcard := Finset.card_le_card hsub
  have hnodup : ((T x).entries.map MIPRouteEntry.destination).Nodup := (T x).unique
  rw [List.toFinset_card_of_nodup hnodup, List.length_map] at hcard
  have := N.small
  omega

theorem Converged.round {N : SmallNetwork Node} {k : ℕ} {T T' : Node → RouterTable}
    (h : Converged N k T) (hr : Round N T T') : Converged N (k + 1) T' := by
  obtain ⟨caches, packages, hcache, hpack, harr⟩ := hr
  -- an unpoisoned entry of an arriving package comes from an entry of the sender
  have hsource : ∀ a : Arrival Node,
      ∀ ch ∈ (routePackage (caches a.sender) a.out (packages a.sender)).used, ch.cost ≠ UINT_MAX →
        ∃ e ∈ (T a.sender).entries, e.toPackage = ch := fun a ch hch hmax =>
    RouterTable.mem_of_createPackage (hpack a.sender) (mem_poisonReverse hch hmax).1
  have hjust : ∀ y, ∀ e ∈ (T' y).entries, N.Justified y e := by
    intro y e he
    obtain ⟨arrivals, ⟨hlink, _⟩, hproc⟩ := harr y
    rcases mem_processArrivals hproc he with hold | ⟨a, ha, ch, hch, hmax, hd, hn, hc⟩
    · exact h.justified y e hold
    · obtain ⟨e₀, he₀, rfl⟩ := hsource a ch hch hmax
      exact N.justified_of_received (hlink a ha) (h.justified _ e₀ he₀).routeTo hd hn hc
  refine ⟨hjust, fun y e he => ?_, fun y d n hn hd => ?_⟩
  · -- a new entry is not dearer than the distance: a cheaper route was known before the round
    obtain ⟨arrivals, _, hproc⟩ := harr y
    have hle : e.cost.toNat ≤ k + 1 := by
      rcases mem_processArrivals hproc he with hold | ⟨a, _, ch, hch, hmax, _, _, hc⟩
      · exact (h.distance y e hold).2.trans (Nat.le_succ k)
      · obtain ⟨e₀, he₀, rfl⟩ := hsource a ch hch hmax
        have hk : e₀.toPackage.cost.toNat ≤ k := (h.distance _ e₀ he₀).2
        omega
    have hroute := (hjust y e he).routeTo
    refine ⟨⟨hroute, fun m hm hto => ?_⟩, hle⟩
    obtain ⟨n, hnm, hdist⟩ := hto.dist
    obtain ⟨f, hf, hfd, hfc⟩ :=
      within_processArrivals hproc (h.complete y e.destination n (by omega) hdist)
    rw [RouterTable.eq_of_dest hf he hfd] at hfc
    omega
  · obtain ⟨arrivals, ⟨_, hall⟩, hproc⟩ := harr y
    rcases Nat.lt_or_ge k n with hlt | hge
    · -- distance `k + 1`: a neighbour at distance `k` advertises its route without poison
      obtain rfl : n = k + 1 := by omega
      obtain ⟨x, hyx, hx⟩ := hd.step
      obtain ⟨j, i, hl⟩ := hyx
      obtain ⟨a, ha, rfl, rfl⟩ := hall x i j (N.link_symm hl)
      obtain ⟨e, he, rfl, _⟩ := h.complete a.sender d k le_rfl hx
      have hk : e.cost.toNat = k := (h.distance _ e he).1.unique hx
      have hlt := N.distance_lt hx
      have hmax : e.cost ≠ UINT_MAX := by
        intro hc
        rw [hc] at hk
        exact absurd hk (by simp [UINT_MAX]; omega)
      have hne : e.nextHop ≠ j.mipAddress :=
        nextHop_ne_of_farther (N.link_symm hl) (h.justified _ e he) (hk ▸ hd)
      have hused : e.toPackage ∈
          (routePackage (caches a.sender) a.out (packages a.sender)).used := by
        refine mem_poisonReverse_of_ne (RouterTable.mem_createPackage (hpack a.sender) he) ?_
        rwa [routeDestination_of_resolves (hcache a.sender) (N.link_symm hl)]
      have hw := within_of_arrival hproc ha hused hmax
      rwa [show e.toPackage.cost.toNat = k from hk] at hw
    · exact within_processArrivals hproc (h.complete y d n hge hd)

theorem converged_of_rounds {N : SmallNetwork Node} {k : ℕ} {T : Node → RouterTable}
    (h : Rounds N k T) : Converged N k T := by
  induction h with
  | start h => exact Converged.start h
  | round _ hr ih => exact ih.round hr

/-- **No round is stuck**: where the caches can be resolved, every reached state has a next one. -/
theorem Converged.exists_round {N : SmallNetwork Node} {k : ℕ} {T : Node → RouterTable}
    (h : Converged N k T) (hcache : ∀ x, ∃ cache, N.Resolves x cache) : ∃ T', Round N T T' := by
  classical
  choose caches hcaches using hcache
  choose packages hpackages using fun x => Option.isSome_iff_exists.mp (h.createPackage x)
  have hsize : ∀ x, (packages x).numEntries.toNat < MIP_TABLE_PACKAGE_ENTRIES_MAX_SIZE := by
    intro x
    obtain ⟨hlt, hn, _⟩ := MIPRouteTable.createPackage_eq_some (hpackages x)
    rw [hn]
    exact hlt
  -- the far end of every interface that has one
  have harrivals : ∀ y, ∃ arrivals, Complete N y arrivals := by
    intro y
    let far : InterfaceRecord → Option (Arrival Node) := fun j =>
      if hj : ∃ a : Arrival Node, N.link a.sender a.out y j ∧ a.inn = j then some hj.choose else none
    refine ⟨(N.interfaces y).filterMap far, fun a ha => ?_, fun x i j hl => ?_⟩
    · obtain ⟨j, _, hfar⟩ := List.mem_filterMap.mp ha
      by_cases hj : ∃ a : Arrival Node, N.link a.sender a.out y j ∧ a.inn = j
      · obtain rfl : hj.choose = a := by simpa [far, hj] using hfar
        rw [hj.choose_spec.2]
        exact hj.choose_spec.1
      · simp [far, hj] at hfar
    · have hj : ∃ a : Arrival Node, N.link a.sender a.out y j ∧ a.inn = j :=
        ⟨⟨x, i, j, fun _ => 0, fun _ => 0⟩, hl, rfl⟩
      have hend := N.one_end (N.link_symm hj.choose_spec.1) (N.link_symm hl)
      exact ⟨hj.choose, List.mem_filterMap.mpr ⟨j, N.link_mem' hl, by simp [far, hj]⟩, hend.1, hend.2⟩
  choose arrivals hcomplete using harrivals
  choose T' hT' using fun y =>
    Option.isSome_iff_exists.mp (processArrivals_isSome caches hsize (arrivals y) (T y))
  exact ⟨T', caches, packages, hcaches, hpackages, fun y => ⟨arrivals y, hcomplete y, hT' y⟩⟩

/-- **Convergence.**  After `k` rounds, in any order of processing, node `x` has an entry for `d` if
and only if `d` has an owner at distance at most `k`, the cost of the entry is that distance, and
every node can build the package of the next round. -/
theorem converged_rounds (N : SmallNetwork Node) {k : ℕ} {T : Node → RouterTable}
    (h : Rounds N k T) (x : Node) :
    (∀ d, ((T x).get d).isSome ↔ ∃ n, n ≤ k ∧ N.Distance d n x) ∧
    (∀ d e, (T x).get d = some e → N.Distance d e.cost.toNat x) ∧
    (T x).createPackage.isSome := by
  have hconv := converged_of_rounds h
  have hget : ∀ d e, (T x).get d = some e ↔ e ∈ (T x).entries ∧ e.destination = d :=
    fun d e => (T x).uniqueDest.get_eq_some_iff
  refine ⟨fun d => ?_, fun d e he => ?_, hconv.createPackage x⟩
  · constructor
    · intro hsome
      obtain ⟨e, he⟩ := Option.isSome_iff_exists.mp hsome
      obtain ⟨hmem, rfl⟩ := (hget d e).mp he
      exact ⟨e.cost.toNat, (hconv.distance x e hmem).2, (hconv.distance x e hmem).1⟩
    · intro h
      obtain ⟨n, hn, hd⟩ := h
      obtain ⟨e, he, hed, _⟩ := hconv.complete x d n hn hd
      exact Option.isSome_iff_exists.mpr ⟨e, (hget d e).mpr ⟨he, hed⟩⟩
  · obtain ⟨hmem, rfl⟩ := (hget d e).mp he
    exact (hconv.distance x e hmem).1

end

/-! ## one round of `pair` -/

def smallPair : SmallNetwork Bool where
  toPointToPoint := pair
  all := {10, 20}
  owned_mem {a x} h := by cases x <;> simp [pair] at h <;> simp [h]
  nonempty x := ⟨_, List.mem_singleton.mpr rfl⟩
  small := by decide

/-- each cache names the other node -/
def smallPairCaches (x : Bool) : MipArpCache :=
  ⟨[⟨if x then 10 else 20, 3, fun _ => 0, 0⟩], 10000, 0⟩

def smallPairArrivals (y : Bool) : List (Arrival Bool) :=
  [⟨!y, pairInterface !y, pairInterface y, fun _ => 1, fun _ => 2⟩]

def smallPairPackages (x : Bool) : MIPRouteTablePackage :=
  (pairStart.tables x).createPackage.get (by cases x <;> rfl)

def smallPairTables (y : Bool) : RouterTable :=
  (processArrivals smallPairCaches smallPairPackages (smallPairArrivals y)
    (pairStart.tables y)).get (by cases y <;> rfl)

theorem rounds_smallPair : Rounds smallPair 1 smallPairTables := by
  refine Rounds.round (Rounds.start initial_pairStart.2) ⟨smallPairCaches, smallPairPackages,
    ?_, fun x => (Option.some_get _).symm, fun y => ⟨smallPairArrivals y, ⟨?_, ?_⟩,
      (Option.some_get _).symm⟩⟩
  · intro x i y j hl
    obtain ⟨hxy, rfl, rfl⟩ := hl
    cases x <;> cases y <;> first | exact absurd rfl hxy | decide
  · intro a ha
    obtain rfl := List.mem_singleton.mp ha
    exact ⟨by cases y <;> decide, rfl, rfl⟩
  · intro x i j hl
    obtain ⟨hxy, rfl, rfl⟩ := hl
    exact ⟨_, List.mem_singleton.mpr rfl, by cases x <;> cases y <;> simp_all⟩

theorem converged_rounds_smallPair :
    (smallPairTables false).get 20 = some ⟨20, 20, 1, 2⟩ ∧ smallPair.Distance 20 1 false :=
  ⟨rfl, (converged_rounds smallPair rounds_smallPair false).2.1 20 ⟨20, 20, 1, 2⟩ rfl⟩

end MipStack
