import MipStack.Routerd.Update
import Mathlib.Algebra.Order.Monoid.Unbundled.WithTop
import Mathlib.Algebra.Order.Ring.Nat
import Mathlib.Data.List.MinMax
import Mathlib.Data.Nat.Cast.WithTop
import Mathlib.Order.Lattice.Nat

/-!
# Route tables as distance vectors

A distance vector sends a destination to a cost in `WithTop ℕ`, `⊤` for "no route".

* `MIPRouteTable.costTo`       the vector that a table stores;
* `MIPRouteTable.advertised`   `C(x,v) + Dv`: what a neighbour table offers, where a poisoned or
                               missing entry is `⊤`;
* `costTo_updateRouting`       **an update is the pointwise minimum of the two vectors**;
* `get_updateRouting_of_lt`    a dearer offer leaves the route as it is, next hop included;
* `process`                    a run of advertisements, nothing expires;
* `costTo_process`             after a run the table stores the minimum over ALL advertisements;
* `bellmanCost`                the README's equation over the LATEST advertisement of each
                               neighbour, which the table does not follow: see
                               `process_ne_bellmanCost`.
-/

namespace MipStack
open Library

namespace MIPRouteTable

def costTo (t : MIPRouteTable) (d : MIPAddress) : WithTop ℕ :=
  match t.get d with
  | some e => (e.cost.toNat : WithTop ℕ)
  | none => ⊤

def offers (N : MIPRouteTable) (d : MIPAddress) : List MIPRouteEntry :=
  N.entries.filter fun ch => ch.destination = d ∧ ch.cost ≠ UINT_MAX

/-- one link more than the cheapest unpoisoned entry for `d` -/
def advertised (N : MIPRouteTable) (d : MIPAddress) : WithTop ℕ :=
  ((N.offers d).map fun ch => ch.cost.toNat + 1).minimum

variable {t : MIPRouteTable} {N : MIPRouteTable} {d : MIPAddress} {clock : Clock}

theorem mem_offers {ch : MIPRouteEntry} :
    ch ∈ N.offers d ↔ ch ∈ N.entries ∧ ch.destination = d ∧ ch.cost ≠ UINT_MAX := by
  simp [offers]

theorem advertised_le_iff {n : ℕ} :
    N.advertised d ≤ n ↔ ∃ ch ∈ N.offers d, ch.cost.toNat + 1 ≤ n := by
  rw [advertised, Nat.cast_withTop, List.minimum_le_coe_iff]
  simp

theorem UniqueDest.costTo_le_iff (hu : t.UniqueDest) {n : ℕ} : t.costTo d ≤ n ↔ t.Within d n := by
  unfold costTo
  cases hg : t.get d with
  | none =>
    refine iff_of_false (by simp) ?_
    intro hwithin
    obtain ⟨e, he, hd, _⟩ := hwithin
    rw [hu.get_eq_some_iff.mpr ⟨he, hd⟩] at hg
    cases hg
  | some e =>
    obtain ⟨he, hd⟩ := hu.get_eq_some_iff.mp hg
    show (e.cost.toNat : WithTop ℕ) ≤ n ↔ _
    rw [Nat.cast_withTop, Nat.cast_withTop, WithTop.coe_le_coe]
    constructor
    · exact fun h => ⟨e, he, hd, h⟩
    · intro hwithin
      obtain ⟨e', he', hd', hn⟩ := hwithin
      rwa [hu.eq_of_dest he he' (hd.trans hd'.symm)]

theorem costTo_eq_top_iff : t.costTo d = ⊤ ↔ t.get d = none := by
  unfold costTo
  cases t.get d <;> simp

theorem UniqueDest.costTo_of_mem (hu : t.UniqueDest) {e : MIPRouteEntry} (he : e ∈ t.entries) :
    t.costTo e.destination = e.cost.toNat := by
  rw [costTo, hu.get_eq_some_iff.mpr ⟨he, rfl⟩]

/-- **An update is the pointwise minimum** of the stored vector and the advertised one. -/
theorem UniqueDest.costTo_updateRouting (hu : t.UniqueDest) :
    (t.updateRouting clock N).costTo d = min (t.costTo d) (N.advertised d) := by
  apply WithTop.eq_of_forall_le_coe_iff
  intro n
  rw [min_le_iff, ← Nat.cast_withTop, hu.costTo_le_iff,
    (hu.updateRouting clock N).costTo_le_iff, advertised_le_iff]
  constructor
  · intro hwithin
    obtain ⟨e, he, hd, hn⟩ := hwithin
    rcases hu.mem_updateRouting he with hold | ⟨ch, hch, hmax, hdest, _, hcost⟩
    · exact Or.inl ⟨e, hold, hd, hn⟩
    · exact Or.inr ⟨ch, mem_offers.mpr ⟨hch, hdest.symm.trans hd, hmax⟩, by omega⟩
  · intro hmin
    rcases hmin with h | ⟨ch, hch, hn⟩
    · exact hu.within_updateRouting h
    · obtain ⟨hmem, hdest, hmax⟩ := mem_offers.mp hch
      rw [← hdest]
      exact (hu.within_of_advertised hmem hmax).mono hn

/-- a dearer offer leaves the route as it is, next hop included -/
theorem UniqueDest.get_updateRouting_of_lt (hu : t.UniqueDest)
    (h : t.costTo d < N.advertised d) : (t.updateRouting clock N).get d = t.get d := by
  have hu' := hu.updateRouting clock N
  have hcost : (t.updateRouting clock N).costTo d = min (t.costTo d) (N.advertised d) :=
    hu.costTo_updateRouting
  rw [min_eq_left h.le] at hcost
  cases hg : (t.updateRouting clock N).get d with
  | none =>
    rw [costTo_eq_top_iff.mpr hg] at hcost
    exact (costTo_eq_top_iff.mp hcost.symm).symm
  | some e =>
    obtain ⟨he, rfl⟩ := hu'.get_eq_some_iff.mp hg
    rcases hu.mem_updateRouting he with hold | ⟨ch, hch, hmax, hdest, _, hc⟩
    · exact (hu.get_eq_some_iff.mpr ⟨hold, rfl⟩).symm
    · -- a new entry costs at least what was advertised, more than the stored cost
      have hadv : N.advertised e.destination ≤ (e.cost.toNat : ℕ) :=
        advertised_le_iff.mpr ⟨ch, mem_offers.mpr ⟨hch, hdest.symm, hmax⟩, hc.ge⟩
      rw [← hcost, hu'.costTo_of_mem he] at h
      exact absurd hadv (not_le.mpr h)

end MIPRouteTable

/-! ## runs of advertisements -/

/-- a neighbour table that arrives, with the clock readings of its processing -/
structure Advertisement where
  clock : Clock
  table : MIPRouteTable

def process (t : RouterTable) (ads : List Advertisement) : RouterTable :=
  ads.foldl (fun t a => t.updateRouting a.clock a.table) t

def leastCost (l : List (WithTop ℕ)) : WithTop ℕ := l.foldr min ⊤

/-- the last advertisement of every neighbour heard -/
def latest : List Advertisement → List Advertisement
  | [] => []
  | a :: l =>
    if l.any fun b => b.table.tableAddress = a.table.tableAddress then latest l else a :: latest l

/-- `min { C(x,v) + Dv(d) }`, with `Dv` the most recent vector of each neighbour `v` -/
def bellmanCost (ads : List Advertisement) (d : MIPAddress) : WithTop ℕ :=
  leastCost ((latest ads).map fun a => a.table.advertised d)

theorem costTo_process (t : RouterTable) (ads : List Advertisement) (d : MIPAddress) :
    (process t ads).costTo d
      = min (t.costTo d) (leastCost (ads.map fun a => a.table.advertised d)) := by
  induction ads generalizing t with
  | nil => simp [process, leastCost]
  | cons a ads ih =>
    show (process (t.updateRouting a.clock a.table) ads).costTo d = _
    rw [ih, List.map_cons]
    show min ((t.toMIPRouteTable.updateRouting a.clock a.table).costTo d) _ = min _ (min _ _)
    rw [t.unique.costTo_updateRouting, min_assoc]
    rfl

theorem RouterTable.costTo_create {clock : Clock} {addresses : List MIPAddress} {d : MIPAddress}
    (hd : d ∉ addresses) : (RouterTable.create clock addresses).costTo d = ⊤ := by
  refine MIPRouteTable.costTo_eq_top_iff.mpr (lookup_eq_none_iff.mpr fun e he hde => hd ?_)
  exact hde ▸ (RouterTable.mem_create he).2

theorem leastCost_eq_top_iff (l : List (WithTop ℕ)) : leastCost l = ⊤ ↔ ∀ c ∈ l, c = ⊤ := by
  induction l with
  | nil => simp [leastCost]
  | cons c l ih =>
    rw [List.forall_mem_cons, ← ih]
    exact min_eq_top

/-- the stored vector after any run is the minimum over every advertisement ever processed; a
dearer offer never changes a route -/
theorem process_costTo (clock : Clock) (addresses : List MIPAddress) (ads : List Advertisement)
    (d : MIPAddress) (hd : d ∉ addresses) :
    (process (RouterTable.create clock addresses) ads).costTo d
        = leastCost (ads.map fun a => a.table.advertised d) ∧
      ((process (RouterTable.create clock addresses) ads).get d = none ↔
        ∀ a ∈ ads, a.table.advertised d = ⊤) ∧
      ∀ a : Advertisement, leastCost (ads.map fun a => a.table.advertised d) < a.table.advertised d →
        (process (RouterTable.create clock addresses) (ads ++ [a])).get d
          = (process (RouterTable.create clock addresses) ads).get d := by
  have hcost : (process (RouterTable.create clock addresses) ads).costTo d
      = leastCost (ads.map fun a => a.table.advertised d) := by
    rw [costTo_process, RouterTable.costTo_create hd, min_eq_right le_top]
  refine ⟨hcost, ?_, fun a ha => ?_⟩
  · rw [← MIPRouteTable.costTo_eq_top_iff, hcost, leastCost_eq_top_iff]
    simp
  · have hlast : process (RouterTable.create clock addresses) (ads ++ [a])
        = (process (RouterTable.create clock addresses) ads).updateRouting a.clock a.table := by
      simp [process]
    rw [hlast]
    exact (process (RouterTable.create clock addresses) ads).unique.get_updateRouting_of_lt
      (hcost ▸ ha)

theorem process_costTo_raised :
    (process (RouterTable.create (fun _ => 0) [1])
      [⟨fun _ => 0, ⟨2, 5000, [⟨9, 2, 1, 0⟩]⟩⟩, ⟨fun _ => 0, ⟨2, 5000, [⟨9, 2, 5, 0⟩]⟩⟩]).costTo 9
      = leastCost [2, 6] :=
  (process_costTo (fun _ => 0) [1]
    [⟨fun _ => 0, ⟨2, 5000, [⟨9, 2, 1, 0⟩]⟩⟩, ⟨fun _ => 0, ⟨2, 5000, [⟨9, 2, 5, 0⟩]⟩⟩] 9
    (by decide)).1

/-- **The README's equation fails** when the next hop itself raises the cost of a route: neighbour
2 advertises destination 9 at cost 1 and then at cost 5; the table keeps 2, the equation says 6. -/
theorem process_ne_bellmanCost :
    ¬ ∀ (addresses : List MIPAddress) (ads : List Advertisement) (d : MIPAddress), d ∉ addresses →
      (process (RouterTable.create (fun _ => 0) addresses) ads).costTo d = bellmanCost ads d := by
  intro h
  have h9 := h [1]
    [⟨fun _ => 0, ⟨2, 5000, [⟨9, 2, 1, 0⟩]⟩⟩, ⟨fun _ => 0, ⟨2, 5000, [⟨9, 2, 5, 0⟩]⟩⟩] 9 (by decide)
  revert h9
  decide

end MipStack
