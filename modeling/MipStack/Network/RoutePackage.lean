import MipStack.Mipd.Routing
import MipStack.Routerd.Lookup

/-!
# Route tables as packages, from one routerd to the next

* `createTable_createPackage`, `createPackage_createTable`   both ways of the exchange format;
* `MIPRouteTable.throughOthers`   a table without its routes over one neighbour;
* `updateLoop_poisoned`           a poisoned entry is passed over, so the loop is that over the others;
* `route_package_round_trip`      **what a receiver makes of a package** is what it would make of the
                                  sender's own entries, without those that were poisoned.
-/

namespace MipStack
open Library

/-! ## both ways -/

theorem createTable_createPackage {t : MIPRouteTable} {p : MIPRouteTablePackage}
    (h : t.createPackage = some p) (clock : Clock) : ∃ t', p.createTable clock = some t' ∧
      t'.entries.map MIPRouteEntry.toPackage = t.entries.map MIPRouteEntry.toPackage := by
  obtain ⟨hlt, hn, hused⟩ := MIPRouteTable.createPackage_eq_some h
  have hnum : p.numEntries.toNat < MIP_TABLE_PACKAGE_ENTRIES_MAX_SIZE := by
    rw [hn]
    exact hlt
  refine ⟨_, if_pos hnum, ?_⟩
  show (createEntries clock p.used).map _ = _
  rw [createEntries_toPackage, hused]

theorem createPackage_createTable {p : MIPRouteTablePackage} {clock : Clock} {t : MIPRouteTable}
    (h : p.createTable clock = some t) :
    ∃ p', t.createPackage = some p' ∧ p'.numEntries = p.numEntries ∧ p'.used = p.used := by
  obtain ⟨hlt, _, hentries⟩ := MIPRouteTablePackage.createTable_eq_some h
  have hused : p.used.length = p.numEntries.toNat := by
    rw [MIPRouteTablePackage.used, List.length_take, p.size]
    exact Nat.min_eq_left (by show p.numEntries.toNat ≤ 64; omega)
  have hlen : t.entries.length = p.numEntries.toNat := by
    rw [← hused, ← hentries, List.length_map]
  obtain ⟨p', hp'⟩ := Option.isSome_iff_exists.mp (t.createPackage_isSome.mpr (hlen ▸ hlt))
  obtain ⟨_, hn, hused'⟩ := MIPRouteTable.createPackage_eq_some hp'
  exact ⟨p', hp', UInt8.toNat_inj.mp (hn.trans hlen), hused'.trans hentries⟩

/-! ## poisoned entries -/

/-- the table's own entries, those over `a` left out, under the address `v` -/
def MIPRouteTable.throughOthers (t : MIPRouteTable) (a v : MIPAddress) : MIPRouteTable :=
  { t with tableAddress := v, entries := t.entries.filter fun e => e.nextHop ≠ a }

namespace MIPRouteTable

theorem challenge_poisoned (r : MIPRouteTable) (now : ℤ) (v : MIPAddress) {ch : MIPRouteEntry}
    (h : ch.cost = UINT_MAX) : r.challenge now v ch = r :=
  challenge_of_not_beats fun hb => ((ch.beats_iff _).mp hb).1 h

/-- the time of a challenger plays no part -/
theorem challenge_toPackage (r : MIPRouteTable) (now time : ℤ) (v : MIPAddress)
    (ch : MIPRouteEntry) :
    r.challenge now v (MIPRouteEntry.create time ch.destination ch.nextHop ch.cost)
      = r.challenge now v ch := rfl

/-- **Poisoned entries are passed over.** -/
theorem updateLoop_poisoned (v a : MIPAddress) (now : ℤ) (l : List MIPRouteEntry) (clock : Clock)
    (r : MIPRouteTable) :
    updateLoop v (fun _ => now) (createEntries clock
        ((l.map MIPRouteEntry.toPackage).map (MIPRoutePackageEntry.poison a))) r
      = updateLoop v (fun _ => now) (l.filter fun e => e.nextHop ≠ a) r := by
  induction l generalizing clock r with
  | nil => rfl
  | cons e l ih =>
    by_cases h : e.nextHop = a
    · have hpoison : e.toPackage.poison a = { e.toPackage with cost := UINT_MAX } := if_pos h
      rw [List.map_cons, List.map_cons, hpoison, List.filter_cons_of_neg (by simpa using h)]
      show updateLoop v _ _ (r.challenge now v _) = _
      rw [challenge_poisoned r now v rfl]
      exact ih clock.tail r
    · have hkeep : e.toPackage.poison a = e.toPackage := if_neg h
      rw [List.map_cons, List.map_cons, hkeep, List.filter_cons_of_pos (by simpa using h)]
      show updateLoop v _ _ (r.challenge now v (MIPRouteEntry.create (clock 0) e.destination e.nextHop
        e.cost)) = updateLoop v _ _ (r.challenge now v e)
      rw [challenge_toPackage]
      exact ih clock.tail (r.challenge now v e)

/-- the routes after an update do not depend on the clock -/
theorem UniqueDest.route_clock {r : MIPRouteTable} (hu : r.UniqueDest) (first second : Clock)
    (n : MIPRouteTable) (d : MIPAddress) :
    (r.updateRouting first n).route d = (r.updateRouting second n).route d := by
  rw [hu.route_updateRouting, hu.route_updateRouting]

end MIPRouteTable

/-- **A poisoned package updates a table as the sender's other entries do.** -/
theorem updateRouting_poisoned {t : MIPRouteTable} {p : MIPRouteTablePackage}
    (h : t.createPackage = some p) (a v : MIPAddress) (clock : Clock) :
    ∃ n, (poisonReverse { p with tableAddress := v } a).createTable clock = some n ∧
      ∀ (r : MIPRouteTable) (now : ℤ), r.updateRouting (fun _ => now) n
        = r.updateRouting (fun _ => now) (t.throughOthers a v) := by
  obtain ⟨hlt, hn, hused⟩ := MIPRouteTable.createPackage_eq_some h
  have hnum : p.numEntries.toNat < MIP_TABLE_PACKAGE_ENTRIES_MAX_SIZE := by
    rw [hn]
    exact hlt
  refine ⟨_, if_pos hnum, fun r now => ?_⟩
  show MIPRouteTable.updateLoop v _ (createEntries clock (poisonReverse _ a).used) r = _
  rw [used_poisonReverse]
  show MIPRouteTable.updateLoop v _ (createEntries clock (p.used.map _)) r = _
  rw [hused]
  exact MIPRouteTable.updateLoop_poisoned v a now t.entries clock r

/-- **The exchange format.**  A table comes out of its package as it went in, a package out of its
table; and a package poisoned for `a` updates every table with unique destinations as the entries do
that were not poisoned: entry for entry at one reading of the clock, and route for route at any. -/
theorem route_package_round_trip :
    (∀ (t : MIPRouteTable) (p : MIPRouteTablePackage), t.createPackage = some p →
      ∀ clock, ∃ t', p.createTable clock = some t' ∧
        t'.entries.map MIPRouteEntry.toPackage = t.entries.map MIPRouteEntry.toPackage) ∧
    (∀ (p : MIPRouteTablePackage) (clock : Clock) (t : MIPRouteTable),
      p.createTable clock = some t →
      ∃ p', t.createPackage = some p' ∧ p'.numEntries = p.numEntries ∧ p'.used = p.used) ∧
    ∀ (t : MIPRouteTable) (p : MIPRouteTablePackage), t.createPackage = some p →
      ∀ (a v : MIPAddress) (r : MIPRouteTable), r.UniqueDest → ∀ clock, ∃ n,
        (poisonReverse { p with tableAddress := v } a).createTable clock = some n ∧
        (∀ now d, (r.updateRouting (fun _ => now) n).get d
          = (r.updateRouting (fun _ => now) (t.throughOthers a v)).get d) ∧
        ∀ first second d, (r.updateRouting first n).route d
          = (r.updateRouting second (t.throughOthers a v)).route d := by
  refine ⟨fun t p h clock => createTable_createPackage h clock,
    fun p clock t h => createPackage_createTable h, fun t p h a v r hu clock => ?_⟩
  obtain ⟨n, hn, hsame⟩ := updateRouting_poisoned h a v clock
  refine ⟨n, hn, fun now d => by rw [hsame r now], fun first second d => ?_⟩
  rw [hu.route_clock first fun _ => 0, hsame r 0]
  exact hu.route_clock _ _ _ d

/-- a route over 4 is not taken from a package poisoned for 4 -/
theorem route_package_round_trip_poisoned : ∃ p n,
    (⟨0, 5000, [⟨9, 2, 2, 0⟩, ⟨7, 4, 1, 0⟩]⟩ : MIPRouteTable).createPackage = some p ∧
    (poisonReverse { p with tableAddress := 3 } 4).createTable (fun _ => 1) = some n ∧
    ((⟨0, 5000, []⟩ : MIPRouteTable).updateRouting (fun _ => 1) n).route 7 = none := by
  obtain ⟨n, hn, _, hroute⟩ := route_package_round_trip.2.2
    ⟨0, 5000, [⟨9, 2, 2, 0⟩, ⟨7, 4, 1, 0⟩]⟩ _ rfl 4 3 ⟨0, 5000, []⟩ unique_nil fun _ => 1
  exact ⟨_, n, rfl, hn, (hroute (fun _ => 1) (fun _ => 1) 7).trans rfl⟩

end MipStack
