import MipStack.Network.Asynchronous

/-!
# Routes that are kept up

Learned routes are removed when they have not been advertised for a while.  Here time passes: every
call takes its clock readings between its beginning and its end, and routerds remove old entries.

* `Maintained N heard sent s now`   at the time `now` the network is in the state `s`; since it knew
                       all routes the packages `sent` were made, poisoned as the caches say, and
                       node `y` has processed one of `x` since the time `heard y x`;
* `Maintained.expire`  the condition: when a node removes old entries, it has heard every neighbour
                       within the age at which they are too old;
* `Kept`               the invariant: a shortest route is at least as new as what was last heard from
                       every neighbour that is closer to the destination;
* `routes_maintained`  **no route is ever lost, and all of them stay shortest routes.**
-/

set_option linter.unusedSectionVars false

namespace MipStack
open Library

/-! ## one table -/

/-- no reading of the clock is too late for any entry -/
theorem removeOldLoop_eq_self {age : ℤ} (l : List MIPRouteEntry) :
    ∀ clock : Clock, (∀ e ∈ l, e.cost ≠ 0 → ∀ i, clock i - e.lastUpdatedMilli ≤ age) →
      removeOldLoop age clock l = (0, l) := by
  induction l with
  | nil => intro clock _; rfl
  | cons e l ih =>
    intro clock h
    have hrest : removeOldLoop age clock.tail l = (0, l) :=
      ih clock.tail fun x hx h0 i => h x (List.mem_cons_of_mem _ hx) h0 (i + 1)
    have hkeep : ¬ (e.toOld (clock 0) age && e.cost ≠ 0) = true := by
      intro hold
      rw [Bool.and_eq_true, decide_eq_true_iff] at hold
      have hle := h e List.mem_cons_self hold.2 0
      have hlt : clock 0 - e.lastUpdatedMilli > age := of_decide_eq_true hold.1
      omega
    rw [removeOldLoop, hrest]
    exact if_neg hkeep

namespace RouterTable
variable {t t' : RouterTable} {p : MIPRouteTablePackage} {decoded clock : Clock}

theorem removeOldEntries_eq_self
    (h : ∀ e ∈ t.entries, e.cost ≠ 0 → ∀ i, clock i - e.lastUpdatedMilli ≤ t.entryMaxAgeMilli) :
    t.toMIPRouteTable.removeOldEntries clock = (0, t.toMIPRouteTable) := by
  rw [MIPRouteTable.removeOldEntries, removeOldLoop_eq_self t.entries clock h]

/-- an entry is as old as before, or it has been made at a reading of the clock -/
theorem mem_receive_clock (h : t.receive p decoded clock = some t') {e : MIPRouteEntry}
    (he : e ∈ t'.entries) : e ∈ t.entries ∨ ∃ i, e.lastUpdatedMilli = clock i := by
  obtain ⟨neighbor, _, _, rfl⟩ := receive_eq_some h
  rcases t.uniqueDest.mem_updateRouting_clock he with hold | ⟨i, _, _, _, rfl⟩
  · exact Or.inl hold
  · exact Or.inr ⟨i, rfl⟩

theorem refreshed_of_received (h : t.receive p decoded clock = some t') {ch : MIPRoutePackageEntry}
    (hch : ch ∈ p.used) (hmax : ch.cost ≠ UINT_MAX)
    (htable : ∀ e ∈ t.entries, e.destination = ch.destination → ch.cost.toNat + 1 ≤ e.cost.toNat)
    (hlist : ∀ x ∈ p.used, x.destination = ch.destination → x.cost ≠ UINT_MAX →
      ch.cost.toNat ≤ x.cost.toNat) {e : MIPRouteEntry} (he : e ∈ t'.entries)
    (hd : e.destination = ch.destination) : ∃ i, e.lastUpdatedMilli = clock i := by
  obtain ⟨neighbor, _, hu, rfl⟩ := receive_eq_some h
  rw [← hu] at hch hlist
  obtain ⟨c, hc, rfl⟩ := List.mem_map.mp hch
  exact MIPRouteTable.refreshed_updateLoop neighbor.entries clock t.toMIPRouteTable t.uniqueDest hc
    hmax htable (fun x hx => hlist x.toPackage (List.mem_map_of_mem hx)) e he hd

end RouterTable

/-! ## the network in time -/

section
variable {Node : Type} [DecidableEq Node]

/-- readings of the clock during a call -/
def Clock.Between (clock : Clock) (now now' : ℤ) : Prop := ∀ i, now ≤ clock i ∧ clock i ≤ now'

inductive Maintained (N : SmallNetwork Node) :
    (Node → Node → ℤ) → List (Sent Node) → RoutingState Node → ℤ → Prop
  | start {s : RoutingState Node} {since now : ℤ}
      (hr : Reach N.Initial (RoutingStep N.toNetwork) s) (hk : KnownWithin N 63 s)
      (hnew : ∀ x, ∀ e ∈ (s.tables x).entries, e.cost ≠ 0 → since ≤ e.lastUpdatedMilli)
      (hnow : since ≤ now) : Maintained N (fun _ _ => since) [] s now
  | wait {heard sent s now now'} (h : Maintained N heard sent s now) (hnow : now ≤ now') :
      Maintained N heard sent s now'
  | advertise {heard sent s now} {x : Node} {p : MIPRouteTablePackage} {cache : MipArpCache}
      (h : Maintained N heard sent s now) (hp : (s.tables x).createPackage = some p)
      (hc : N.Resolves x cache) :
      Maintained N heard (sent ++ N.broadcast x p (routeDestination cache))
        (s.sent N.toNetwork x p cache) now
  /-- poisoned against anything; such a package counts for nothing -/
  | broadcast {heard sent s now} {x : Node} {p : MIPRouteTablePackage}
      (poison : InterfaceRecord → MIPAddress) (h : Maintained N heard sent s now)
      (hp : (s.tables x).createPackage = some p) :
      Maintained N heard sent { s with packages := s.packages ++ N.broadcast x p poison } now
  /-- any package that was ever sent -/
  | deliver {heard sent s now now'} {m : Sent Node} {y : Node} {j : InterfaceRecord}
      {t : RouterTable} {decoded clock : Clock} (h : Maintained N heard sent s now)
      (hm : m ∈ s.packages) (hl : N.link m.sender m.interface y j) (hnow : now ≤ now')
      (hclock : clock.Between now now')
      (hrec : (s.tables y).receive m.package decoded clock = some t) :
      Maintained N heard sent { s with tables := Function.update s.tables y t } now'
  | hear {heard sent s now now'} {m : Sent Node} {y : Node} {j : InterfaceRecord}
      {t : RouterTable} {decoded clock : Clock} (h : Maintained N heard sent s now)
      (hm : m ∈ sent) (hl : N.link m.sender m.interface y j) (hnow : now ≤ now')
      (hclock : clock.Between now now')
      (hrec : (s.tables y).receive m.package decoded clock = some t) :
      Maintained N (Function.update heard y (Function.update (heard y) m.sender now)) sent
        { s with tables := Function.update s.tables y t } now'
  | expire {heard sent s now now'} {x : Node} {clock : Clock} (h : Maintained N heard sent s now)
      (hnow : now ≤ now') (hclock : clock.Between now now')
      (hheard : ∀ z, N.Adjacent x z → now' - heard x z ≤ (s.tables x).entryMaxAgeMilli) :
      Maintained N heard sent
        { s with tables := Function.update s.tables x ((s.tables x).removeOldEntries clock) } now'

variable {N : SmallNetwork Node} {heard : Node → Node → ℤ} {sent : List (Sent Node)}
  {s : RoutingState Node} {now now' : ℤ}

/-- **What is kept.** -/
structure Kept (N : SmallNetwork Node) (heard : Node → Node → ℤ) (sent : List (Sent Node))
    (s : RoutingState Node) (now : ℤ) : Prop where
  sound : Sound N.toNetwork s
  known : KnownWithin N 63 s
  /-- the packages name the routes of their senders to those who are farther -/
  offered : ∀ m ∈ sent, m ∈ s.packages ∧ ∀ y j d n, N.link m.sender m.interface y j →
    N.Distance d n m.sender → N.Distance d (n + 1) y →
    ∃ ch ∈ m.package.used, ch.destination = d ∧ ch.cost ≠ UINT_MAX ∧ ch.cost.toNat = n
  past : ∀ y x, heard y x ≤ now
  recent : ∀ y x d n, N.Adjacent x y → N.Distance d n x → N.Distance d (n + 1) y →
    ∀ e ∈ (s.tables y).entries, e.destination = d → heard y x ≤ e.lastUpdatedMilli

/-- what is offered to a node that is one hop farther -/
theorem exists_offered {x y : Node} {i j : InterfaceRecord} {p : MIPRouteTablePackage}
    {cache : MipArpCache} (hs : Sound N.toNetwork s) (hk : KnownWithin N 63 s)
    (hp : (s.tables x).createPackage = some p) (hc : N.Resolves x cache) (hl : N.link x i y j)
    {d : MIPAddress} {n : ℕ} (hx : N.Distance d n x) (hy : N.Distance d (n + 1) y) :
    ∃ ch ∈ (routePackage cache i p).used, ch.destination = d ∧ ch.cost ≠ UINT_MAX ∧
      ch.cost.toNat = n := by
  have hlt := N.distance_lt hx
  obtain ⟨e, he, rfl, rfl⟩ := exists_entry_of_within hs (hk x d n (by omega) hx) hx
  have hne : e.nextHop ≠ j.mipAddress := nextHop_ne_of_farther hl (hs.tables x e he) hy
  refine ⟨e.toPackage, ?_, rfl, ?_, rfl⟩
  · refine mem_poisonReverse_of_ne (RouterTable.mem_createPackage hp he) ?_
    rwa [routeDestination_of_resolves hc hl]
  · intro hmax
    have hcost : e.cost = UINT_MAX := hmax
    rw [hcost] at hlt
    exact absurd hlt (by decide)

namespace Kept

theorem start {since : ℤ} (hr : Reach N.Initial (RoutingStep N.toNetwork) s)
    (hk : KnownWithin N 63 s)
    (hnew : ∀ x, ∀ e ∈ (s.tables x).entries, e.cost ≠ 0 → since ≤ e.lastUpdatedMilli)
    (hnow : since ≤ now) : Kept N (fun _ _ => since) [] s now where
  sound := sound_of_reach hr
  known := hk
  offered m hm := absurd hm List.not_mem_nil
  past _ _ := hnow
  recent y x d n _ _ hy e he hd := by
    refine hnew y e he ?_
    intro h0
    have hroute := ((sound_of_reach hr).tables y e he).routeTo
    rw [h0, hd] at hroute
    have hle := hy.le hroute
    exact absurd hle (by simp)

theorem mono (h : Kept N heard sent s now) (hnow : now ≤ now') : Kept N heard sent s now' :=
  ⟨h.sound, h.known, h.offered, fun y x => (h.past y x).trans hnow, h.recent⟩

theorem broadcast {x : Node} {p : MIPRouteTablePackage} (poison : InterfaceRecord → MIPAddress)
    (h : Kept N heard sent s now) (hp : (s.tables x).createPackage = some p) :
    Kept N heard sent { s with packages := s.packages ++ N.broadcast x p poison } now where
  sound := h.sound.exchange (Exchange.broadcast poison hp)
  known := h.known
  offered m hm := ⟨List.mem_append_left _ (h.offered m hm).1, (h.offered m hm).2⟩
  past := h.past
  recent := h.recent

theorem advertise {x : Node} {p : MIPRouteTablePackage} {cache : MipArpCache}
    (h : Kept N heard sent s now) (hp : (s.tables x).createPackage = some p)
    (hc : N.Resolves x cache) :
    Kept N heard (sent ++ N.broadcast x p (routeDestination cache)) (s.sent N.toNetwork x p cache)
      now := by
  have hb := h.broadcast (routeDestination cache) hp
  refine ⟨hb.sound, hb.known, ?_, hb.past, hb.recent⟩
  intro m hm
  rcases List.mem_append.mp hm with hold | hnew
  · exact hb.offered m hold
  · refine ⟨List.mem_append_right _ hnew, ?_⟩
    obtain ⟨i, _, rfl⟩ := List.mem_map.mp hnew
    intro y j d n hl hx hy
    exact exists_offered h.sound h.known hp hc hl hx hy

section
variable {m : Sent Node} {y : Node} {j : InterfaceRecord} {t : RouterTable} {decoded clock : Clock}

/-- a package makes no entry older than what has been heard -/
theorem deliver (h : Kept N heard sent s now) (hm : m ∈ s.packages)
    (hl : N.link m.sender m.interface y j) (hnow : now ≤ now') (hclock : clock.Between now now')
    (hrec : (s.tables y).receive m.package decoded clock = some t) :
    Kept N heard sent { s with tables := Function.update s.tables y t } now' where
  sound := h.sound.exchange (Exchange.deliver decoded clock hm hl hrec)
  known x d n hn hd := (Exchange.deliver decoded clock hm hl hrec).within (h.known x d n hn hd)
  offered := h.offered
  past z x := (h.past z x).trans hnow
  recent z x d n hadj hx hz e he hd := by
    by_cases hzy : z = y
    · obtain rfl := hzy
      have he' : e ∈ t.entries := by
        have he : e ∈ (Function.update s.tables z t z).entries := he
        rwa [Function.update_self] at he
      rcases RouterTable.mem_receive_clock hrec he' with hold | ⟨i, hi⟩
      · exact h.recent z x d n hadj hx hz e hold hd
      · rw [hi]
        exact (h.past z x).trans (hclock i).1
    · have he' : e ∈ (Function.update s.tables y t z).entries := he
      rw [Function.update_of_ne hzy] at he'
      exact h.recent z x d n hadj hx hz e he' hd

/-- a package that offers a shortest route makes the entry new -/
theorem refreshed (h : Kept N heard sent s now) (hm : m ∈ sent)
    (hl : N.link m.sender m.interface y j) (hclock : clock.Between now now')
    (hrec : (s.tables y).receive m.package decoded clock = some t) {d : MIPAddress} {n : ℕ}
    (hx : N.Distance d n m.sender) (hy : N.Distance d (n + 1) y) {e : MIPRouteEntry}
    (he : e ∈ t.entries) (hd : e.destination = d) : now ≤ e.lastUpdatedMilli := by
  obtain ⟨hmem, hoffer⟩ := h.offered m hm
  obtain ⟨ch, hch, rfl, hmax, rfl⟩ := hoffer y j d n hl hx hy
  obtain ⟨i, hi⟩ := RouterTable.refreshed_of_received hrec hch hmax
    (fun f hf hfd => hy.le (hfd ▸ (h.sound.tables y f hf).routeTo))
    (fun x hxu hxd hxmax => hx.le (hxd ▸ (h.sound.packages m hmem).2 x hxu hxmax)) he hd
  rw [hi]
  exact (hclock i).1

theorem hear (h : Kept N heard sent s now) (hm : m ∈ sent) (hl : N.link m.sender m.interface y j)
    (hnow : now ≤ now') (hclock : clock.Between now now')
    (hrec : (s.tables y).receive m.package decoded clock = some t) :
    Kept N (Function.update heard y (Function.update (heard y) m.sender now)) sent
      { s with tables := Function.update s.tables y t } now' := by
  have hd := h.deliver (h.offered m hm).1 hl hnow hclock hrec
  refine ⟨hd.sound, hd.known, hd.offered, ?_, ?_⟩
  · intro z x
    by_cases hz : z = y
    · obtain rfl := hz
      rw [Function.update_self]
      by_cases hx : x = m.sender
      · rwa [hx, Function.update_self]
      · rw [Function.update_of_ne hx]
        exact hd.past z x
    · rw [Function.update_of_ne hz]
      exact hd.past z x
  · intro z x d n hadj hx hz e he hdest
    by_cases hzy : z = y
    · obtain rfl := hzy
      rw [Function.update_self]
      by_cases hxm : x = m.sender
      · obtain rfl := hxm
        rw [Function.update_self]
        have he' : e ∈ (Function.update s.tables z t z).entries := he
        rw [Function.update_self] at he'
        exact h.refreshed hm hl hclock hrec hx hz he' hdest
      · rw [Function.update_of_ne hxm]
        exact hd.recent z x d n hadj hx hz e he hdest
    · rw [Function.update_of_ne hzy]
      exact hd.recent z x d n hadj hx hz e he hdest

end

/-- the cost of an entry is the distance of its destination -/
theorem distance (h : Kept N heard sent s now) {x : Node} {e : MIPRouteEntry}
    (he : e ∈ (s.tables x).entries) : N.Distance e.destination e.cost.toNat x := by
  obtain ⟨n, _, hdist⟩ := ((h.sound.tables x e he).routeTo).dist
  have hlt := N.distance_lt hdist
  obtain ⟨f, hf, hfd, hfc⟩ :=
    exists_entry_of_within h.sound (h.known x e.destination n (by omega) hdist) hdist
  rwa [RouterTable.eq_of_dest he hf hfd.symm, hfd, hfc]

/-- **Nothing is too old** at a node that has heard its neighbours. -/
theorem removeOldEntries (h : Kept N heard sent s now) {x : Node} {clock : Clock}
    (hclock : clock.Between now now')
    (hheard : ∀ z, N.Adjacent x z → now' - heard x z ≤ (s.tables x).entryMaxAgeMilli) :
    (s.tables x).toMIPRouteTable.removeOldEntries clock = (0, (s.tables x).toMIPRouteTable) := by
  refine RouterTable.removeOldEntries_eq_self ?_
  intro e he h0 i
  have hdist := h.distance he
  obtain ⟨n, hn⟩ : ∃ n, e.cost.toNat = n + 1 := by
    refine Nat.exists_eq_succ_of_ne_zero ?_
    intro hz
    exact h0 (UInt32.toNat_inj.mp hz)
  rw [hn] at hdist
  obtain ⟨z, hadj, hz⟩ := hdist.step
  have hadj' : N.Adjacent z x := by
    obtain ⟨i, j, hl⟩ := hadj
    exact ⟨j, i, N.link_symm hl⟩
  have hrecent := h.recent x z e.destination n hadj' hz hdist e he rfl
  have hlate := (hclock i).2
  have hage := hheard z hadj
  omega

theorem expire (h : Kept N heard sent s now) {x : Node} {clock : Clock} (hnow : now ≤ now')
    (hclock : clock.Between now now')
    (hheard : ∀ z, N.Adjacent x z → now' - heard x z ≤ (s.tables x).entryMaxAgeMilli) :
    Kept N heard sent
      { s with tables := Function.update s.tables x ((s.tables x).removeOldEntries clock) } now' := by
  have hsame : (s.tables x).removeOldEntries clock = s.tables x := by
    have heq := congrArg Prod.snd (h.removeOldEntries hclock hheard)
    generalize s.tables x = t at heq
    obtain ⟨table, unique⟩ := t
    exact (RouterTable.mk.injEq ..).mpr heq
  rw [hsame, Function.update_eq_self]
  exact h.mono hnow

end Kept

theorem Maintained.kept (h : Maintained N heard sent s now) : Kept N heard sent s now := by
  induction h with
  | start hr hk hnew hnow => exact Kept.start hr hk hnew hnow
  | wait _ hnow ih => exact ih.mono hnow
  | advertise _ hp hc ih => exact ih.advertise hp hc
  | broadcast poison _ hp ih => exact ih.broadcast poison hp
  | deliver _ hm hl hnow hclock hrec ih => exact ih.deliver hm hl hnow hclock hrec
  | hear _ hm hl hnow hclock hrec ih => exact ih.hear hm hl hnow hclock hrec
  | expire _ hnow hclock hheard ih => exact ih.expire hnow hclock hheard

/-- **Routes that are advertised are kept.**  As long as every node hears every neighbour again before
its entries are too old, whatever else is delayed, repeated or lost: every node has an entry for each
destination it can reach, at its distance and over a neighbour that is closer; there are no other
entries; and the removal of old entries removes none. -/
theorem routes_maintained (N : SmallNetwork Node) {heard : Node → Node → ℤ}
    {sent : List (Sent Node)} {s : RoutingState Node} {now : ℤ} (h : Maintained N heard sent s now)
    (x : Node) :
    (∀ d n, N.Distance d n x → ∃ e, (s.tables x).get d = some e ∧ e.cost.toNat = n ∧
      (0 < n → ∃ i y j, N.link x i y j ∧ j.mipAddress = e.nextHop ∧ N.Distance d (n - 1) y)) ∧
    (∀ d e, (s.tables x).get d = some e → N.Distance d e.cost.toNat x) ∧
    ∀ (now' : ℤ) (clock : Clock), clock.Between now now' →
      (∀ z, N.Adjacent x z → now' - heard x z ≤ (s.tables x).entryMaxAgeMilli) →
      (s.tables x).toMIPRouteTable.removeOldEntries clock = (0, (s.tables x).toMIPRouteTable) := by
  have hkept := h.kept
  refine ⟨?_, ?_, fun now' clock hclock hheard => hkept.removeOldEntries hclock hheard⟩
  · intro d n hd
    have hlt := N.distance_lt hd
    obtain ⟨e, he, rfl, rfl⟩ :=
      exists_entry_of_within hkept.sound (hkept.known x d n (by omega) hd) hd
    exact ⟨e, (s.tables x).uniqueDest.get_eq_some_iff.mpr ⟨he, rfl⟩, rfl,
      (hkept.sound.tables x e he).closer hd⟩
  · intro d e he
    obtain ⟨hmem, rfl⟩ := (s.tables x).uniqueDest.get_eq_some_iff.mp he
    exact hkept.distance hmem

end

/-! ## `pair` a little later -/

theorem ne_of_adjacent_pair {x y : Bool} (h : smallPair.Adjacent x y) : x ≠ y := by
  obtain ⟨i, j, hl⟩ := h
  exact hl.1

theorem distance_pair {d : MIPAddress} {n : ℕ} {x : Bool} (h : smallPair.Distance d n x) : n ≤ 1 := by
  by_contra hlt
  obtain ⟨k, rfl⟩ : ∃ k, n = k + 1 + 1 := ⟨n - 2, by omega⟩
  obtain ⟨y, hxy, hy⟩ := h.step
  obtain ⟨z, hyz, hz⟩ := hy.step
  -- there are two nodes, so the walk comes back
  obtain rfl : z = x := by
    have h1 := ne_of_adjacent_pair hxy
    have h2 := ne_of_adjacent_pair hyz
    revert h1 h2
    cases x <;> cases y <;> cases z <;> simp
  exact h.2 k (by omega) hz.1

theorem known_pairDone : KnownWithin smallPair 63 pairDone := by
  intro x d n _ hd
  obtain ⟨e, he, hn, _⟩ := phases_pairDone.get_of_distance (distance_pair hd) hd
  obtain ⟨hmem, rfl⟩ := (pairDone.tables x).uniqueDest.get_eq_some_iff.mp he
  exact ⟨e, hmem, rfl, hn.le⟩

/-- the next package of node `true` -/
def pairNext : MIPRouteTablePackage := ((pairDone.tables true).createPackage.get rfl)

/-- what node `false` makes of it -/
def pairNextTable : RouterTable :=
  ((pairDone.tables false).receive (routePackage (smallPairCaches true) (pairInterface true) pairNext)
    (fun _ => 10) fun _ => 11).get rfl

/-- nothing has been heard since the time 2, and node `false` hears node `true` at the time 10 -/
theorem maintained_pairNext : Maintained smallPair
    (Function.update (fun _ _ => 2) false (Function.update (fun _ => 2) true 10))
    (smallPair.broadcast true pairNext (routeDestination (smallPairCaches true)))
    { (pairDone.sent pair.toNetwork true pairNext (smallPairCaches true)) with
      tables := Function.update pairDone.tables false pairNextTable } 12 := by
  have hstart : Maintained smallPair (fun _ _ => 2) [] pairDone 10 := by
    refine Maintained.start (phases_pairDone.reach.mono fun _ _ => RoutingStep.exchange)
      known_pairDone ?_ (by decide)
    intro x e he h0
    revert e
    cases x <;> decide
  have hsent := hstart.advertise (x := true) (p := pairNext) (Option.some_get rfl).symm
    (resolves_smallPair true)
  refine hsent.hear (m := ⟨true, pairInterface true, _⟩) (j := pairInterface false) ?_
    ⟨by decide, rfl, rfl⟩ (by decide) (fun _ => ⟨by decide, by decide⟩) (Option.some_get rfl).symm
  exact List.mem_map_of_mem (List.mem_singleton_self _)

/-- the route of node `false` stays when old entries are removed at the time 5000, though it had been
made at the time 2 -/
theorem routes_maintained_pair : pairNextTable.toMIPRouteTable.removeOldEntries (fun _ => 5000)
    = (0, pairNextTable.toMIPRouteTable) := by
  refine (routes_maintained smallPair maintained_pairNext false).2.2 5000 (fun _ => 5000)
    (fun _ => by simp) ?_
  intro z hz
  obtain rfl : z = true := by
    have hne := ne_of_adjacent_pair hz
    revert hne
    cases z <;> simp
  decide

end MipStack
