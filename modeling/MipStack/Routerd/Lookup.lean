import MipStack.Routerd.DistanceVector

/-!
# What one routing update means for lookups

* `MIPRouteTable.route`          the lookup of a destination without its time;
* `updateLoop_append`            the loop over two lists, one after the other;
* `UniqueDest.get_updateRouting_of_le`   an offer that is not dearer takes the route over, at equal
                                 cost too;
* `UniqueDest.route_updateRouting`   **the route after an update**, from the route before it and the
                                 best offer;
* `updateRouting_meaning`        the order of the offers, a repeated update, costs, two neighbours.
-/

namespace MipStack
open Library

namespace MIPRouteTable

/-- next hop and cost -/
def route (t : MIPRouteTable) (d : MIPAddress) : Option (MIPAddress × UInt32) :=
  (t.get d).map fun e => (e.nextHop, e.cost)

variable {t : MIPRouteTable} {N N' : MIPRouteTable} {d : MIPAddress} {clock : Clock}

/-! ## the best offer takes the route over -/

theorem updateLoop_append (v : MIPAddress) (l l' : List MIPRouteEntry) :
    ∀ (clock : Clock) (t : MIPRouteTable), updateLoop v clock (l ++ l') t
      = updateLoop v (fun i => clock (i + l.length)) l' (updateLoop v clock l t) := by
  induction l with
  | nil => intro clock t; rfl
  | cons ch l ih => intro clock t; exact ih clock.tail (t.challenge (clock 0) v ch)

/-- an offer that wins changes the lookup of its destination only -/
theorem UniqueDest.get_challenge (hu : t.UniqueDest) {now : ℤ} {v : MIPAddress} {ch : MIPRouteEntry}
    (hb : ch.beats (t.get ch.destination) = true) (d : MIPAddress) :
    (t.challenge now v ch).get d =
      if d = ch.destination then some ⟨ch.destination, v, ch.cost + 1, now⟩ else t.get d := by
  rw [challenge_eq, if_pos hb]
  exact Unique.lookup_put hu ⟨ch.destination, v, ch.cost + 1, now⟩ d

/-- the lookup gives an entry made from an offer of `v` during the update -/
def TakenOver (clock : Clock) (v d : MIPAddress) (t : MIPRouteTable) : Prop :=
  ∃ c i, t.get d = some ⟨d, v, c, clock i⟩

theorem UniqueDest.takenOver_challenge (hu : t.UniqueDest) {v : MIPAddress} {i : ℕ}
    {ch : MIPRouteEntry} (h : TakenOver clock v d t) :
    TakenOver clock v d (t.challenge (clock i) v ch) := by
  by_cases hb : ch.beats (t.get ch.destination) = true
  · rw [TakenOver, hu.get_challenge hb]
    split
    · rename_i hd
      rw [hd]
      exact ⟨_, i, rfl⟩
    · exact h
  · rwa [challenge_of_not_beats hb]

theorem UniqueDest.takenOver_updateRouting (hu : t.UniqueDest) {readings : Clock}
    (hr : ∀ i, ∃ j, readings i = clock j) (h : TakenOver clock N.tableAddress d t) :
    TakenOver clock N.tableAddress d (t.updateRouting readings N) := by
  refine (updateRouting_induct_clock (P := fun t' => t'.UniqueDest ∧
    TakenOver clock N.tableAddress d t') (fun t' i ch _ hkept => ?_) ⟨hu, h⟩).2
  obtain ⟨hu', h'⟩ := hkept
  obtain ⟨j, hj⟩ := hr i
  rw [hj]
  exact ⟨hu'.challenge (clock j) N.tableAddress ch, hu'.takenOver_challenge h'⟩

theorem advertised_mono (hsub : ∀ ch ∈ N'.entries, ch ∈ N.entries) :
    N.advertised d ≤ N'.advertised d := by
  apply WithTop.forall_le_coe_iff_le.mp
  intro n hn
  obtain ⟨ch, hch, hle⟩ := advertised_le_iff.mp hn
  obtain ⟨hmem, hdest, hmax⟩ := mem_offers.mp hch
  exact advertised_le_iff.mpr ⟨ch, mem_offers.mpr ⟨hsub ch hmem, hdest, hmax⟩, hle⟩

/-- **An offer that is not dearer takes the route over.** -/
theorem UniqueDest.get_updateRouting_of_le (hu : t.UniqueDest) (clock : Clock) {m : ℕ}
    (hm : N.advertised d = m) (hle : N.advertised d ≤ t.costTo d) :
    ∃ c i, (t.updateRouting clock N).get d = some ⟨d, N.tableAddress, c, clock i⟩ ∧ c.toNat = m := by
  have hcost : (t.updateRouting clock N).costTo d = m := by
    rw [hu.costTo_updateRouting, min_eq_right hle, hm]
  -- the cheapest offer, with the offers before and after it
  obtain ⟨ch, hch, hchm⟩ := advertised_le_iff.mp hm.le
  obtain ⟨hmem, rfl, hmax⟩ := mem_offers.mp hch
  obtain ⟨before, after, hsplit⟩ := List.append_of_mem hmem
  have htake : TakenOver clock N.tableAddress ch.destination (t.updateRouting clock N) := by
    have hrun : t.updateRouting clock N = ((t.updateRouting clock ⟨N.tableAddress, 0, before⟩).challenge
        (clock (0 + before.length)) N.tableAddress ch).updateRouting
          (fun i => clock (i + 1 + before.length)) ⟨N.tableAddress, 0, after⟩ := by
      show updateLoop _ _ N.entries t = _
      rw [hsplit, updateLoop_append]
      rfl
    have hu1 := hu.updateRouting clock ⟨N.tableAddress, 0, before⟩
    have hb : ch.beats ((t.updateRouting clock ⟨N.tableAddress, 0, before⟩).get ch.destination)
        = true := by
      refine (ch.beats_iff _).mpr ⟨hmax, fun e he => ?_⟩
      obtain ⟨hemem, hd⟩ := hu1.get_eq_some_iff.mp he
      have hge : N.advertised ch.destination
          ≤ (t.updateRouting clock ⟨N.tableAddress, 0, before⟩).costTo ch.destination := by
        rw [hu.costTo_updateRouting]
        refine le_min hle (advertised_mono fun x hx => ?_)
        rw [hsplit]
        exact List.mem_append_left _ hx
      rw [hm, ← hd, hu1.costTo_of_mem hemem, Nat.cast_withTop, Nat.cast_withTop,
        WithTop.coe_le_coe] at hge
      omega
    rw [hrun]
    refine (hu1.challenge _ _ _).takenOver_updateRouting (N := ⟨N.tableAddress, 0, after⟩)
      (fun i => ⟨_, rfl⟩) ?_
    rw [TakenOver, hu1.get_challenge hb, if_pos rfl]
    exact ⟨_, _, rfl⟩
  obtain ⟨c, i, hget⟩ := htake
  refine ⟨c, i, hget, ?_⟩
  rw [costTo, hget] at hcost
  exact WithTop.coe_inj.mp hcost

/-- a destination without an offer, or with a cheaper route, stays as it is -/
theorem UniqueDest.get_updateRouting_of_top_or_lt (hu : t.UniqueDest)
    (h : N.advertised d = ⊤ ∨ t.costTo d < N.advertised d) :
    (t.updateRouting clock N).get d = t.get d := by
  rcases lt_or_eq_of_le (le_top : t.costTo d ≤ ⊤) with hlt | htop
  · refine hu.get_updateRouting_of_lt ?_
    rcases h with h | h
    · rwa [h]
    · exact h
  · have hcost : (t.updateRouting clock N).costTo d = ⊤ := by
      rw [hu.costTo_updateRouting, htop]
      rcases h with h | h
      · rw [h, min_self]
      · rw [htop] at h
        exact absurd h not_top_lt
    rw [costTo_eq_top_iff.mp hcost, costTo_eq_top_iff.mp htop]

/-! ## routes -/

/-- **The route after an update**: the best offer if it is not dearer than the route before, else
the route before. -/
theorem UniqueDest.route_updateRouting (hu : t.UniqueDest) :
    (t.updateRouting clock N).route d =
      if N.advertised d ≠ ⊤ ∧ N.advertised d ≤ t.costTo d then
        some (N.tableAddress, UInt32.ofNat ((N.advertised d).untopD 0))
      else t.route d := by
  split
  · rename_i h
    obtain ⟨m, hm⟩ := WithTop.ne_top_iff_exists.mp h.1
    obtain ⟨c, i, hget, hc⟩ := hu.get_updateRouting_of_le clock hm.symm h.2
    rw [route, hget, ← hm, ← hc]
    show some (N.tableAddress, c) = some (N.tableAddress, UInt32.ofNat c.toNat)
    rw [UInt32.ofNat_toNat]
  · rename_i h
    have hcases : N.advertised d = ⊤ ∨ t.costTo d < N.advertised d := by
      by_cases htop : N.advertised d = ⊤
      · exact Or.inl htop
      · exact Or.inr (not_le.mp fun hle => h ⟨htop, hle⟩)
    rw [route, hu.get_updateRouting_of_top_or_lt hcases]
    rfl

theorem advertised_perm (h : N.entries.Perm N'.entries) : N.advertised d = N'.advertised d :=
  le_antisymm (advertised_mono fun _ hx => h.mem_iff.mpr hx)
    (advertised_mono fun _ hx => h.mem_iff.mp hx)

/-- with one reading of the clock, the times of the entries are settled too -/
theorem UniqueDest.get_updateRouting_perm (hu : t.UniqueDest) (now : ℤ)
    (hv : N.tableAddress = N'.tableAddress) (h : N.entries.Perm N'.entries) :
    (t.updateRouting (fun _ => now) N).get d = (t.updateRouting (fun _ => now) N').get d := by
  have hadv : N.advertised d = N'.advertised d := advertised_perm h
  by_cases hcases : N.advertised d = ⊤ ∨ t.costTo d < N.advertised d
  · rw [hu.get_updateRouting_of_top_or_lt hcases,
      hu.get_updateRouting_of_top_or_lt (hadv ▸ hcases)]
  · push Not at hcases
    obtain ⟨m, hm⟩ := WithTop.ne_top_iff_exists.mp hcases.1
    have hm' : N'.advertised d = (m : ℕ) := hadv ▸ hm.symm
    obtain ⟨c, _, hget, hc⟩ := hu.get_updateRouting_of_le (fun _ => now) hm.symm hcases.2
    obtain ⟨c', _, hget', hc'⟩ :=
      hu.get_updateRouting_of_le (fun _ => now) hm' (hadv ▸ hcases.2)
    obtain rfl : c = c' := UInt32.toNat_inj.mp (hc.trans hc'.symm)
    rw [hget, hget', hv]

end MIPRouteTable

/-- **What an update means.**  The lookup of a destination is the best offer at its cost plus one, or
the one before; it does not depend on the order of the offers, a second update with the same table
changes no route, no cost rises, and two neighbours may come in either order. -/
theorem updateRouting_meaning {t : MIPRouteTable} (hu : t.UniqueDest) (clock : Clock)
    (N : MIPRouteTable) :
    (∀ d m, N.advertised d = (m : ℕ) → (∀ e, t.get d = some e → m ≤ e.cost.toNat) →
      ∃ e, (t.updateRouting clock N).get d = some e ∧ e.nextHop = N.tableAddress ∧
        e.cost.toNat = m) ∧
    (∀ d, (N.advertised d = ⊤ ∨ ∃ e, t.get d = some e ∧ (e.cost.toNat : ℕ) < N.advertised d) →
      (t.updateRouting clock N).get d = t.get d) ∧
    (∀ N' : MIPRouteTable, N.tableAddress = N'.tableAddress → N.entries.Perm N'.entries →
      ∀ d, (∀ clock', (t.updateRouting clock N).route d = (t.updateRouting clock' N').route d) ∧
        ∀ now, (t.updateRouting (fun _ => now) N).get d
          = (t.updateRouting (fun _ => now) N').get d) ∧
    (∀ clock' d, ((t.updateRouting clock N).updateRouting clock' N).route d
      = (t.updateRouting clock N).route d) ∧
    (∀ d e, t.get d = some e → ∃ e', (t.updateRouting clock N).get d = some e' ∧
      e'.cost.toNat ≤ e.cost.toNat) ∧
    ∀ (N' : MIPRouteTable) (clock' first second : Clock) (d : MIPAddress),
      ((t.updateRouting clock N).updateRouting clock' N').costTo d
        = ((t.updateRouting first N').updateRouting second N).costTo d := by
  have hcostTo : ∀ {d e}, t.get d = some e → t.costTo d = (e.cost.toNat : ℕ) := by
    intro d e he
    rw [MIPRouteTable.costTo, he]
  refine ⟨fun d m hm hle => ?_, fun d h => ?_, fun N' hv hperm d => ?_, fun clock' d => ?_,
    fun d e he => ?_, fun N' clock' first second d => ?_⟩
  · have hbest : N.advertised d ≤ t.costTo d := by
      rw [hm]
      cases hg : t.get d with
      | none => rw [MIPRouteTable.costTo_eq_top_iff.mpr hg]; exact le_top
      | some e =>
        rw [hcostTo hg, Nat.cast_withTop, Nat.cast_withTop, WithTop.coe_le_coe]
        exact hle e hg
    obtain ⟨c, i, hget, hc⟩ := hu.get_updateRouting_of_le clock hm hbest
    exact ⟨_, hget, rfl, hc⟩
  · refine hu.get_updateRouting_of_top_or_lt ?_
    rcases h with h | ⟨e, he, hlt⟩
    · exact Or.inl h
    · exact Or.inr (by rwa [hcostTo he])
  · refine ⟨fun clock' => ?_, fun now => hu.get_updateRouting_perm now hv hperm⟩
    rw [hu.route_updateRouting, hu.route_updateRouting, MIPRouteTable.advertised_perm hperm, hv]
  · rw [(hu.updateRouting clock N).route_updateRouting, hu.costTo_updateRouting]
    split
    · rename_i h
      rw [hu.route_updateRouting, if_pos ⟨h.1, h.2.trans (min_le_left _ _)⟩]
    · rfl
  · obtain ⟨hmem, hd⟩ := hu.get_eq_some_iff.mp he
    have hwithin : (t.updateRouting clock N).Within d e.cost.toNat :=
      hu.within_updateRouting ⟨e, hmem, hd, le_rfl⟩
    obtain ⟨e', he', hd', hle⟩ := hwithin
    exact ⟨e', (hu.updateRouting clock N).get_eq_some_iff.mpr ⟨he', hd'⟩, hle⟩
  · rw [(hu.updateRouting clock N).costTo_updateRouting, hu.costTo_updateRouting,
      (hu.updateRouting first N').costTo_updateRouting, hu.costTo_updateRouting, min_assoc,
      min_assoc, min_comm (N.advertised d)]

/-- neighbour 4 offers destination 9 twice; the cheaper offer replaces the route over 2 -/
theorem updateRouting_meaning_twice :
    ∃ e, ((⟨0, 5000, [⟨9, 2, 2, 0⟩]⟩ : MIPRouteTable).updateRouting (fun _ => 7)
        ⟨4, 5000, [⟨9, 4, 6, 0⟩, ⟨9, 4, 1, 0⟩]⟩).get 9 = some e ∧ e.nextHop = 4 ∧
      e.cost.toNat = 2 :=
  (updateRouting_meaning (t := ⟨0, 5000, [⟨9, 2, 2, 0⟩]⟩) (List.nodup_singleton _) (fun _ => 7)
    ⟨4, 5000, [⟨9, 4, 6, 0⟩, ⟨9, 4, 1, 0⟩]⟩).1 9 2 rfl fun e he => by
      obtain rfl := Option.some.inj he
      exact le_rfl

end MipStack
