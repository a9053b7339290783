import MipStack.Routerd.RouteTable

/-!
# What one routing update does to a table

For a table with unique destinations and any neighbour table:

* `MIPRouteTable.updateRouting_induct`   a property kept by every challenge is kept by the update;
* `mem_updateRouting_clock`, `mem_updateRouting`   an entry of the new table is an old one, or an
                            unpoisoned entry of the neighbour with its cost plus one and the
                            neighbour as next hop;
* `within_updateRouting`    costs never rise and no destination is lost;
* `within_of_advertised`    an unpoisoned entry of the neighbour is taken into account;
* `refreshed_updateLoop`    a route that is advertised again, at its cost, is as good as new;
* `local_updateRouting`     entries of cost 0 stay;
* `updateRouting_eq_self`   a neighbour that offers nothing better changes nothing.

`RouterTable` carries the uniqueness of its destinations; `RouterTable.create`, `.updateRouting`
and `.removeOldEntries` are the operations of a routerd on its own table.
-/

namespace MipStack
open Library

namespace MIPRouteTable

def Within (t : MIPRouteTable) (d : MIPAddress) (n : ℕ) : Prop :=
  ∃ e ∈ t.entries, e.destination = d ∧ e.cost.toNat ≤ n

def UniqueDest (t : MIPRouteTable) : Prop := Unique MIPRouteEntry.destination t.entries

variable {t : MIPRouteTable} {now : ℤ} {v : MIPAddress} {ch e : MIPRouteEntry}

theorem Within.mono {d : MIPAddress} {n m : ℕ} (h : t.Within d n) (hnm : n ≤ m) : t.Within d m := by
  obtain ⟨e, he, hd, hc⟩ := h
  exact ⟨e, he, hd, hc.trans hnm⟩

theorem within_of_mem (he : e ∈ t.entries) : t.Within e.destination e.cost.toNat :=
  ⟨e, he, rfl, le_rfl⟩

theorem UniqueDest.get_eq_some_iff (hu : t.UniqueDest) {d : MIPAddress} :
    t.get d = some e ↔ e ∈ t.entries ∧ e.destination = d := hu.lookup_eq_some_iff

theorem UniqueDest.eq_of_dest (hu : t.UniqueDest) {e' : MIPRouteEntry} (he : e ∈ t.entries)
    (he' : e' ∈ t.entries) (hd : e.destination = e'.destination) : e = e' :=
  Unique.eq_of_key hu he he' hd

/-! ## one challenge -/

/-- an accepted challenger is unpoisoned and not dearer than the champion -/
theorem UniqueDest.beats (hu : t.UniqueDest)
    (hb : ch.beats (t.get ch.destination) = true) :
    ch.cost ≠ UINT_MAX ∧
      ∀ e ∈ t.entries, e.destination = ch.destination → ch.cost.toNat + 1 ≤ e.cost.toNat := by
  obtain ⟨h1, h2⟩ := (ch.beats_iff _).mp hb
  exact ⟨h1, fun e he hd => h2 e (hu.get_eq_some_iff.mpr ⟨he, hd⟩)⟩

theorem UniqueDest.mem_challenge (hu : t.UniqueDest)
    (hb : ch.beats (t.get ch.destination) = true) :
    e ∈ (t.challenge now v ch).entries ↔
      e = ⟨ch.destination, v, ch.cost + 1, now⟩ ∨
        (e ∈ t.entries ∧ e.destination ≠ ch.destination) := by
  rw [challenge_eq, if_pos hb]
  exact Unique.mem_put hu

theorem challenge_of_not_beats (hb : ¬ ch.beats (t.get ch.destination) = true) :
    t.challenge now v ch = t := by rw [challenge_eq, if_neg hb]

theorem UniqueDest.challenge (hu : t.UniqueDest) (now : ℤ) (v : MIPAddress)
    (ch : MIPRouteEntry) : (t.challenge now v ch).UniqueDest := by
  rw [challenge_eq]
  split
  · exact Unique.put hu _
  · exact hu

theorem UniqueDest.within_challenge (hu : t.UniqueDest) {d : MIPAddress} {n : ℕ}
    (h : t.Within d n) : (t.challenge now v ch).Within d n := by
  by_cases hb : ch.beats (t.get ch.destination) = true
  · obtain ⟨hmax, hle⟩ := hu.beats hb
    obtain ⟨e, he, rfl, hn⟩ := h
    by_cases hd : e.destination = ch.destination
    · refine ⟨_, (hu.mem_challenge hb).mpr (Or.inl rfl), hd.symm, ?_⟩
      have := hle e he hd
      rw [cost_succ hmax]
      omega
    · exact ⟨e, (hu.mem_challenge hb).mpr (Or.inr ⟨he, hd⟩), rfl, hn⟩
  · rwa [challenge_of_not_beats hb]

/-- after its challenge an unpoisoned challenger is taken into account, accepted or not -/
theorem UniqueDest.within_of_challenge (hu : t.UniqueDest) (hmax : ch.cost ≠ UINT_MAX) :
    (t.challenge now v ch).Within ch.destination (ch.cost.toNat + 1) := by
  by_cases hb : ch.beats (t.get ch.destination) = true
  · exact ⟨_, (hu.mem_challenge hb).mpr (Or.inl rfl), rfl, (cost_succ hmax).le⟩
  · rw [challenge_of_not_beats hb]
    rw [ch.beats_iff] at hb
    push Not at hb
    obtain ⟨e, he, hlt⟩ := hb hmax
    obtain ⟨hmem, hd⟩ := hu.get_eq_some_iff.mp he
    exact ⟨e, hmem, hd, by omega⟩

/-! ## a whole neighbour table -/

variable {clock : Clock} {N : MIPRouteTable}

/-- **What every challenge keeps, the update keeps**; every challenge has its own clock reading. -/
theorem updateRouting_induct_clock {P : MIPRouteTable → Prop}
    (hstep : ∀ t i ch, ch ∈ N.entries → P t → P (t.challenge (clock i) N.tableAddress ch))
    (h : P t) : P (t.updateRouting clock N) := by
  have hloop : ∀ (l : List MIPRouteEntry) (readings : Clock) (t : MIPRouteTable),
      (∀ ch ∈ l, ch ∈ N.entries) → (∀ i, ∃ j, readings i = clock j) → P t →
      P (updateLoop N.tableAddress readings l t) := by
    intro l
    induction l with
    | nil => intro readings t _ _ h; exact h
    | cons ch l ih =>
      intro readings t hl hr h
      obtain ⟨j, hj⟩ := hr 0
      refine ih _ _ (fun x hx => hl x (List.mem_cons_of_mem _ hx)) (fun i => hr (i + 1)) ?_
      rw [hj]
      exact hstep t j ch (hl ch List.mem_cons_self) h
  exact hloop N.entries clock t (fun _ hx => hx) (fun i => ⟨i, rfl⟩) h

theorem updateRouting_induct {P : MIPRouteTable → Prop}
    (hstep : ∀ t now ch, ch ∈ N.entries → P t → P (t.challenge now N.tableAddress ch))
    (h : P t) : P (t.updateRouting clock N) :=
  updateRouting_induct_clock (fun t i ch hch => hstep t (clock i) ch hch) h

theorem UniqueDest.updateRouting (hu : t.UniqueDest) (clock : Clock) (N : MIPRouteTable) :
    (t.updateRouting clock N).UniqueDest :=
  updateRouting_induct (fun _ now ch _ h => h.challenge now N.tableAddress ch) hu

/-- **Where an entry comes from**: it was there before, or it is an unpoisoned entry of the
neighbour, one link further away and as old as its own clock reading. -/
theorem UniqueDest.mem_updateRouting_clock (hu : t.UniqueDest)
    (he : e ∈ (t.updateRouting clock N).entries) :
    e ∈ t.entries ∨ ∃ i, ∃ ch ∈ N.entries, ch.cost ≠ UINT_MAX ∧
      e = ⟨ch.destination, N.tableAddress, ch.cost + 1, clock i⟩ := by
  revert e
  refine (updateRouting_induct_clock (P := fun t' => t'.UniqueDest ∧ ∀ {e : MIPRouteEntry},
    e ∈ t'.entries → e ∈ t.entries ∨ ∃ i, ∃ ch ∈ N.entries, ch.cost ≠ UINT_MAX ∧
      e = ⟨ch.destination, N.tableAddress, ch.cost + 1, clock i⟩) ?_ ⟨hu, fun h => Or.inl h⟩).2
  intro t' i ch hch hkept
  obtain ⟨hu', ih⟩ := hkept
  refine ⟨hu'.challenge (clock i) N.tableAddress ch, fun {e} he => ?_⟩
  by_cases hb : ch.beats (t'.get ch.destination) = true
  · rcases (hu'.mem_challenge hb).mp he with rfl | ⟨hmem, _⟩
    · exact Or.inr ⟨i, ch, hch, (hu'.beats hb).1, rfl⟩
    · exact ih hmem
  · rw [challenge_of_not_beats hb] at he
    exact ih he

theorem UniqueDest.mem_updateRouting (hu : t.UniqueDest)
    (he : e ∈ (t.updateRouting clock N).entries) :
    e ∈ t.entries ∨ ∃ ch ∈ N.entries, ch.cost ≠ UINT_MAX ∧ e.destination = ch.destination ∧
      e.nextHop = N.tableAddress ∧ e.cost.toNat = ch.cost.toNat + 1 := by
  rcases hu.mem_updateRouting_clock he with hold | ⟨i, ch, hch, hmax, rfl⟩
  · exact Or.inl hold
  · exact Or.inr ⟨ch, hch, hmax, rfl, rfl, cost_succ hmax⟩

theorem UniqueDest.within_updateRouting (hu : t.UniqueDest) {d : MIPAddress} {n : ℕ}
    (h : t.Within d n) : (t.updateRouting clock N).Within d n :=
  (updateRouting_induct (P := fun t' => t'.UniqueDest ∧ t'.Within d n)
    (fun _ now ch _ h' => ⟨h'.1.challenge now N.tableAddress ch, h'.1.within_challenge h'.2⟩)
    ⟨hu, h⟩).2

theorem within_updateLoop (l : List MIPRouteEntry) :
    ∀ (clock : Clock) (t : MIPRouteTable), t.UniqueDest → ∀ ch ∈ l, ch.cost ≠ UINT_MAX →
      (updateLoop v clock l t).Within ch.destination (ch.cost.toNat + 1) := by
  induction l with
  | nil => intro clock t _ ch hch; cases hch
  | cons x l ih =>
    intro clock t hu ch hch hmax
    have hx := hu.challenge (clock 0) v x
    rcases List.mem_cons.mp hch with rfl | hl
    · -- the rest of the loop is the update with the rest of the neighbour's entries
      show ((t.challenge (clock 0) v ch).updateRouting clock.tail ⟨v, 0, l⟩).Within _ _
      exact hx.within_updateRouting (hu.within_of_challenge hmax)
    · exact ih clock.tail _ hx ch hl hmax

theorem UniqueDest.within_of_advertised (hu : t.UniqueDest) (hch : ch ∈ N.entries)
    (hmax : ch.cost ≠ UINT_MAX) :
    (t.updateRouting clock N).Within ch.destination (ch.cost.toNat + 1) :=
  within_updateLoop N.entries clock t hu ch hch hmax

/-- **An advertised route that nothing undercuts has its time set**: after the update the entry for its
destination carries a reading of the clock. -/
theorem refreshed_updateLoop (l : List MIPRouteEntry) :
    ∀ (clock : Clock) (t : MIPRouteTable), t.UniqueDest → ch ∈ l → ch.cost ≠ UINT_MAX →
      (∀ e ∈ t.entries, e.destination = ch.destination → ch.cost.toNat + 1 ≤ e.cost.toNat) →
      (∀ x ∈ l, x.destination = ch.destination → x.cost ≠ UINT_MAX →
        ch.cost.toNat ≤ x.cost.toNat) →
      ∀ e ∈ (updateLoop v clock l t).entries, e.destination = ch.destination →
        ∃ i, e.lastUpdatedMilli = clock i := by
  induction l with
  | nil => intro clock t _ hch; cases hch
  | cons x l ih =>
    intro clock t hu hch hmax htable hlist e he hd
    have hx := hu.challenge (clock 0) v x
    rcases List.mem_cons.mp hch with rfl | hl
    · -- the challenge is won; what comes after it brings its own readings
      have hb : ch.beats (t.get ch.destination) = true := (ch.beats_iff _).mpr
        ⟨hmax, fun e he => htable e (hu.get_eq_some_iff.mp he).1 (hu.get_eq_some_iff.mp he).2⟩
      have hrest : e ∈ ((t.challenge (clock 0) v ch).updateRouting clock.tail ⟨v, 0, l⟩).entries := he
      rcases hx.mem_updateRouting_clock hrest with hold | ⟨i, _, _, _, rfl⟩
      · rcases (hu.mem_challenge hb).mp hold with rfl | ⟨_, hne⟩
        · exact ⟨0, rfl⟩
        · exact absurd hd hne
      · exact ⟨i + 1, rfl⟩
    · have htable' : ∀ e ∈ (t.challenge (clock 0) v x).entries, e.destination = ch.destination →
          ch.cost.toNat + 1 ≤ e.cost.toNat := by
        intro e he hd
        by_cases hb : x.beats (t.get x.destination) = true
        · rcases (hu.mem_challenge hb).mp he with rfl | ⟨hold, _⟩
          · have hle := hlist x List.mem_cons_self hd (hu.beats hb).1
            have hsucc := cost_succ (hu.beats hb).1
            show _ ≤ (x.cost + 1).toNat
            omega
          · exact htable e hold hd
        · rw [challenge_of_not_beats hb] at he
          exact htable e he hd
      obtain ⟨i, hi⟩ := ih clock.tail _ hx hl hmax htable'
        (fun y hy => hlist y (List.mem_cons_of_mem _ hy)) e he hd
      exact ⟨i + 1, hi⟩

theorem UniqueDest.local_updateRouting (hu : t.UniqueDest) (he : e ∈ t.entries)
    (h0 : e.cost = 0) : e ∈ (t.updateRouting clock N).entries := by
  refine (updateRouting_induct (P := fun t' => t'.UniqueDest ∧ e ∈ t'.entries) ?_ ⟨hu, he⟩).2
  intro t' now ch _ hkept
  obtain ⟨hu', he'⟩ := hkept
  refine ⟨hu'.challenge now N.tableAddress ch, ?_⟩
  by_cases hb : ch.beats (t'.get ch.destination) = true
  · refine (hu'.mem_challenge hb).mpr (Or.inr ⟨he', fun hd => ?_⟩)
    have hle := (hu'.beats hb).2 e he' hd
    rw [h0] at hle
    exact absurd hle (by simp)
  · rwa [challenge_of_not_beats hb]

theorem UniqueDest.updateRouting_eq_self (hu : t.UniqueDest)
    (h : ∀ ch ∈ N.entries, ch.cost ≠ UINT_MAX → t.Within ch.destination ch.cost.toNat) :
    t.updateRouting clock N = t := by
  refine updateRouting_induct (P := fun t' => t' = t) ?_ rfl
  intro t' now ch hch hsame
  subst hsame
  refine challenge_of_not_beats fun hb => ?_
  obtain ⟨hmax, hle⟩ := hu.beats hb
  obtain ⟨e, he, hd, hc⟩ := h ch hch hmax
  have := hle e he hd
  omega

end MIPRouteTable

/-! ## the table of a routerd -/

structure RouterTable extends MIPRouteTable where
  unique : toMIPRouteTable.UniqueDest

namespace RouterTable

theorem uniqueDest (t : RouterTable) : t.toMIPRouteTable.UniqueDest := t.unique

/-- `MIPRouteTable_update` with a new entry -/
def update (t : RouterTable) (now : ℤ) (destination nextHop : MIPAddress) (cost : Int32) :
    RouterTable where
  toMIPRouteTable := (t.toMIPRouteTable.update now destination nextHop cost).2
  unique := by
    rw [MIPRouteTable.update_entries]
    exact Unique.put t.unique _

/-- the loop of `RouterServer_create` over the configured addresses -/
def addLocal : Clock → List MIPAddress → RouterTable → RouterTable
  | _, [], t => t
  | clock, a :: rest, t => addLocal clock.tail rest (t.update (clock 0) a a 0)

/-- the table that `RouterServer_create` makes from the configured addresses -/
def create (clock : Clock) (addresses : List MIPAddress) : RouterTable :=
  addLocal clock addresses ⟨MIPRouteTable.create, unique_nil⟩

def updateRouting (t : RouterTable) (clock : Clock) (neighbor : MIPRouteTable) : RouterTable :=
  ⟨t.toMIPRouteTable.updateRouting clock neighbor, t.unique.updateRouting clock neighbor⟩

def removeOldEntries (t : RouterTable) (clock : Clock) : RouterTable where
  toMIPRouteTable := (t.toMIPRouteTable.removeOldEntries clock).2
  unique := Unique.sublist t.unique (removeOldLoop_sublist _ _ _)

theorem mem_of_mem_removeOldEntries {t : RouterTable} {clock : Clock} {e : MIPRouteEntry}
    (he : e ∈ (t.removeOldEntries clock).entries) : e ∈ t.entries :=
  (removeOldLoop_sublist _ _ _).mem he

theorem mem_update {t : RouterTable} {now : ℤ} {d h : MIPAddress} {c : Int32} {e : MIPRouteEntry} :
    e ∈ (t.update now d h c).entries ↔
      e = ⟨d, h, c.toUInt32, now⟩ ∨ (e ∈ t.entries ∧ e.destination ≠ d) := by
  show e ∈ (t.toMIPRouteTable.update now d h c).2.entries ↔ _
  rw [MIPRouteTable.update_entries]
  exact Unique.mem_put t.unique

/-- a local entry: cost 0 and its own address as next hop -/
def IsLocal (e : MIPRouteEntry) : Prop := e.cost = 0 ∧ e.nextHop = e.destination

theorem mem_addLocal (l : List MIPAddress) :
    ∀ (clock : Clock) (t : RouterTable) (e : MIPRouteEntry), e ∈ (addLocal clock l t).entries →
      e ∈ t.entries ∨ (IsLocal e ∧ e.destination ∈ l) := by
  induction l with
  | nil => intro clock t e he; exact Or.inl he
  | cons a l ih =>
    intro clock t e he
    rcases ih _ _ e he with h | ⟨hl, hd⟩
    · rcases mem_update.mp h with rfl | ⟨h, _⟩
      · exact Or.inr ⟨⟨rfl, rfl⟩, List.mem_cons_self⟩
      · exact Or.inl h
    · exact Or.inr ⟨hl, List.mem_cons_of_mem _ hd⟩

theorem local_addLocal (l : List MIPAddress) :
    ∀ (clock : Clock) (t : RouterTable) (a : MIPAddress),
      (a ∈ l ∨ ∃ e ∈ t.entries, IsLocal e ∧ e.destination = a) →
      ∃ e ∈ (addLocal clock l t).entries, IsLocal e ∧ e.destination = a := by
  induction l with
  | nil =>
    intro clock t a h
    rcases h with h | h
    · cases h
    · exact h
  | cons b l ih =>
    intro clock t a h
    refine ih _ _ a ?_
    by_cases hab : a = b
    · exact Or.inr ⟨_, mem_update.mpr (Or.inl rfl), ⟨rfl, rfl⟩, hab.symm⟩
    · rcases h with h | ⟨e, he, hl, hd⟩
      · exact Or.inl ((List.mem_cons.mp h).resolve_left hab)
      · exact Or.inr ⟨e, mem_update.mpr (Or.inr ⟨he, hd ▸ hab⟩), hl, hd⟩

theorem mem_create {clock : Clock} {l : List MIPAddress} {e : MIPRouteEntry}
    (he : e ∈ (create clock l).entries) : IsLocal e ∧ e.destination ∈ l :=
  (mem_addLocal l clock _ e he).resolve_left (by simp [MIPRouteTable.create])

theorem local_create (clock : Clock) {l : List MIPAddress} {a : MIPAddress} (ha : a ∈ l) :
    ∃ e ∈ (create clock l).entries, IsLocal e ∧ e.destination = a :=
  local_addLocal l clock _ a (Or.inl ha)

end RouterTable

end MipStack
