import MipStack.Routerd.Update

/-!
# Whole runs of a routerd on its table

* `TableCall`, `RouterTable.run`   the calls of `RouterServer_run` on its table, in any order;
* `RouterTable.mem_call`, `.local_call`   **what one call does**: where an entry comes from, and that
                                 an entry of cost 0 stays;
* `RouterTable.run_induct`       what every call keeps, a run keeps;
* `RouterTable.run_local`        one entry for a destination, the configured addresses at cost 0, and
                                 nothing else at cost 0;
* `removeOldEntries_entries`     with one reading of the clock, expiry is a filter;
* `RouterTable.run_justified`    a learned route is as old as the advertisement it was made from.
-/

namespace MipStack
open Library

inductive TableCall
  | updateRouting (clock : Clock) (neighbor : MIPRouteTable)
  | removeOldEntries (clock : Clock)

namespace RouterTable

def call (t : RouterTable) : TableCall → RouterTable
  | .updateRouting clock neighbor => t.updateRouting clock neighbor
  | .removeOldEntries clock => t.removeOldEntries clock

def run (t : RouterTable) (calls : List TableCall) : RouterTable := calls.foldl call t

variable {t : RouterTable} {e : MIPRouteEntry}

theorem run_append (t : RouterTable) (calls : List TableCall) (c : TableCall) :
    t.run (calls ++ [c]) = (t.run calls).call c := List.foldl_append

/-! ## one call -/

theorem mem_call {c : TableCall} (he : e ∈ (t.call c).entries) :
    e ∈ t.entries ∨ ∃ clock N i ch, c = .updateRouting clock N ∧ ch ∈ N.entries ∧
      ch.cost ≠ UINT_MAX ∧ e = ⟨ch.destination, N.tableAddress, ch.cost + 1, clock i⟩ := by
  cases c with
  | updateRouting clock N =>
    rcases t.unique.mem_updateRouting_clock he with hold | ⟨i, ch, hch, hmax, rfl⟩
    · exact Or.inl hold
    · exact Or.inr ⟨clock, N, i, ch, rfl, hch, hmax, rfl⟩
  | removeOldEntries clock => exact Or.inl (mem_of_mem_removeOldEntries he)

theorem local_call (c : TableCall) (he : e ∈ t.entries) (h0 : e.cost = 0) :
    e ∈ (t.call c).entries := by
  cases c with
  | updateRouting clock N => exact t.unique.local_updateRouting he h0
  | removeOldEntries clock => exact mem_removeOldLoop_of_local _ clock _ he h0

/-- **What every call keeps, a run keeps.** -/
theorem run_induct {P : RouterTable → Prop} (hcall : ∀ t c, P t → P (t.call c)) (h : P t)
    (calls : List TableCall) : P (t.run calls) := by
  induction calls generalizing t with
  | nil => exact h
  | cons c calls ih => exact ih (hcall t c h)

/-! ## local and learned routes -/

/-- a learned route has crossed a link -/
theorem cost_learned {ch : MIPRouteEntry} (hmax : ch.cost ≠ UINT_MAX) : ch.cost + 1 ≠ 0 := by
  intro h0
  have hsucc : (ch.cost + 1).toNat = ch.cost.toNat + 1 := cost_succ hmax
  rw [h0] at hsucc
  exact absurd hsucc (by simp)

theorem mem_removeOldLoop {age : ℤ} {clock : Clock} {l : List MIPRouteEntry}
    (he : e ∈ (removeOldLoop age clock l).2) :
    e.cost = 0 ∨ ∃ i, clock i - e.lastUpdatedMilli ≤ age := by
  induction l generalizing clock with
  | nil => cases he
  | cons x l ih =>
    simp only [removeOldLoop] at he
    split at he
    · rcases ih he with h | ⟨i, hi⟩
      · exact Or.inl h
      · exact Or.inr ⟨i + 1, hi⟩
    · rename_i hkeep
      rcases List.mem_cons.mp he with rfl | hl
      · by_cases h0 : e.cost = 0
        · exact Or.inl h0
        · refine Or.inr ⟨0, ?_⟩
          simpa [MIPRouteEntry.toOld, h0] using hkeep
      · rcases ih hl with h | ⟨i, hi⟩
        · exact Or.inl h
        · exact Or.inr ⟨i + 1, hi⟩

/-- **The local routes of a run.**  Whatever the neighbours advertise and whenever entries expire:
no destination has two entries, every configured address keeps its entry of cost 0, no other
address ever gets one, and an entry for another address goes when it is too old. -/
theorem run_local (clock : Clock) (addresses : List MIPAddress) (calls : List TableCall) :
    ((create clock addresses).run calls).UniqueDest ∧
      (∀ a ∈ addresses, ∃ e ∈ ((create clock addresses).run calls).entries,
        e.destination = a ∧ e.nextHop = a ∧ e.cost = 0) ∧
      (∀ e ∈ ((create clock addresses).run calls).entries, e.cost = 0 → e.destination ∈ addresses) ∧
      ∀ e ∈ ((create clock addresses).run calls).entries, e.destination ∉ addresses →
        ∀ now : Clock, (∀ i, ((create clock addresses).run calls).entryMaxAgeMilli
            < now i - e.lastUpdatedMilli) →
          e ∉ (((create clock addresses).run calls).removeOldEntries now).entries := by
  have hzero : ∀ e ∈ ((create clock addresses).run calls).entries, e.cost = 0 →
      e.destination ∈ addresses := by
    refine run_induct (P := fun t => ∀ e ∈ t.entries, e.cost = 0 → e.destination ∈ addresses)
      (fun t c ih e he h0 => ?_) (fun e he _ => (mem_create he).2) calls
    rcases mem_call he with hold | ⟨_, _, _, ch, _, _, hmax, rfl⟩
    · exact ih e hold h0
    · exact absurd h0 (cost_learned hmax)
  refine ⟨uniqueDest _, fun a ha => ?_, hzero, fun e he hd now hold hkept => ?_⟩
  · obtain ⟨e, he, ⟨h0, hnext⟩, hd⟩ := local_create clock ha
    refine ⟨e, ?_, hd, hnext.trans hd, h0⟩
    exact run_induct (P := fun t => e ∈ t.entries) (fun t c ih => local_call c ih h0) he calls
  · rcases mem_removeOldLoop hkept with h0 | ⟨i, hi⟩
    · exact hd (hzero e he h0)
    · exact absurd hi (not_le.mpr (hold i))

end RouterTable

/-! ## one clock reading for each call -/

/-- the entries that stay at time `now` -/
def MIPRouteTable.fresh (t : MIPRouteTable) (now : ℤ) : List MIPRouteEntry :=
  t.entries.filter fun e => e.cost = 0 ∨ now - e.lastUpdatedMilli ≤ t.entryMaxAgeMilli

theorem removeOldLoop_filter (age now : ℤ) (l : List MIPRouteEntry) :
    (removeOldLoop age (fun _ => now) l).2
      = l.filter fun e => e.cost = 0 ∨ now - e.lastUpdatedMilli ≤ age := by
  induction l with
  | nil => rfl
  | cons e l ih =>
    have htail : Clock.tail (fun _ => now) = fun _ => now := rfl
    simp only [removeOldLoop, htail]
    by_cases hk : e.cost = 0 ∨ now - e.lastUpdatedMilli ≤ age
    · have hkeep : ¬ (e.toOld now age && e.cost ≠ 0) = true := by
        rcases hk with h0 | hle
        · simp [h0]
        · simp [MIPRouteEntry.toOld, hle]
      rw [if_neg hkeep, List.filter_cons_of_pos (by simpa using hk), ih]
    · have hdrop : (e.toOld now age && e.cost ≠ 0) = true := by
        push Not at hk
        simpa [MIPRouteEntry.toOld, hk.1] using hk.2
      rw [if_pos hdrop, List.filter_cons_of_neg (by simpa using hk), ih]

/-- **Expiry keeps the fresh entries**, as they are and in their order. -/
theorem MIPRouteTable.removeOldEntries_entries (t : MIPRouteTable) (now : ℤ) :
    (t.removeOldEntries fun _ => now).2.entries = t.fresh now := removeOldLoop_filter _ now _

/-- a call at the time `now`; without a neighbour table it removes old entries -/
structure TimedCall where
  now : ℤ
  neighbor : Option MIPRouteTable

def TimedCall.toTableCall (c : TimedCall) : TableCall :=
  match c.neighbor with
  | some N => .updateRouting (fun _ => c.now) N
  | none => .removeOldEntries fun _ => c.now

namespace RouterTable

def runAt (t : RouterTable) (calls : List TimedCall) : RouterTable :=
  t.run (calls.map TimedCall.toTableCall)

/-- an advertisement among the calls from which the entry was made at its time -/
def Justified (calls : List TimedCall) (e : MIPRouteEntry) : Prop :=
  ∃ c ∈ calls, ∃ N, c.neighbor = some N ∧ c.now = e.lastUpdatedMilli ∧ N.tableAddress = e.nextHop ∧
    ∃ ch ∈ N.entries, ch.destination = e.destination ∧ ch.cost ≠ UINT_MAX ∧
      ch.cost.toNat = e.cost.toNat - 1

theorem Justified.mono {calls calls' : List TimedCall} {e : MIPRouteEntry}
    (h : Justified calls e) (hsub : ∀ c ∈ calls, c ∈ calls') : Justified calls' e := by
  obtain ⟨c, hc, hrest⟩ := h
  exact ⟨c, hsub c hc, hrest⟩

theorem justified_of_mem (t : RouterTable) (h0 : ∀ e ∈ t.entries, e.cost = 0)
    (calls : List TimedCall) :
    ∀ e ∈ (t.runAt calls).entries, 0 < e.cost → Justified calls e := by
  induction calls using List.reverseRecOn with
  | nil =>
    intro e he hpos
    rw [h0 e he] at hpos
    exact absurd hpos (by decide)
  | append_singleton calls c ih =>
    intro e he hpos
    have hrun : t.runAt (calls ++ [c]) = (t.runAt calls).call c.toTableCall := by
      rw [runAt, List.map_append]
      exact run_append t _ _
    rw [hrun] at he
    rcases mem_call he with hold | ⟨clock, N, i, ch, hc, hch, hmax, rfl⟩
    · exact (ih e hold hpos).mono fun x hx => List.mem_append_left _ hx
    · have hN : c.neighbor = some N ∧ ∀ j, clock j = c.now := by
        unfold TimedCall.toTableCall at hc
        split at hc
        · rename_i N' hN'
          obtain ⟨rfl, rfl⟩ := TableCall.updateRouting.inj hc
          exact ⟨hN', fun _ => rfl⟩
        · cases hc
      have hcost : (ch.cost + 1).toNat = ch.cost.toNat + 1 := cost_succ hmax
      refine ⟨c, by simp, N, hN.1, (hN.2 i).symm, rfl, ch, hch, rfl, hmax, ?_⟩
      show ch.cost.toNat = (ch.cost + 1).toNat - 1
      omega

/-- **Learned routes are justified and fresh.**  In every state of a run, an entry of positive cost
was made from an advertisement processed at its time; right after the removal of old entries it is
no older than the limit, and what was no older before is still there. -/
theorem run_justified (start : ℤ) (addresses : List MIPAddress) (calls : List TimedCall) :
    (∀ e ∈ ((create (fun _ => start) addresses).runAt calls).entries, 0 < e.cost →
        Justified calls e) ∧
      ∀ now, let t := (create (fun _ => start) addresses).runAt calls
        let t' := (create (fun _ => start) addresses).runAt (calls ++ [⟨now, none⟩])
        t'.entries = t.fresh now ∧
          (∀ e ∈ t'.entries, 0 < e.cost → now - e.lastUpdatedMilli ≤ t.entryMaxAgeMilli) := by
  refine ⟨justified_of_mem _ (fun e he => (mem_create he).1.1) calls, fun now => ?_⟩
  dsimp only
  have hrun : ((create (fun _ => start) addresses).runAt (calls ++ [⟨now, none⟩])).entries
      = ((create (fun _ => start) addresses).runAt calls).fresh now := by
    rw [runAt, List.map_append]
    show ((create (fun _ => start) addresses).run (_ ++ [_])).entries = _
    rw [run_append]
    exact MIPRouteTable.removeOldEntries_entries _ now
  refine ⟨hrun, fun e he hpos => ?_⟩
  rw [hrun] at he
  rcases of_decide_eq_true (List.mem_filter.mp he).2 with h0 | hle
  · rw [h0] at hpos
    exact absurd hpos (by decide)
  · exact hle

end RouterTable

end MipStack
