import MipStack.Routerd.Runs
import MipStack.Library.Reach

/-!
# The main loop of routerd (`router_server.c`, `routing_handler.c`, `forwarding_handler.c`)

* `RouterServer`         the table, how often it is broadcast and when it was last;
* `RouterEvent`          the head of the loop, or one event: a route package, a forward request, a
                         line on stdin;
* `handleEvent`          what the loop does with it;
* `table_handleEvent`    **the table changes by calls on it alone**, so that what holds of all runs of
                         calls holds of the daemon;
* `Safe s ev`            a package has less than 64 entries, a table that is to be broadcast too;
* `handleEvent_iff`, `runs_on_iff`   **a run takes the error exit unless all its events are safe**;
* `errorExit_of_packages`   a package of 64 entries, and one of 63 together with a local address.

The head of the loop comes before every batch of events; here it may come at any time.  System calls
and allocation succeed; `stop` on stdin ends the loop, and with it the run.
-/

namespace MipStack
open Library

structure RouterServer where
  table : RouterTable
  broadcastFreqMilli : ℤ
  lastBroadcastMilli : ℤ

inductive RouterEvent
  /-- the head of the loop; `due` and `sent` are the readings for the broadcast -/
  | poll (due sent : ℤ) (expiry : Clock)
  /-- a route package from mipd, with the readings of `MIPRouteTablePackage_create_table` and of the
  update; all zeros when mipd has disconnected -/
  | routing (package : MIPRouteTablePackage) (created updated : Clock)
  /-- a forward request, `none` when mipd has disconnected -/
  | forward (request : Option MIPAddress)
  /-- a line other than `stop` -/
  | stdin

inductive RouterEffect
  | writeRouting (package : MIPRouteTablePackage)
  | sendForward (nextHop : MIPAddress)

namespace RouterServer

def create (clock : Clock) (addresses : List MIPAddress) (broadcastFreqMilli : ℤ) : RouterServer :=
  ⟨RouterTable.create clock addresses, broadcastFreqMilli, 0⟩

def shouldCompleteRouteBroadcast (s : RouterServer) (now : ℤ) : Bool :=
  now - s.lastBroadcastMilli > s.broadcastFreqMilli

/-- `none` for the return value -1 -/
def broadcastRouteTable (s : RouterServer) : Option RouterEffect :=
  s.table.createPackage.map .writeRouting

/-- `none` for `NULL` -/
def handleRouteRequest (package : MIPRouteTablePackage) (clock : Clock) : Option MIPRouteTable :=
  package.createTable clock

/-- 255 without a request -/
def handleForwardingRequest (s : RouterServer) (request : Option MIPAddress) : MIPAddress :=
  match request with
  | none => 255
  | some destination => s.table.getNextHop destination

def removeOldEntries (s : RouterServer) (expiry : Clock) : RouterServer :=
  { s with table := s.table.removeOldEntries expiry }

def handleEvent (s : RouterServer) : RouterEvent → Except Fault (RouterServer × List RouterEffect)
  | .poll due sent expiry =>
    if s.shouldCompleteRouteBroadcast due then
      match s.broadcastRouteTable with
      | none => .error .errorExit
      | some effect =>
        .ok (({ s with lastBroadcastMilli := sent } : RouterServer).removeOldEntries expiry, [effect])
    else .ok (s.removeOldEntries expiry, [])
  | .routing package created updated =>
    match handleRouteRequest package created with
    | none => .error .errorExit
    | some neighborTable =>
      .ok ({ s with table := s.table.updateRouting updated neighborTable }, [])
  | .forward request => .ok (s, [.sendForward (s.handleForwardingRequest request)])
  | .stdin => .ok (s, [])

/-! ## the table of the daemon -/

/-- **One event makes at most one call on the table.** -/
theorem table_handleEvent {s s' : RouterServer} {ev : RouterEvent} {effects : List RouterEffect}
    (h : s.handleEvent ev = .ok (s', effects)) : ∃ calls, s'.table = s.table.run calls := by
  cases ev with
  | poll due sent expiry =>
    refine ⟨[.removeOldEntries expiry], ?_⟩
    simp only [handleEvent] at h
    split at h
    · split at h
      · cases h
      · obtain ⟨rfl, _⟩ := Prod.mk.inj (Except.ok.inj h)
        rfl
    · obtain ⟨rfl, _⟩ := Prod.mk.inj (Except.ok.inj h)
      rfl
  | routing package created updated =>
    simp only [handleEvent] at h
    split at h
    · cases h
    · rename_i N _
      obtain ⟨rfl, _⟩ := Prod.mk.inj (Except.ok.inj h)
      exact ⟨[.updateRouting updated N], rfl⟩
  | forward request =>
    obtain ⟨rfl, _⟩ := Prod.mk.inj (Except.ok.inj h)
    exact ⟨[], rfl⟩
  | stdin =>
    obtain ⟨rfl, _⟩ := Prod.mk.inj (Except.ok.inj h)
    exact ⟨[], rfl⟩

/-! ## which events end the daemon -/

def Safe (s : RouterServer) : RouterEvent → Prop
  | .poll due _ _ => s.shouldCompleteRouteBroadcast due = true → s.table.entries.length < 64
  | .routing package _ _ => package.numEntries.toNat < 64
  | .forward _ => True
  | .stdin => True

theorem handleEvent_iff (s : RouterServer) (ev : RouterEvent) :
    s.handleEvent ev ≠ .error .errorExit ↔ s.Safe ev := by
  cases ev with
  | poll due sent expiry =>
    simp only [handleEvent, Safe, broadcastRouteTable]
    have hsome := s.table.createPackage_isSome
    split
    · rename_i hdue
      cases hp : s.table.createPackage with
      | none =>
        rw [hp] at hsome
        have hlong : ¬ s.table.entries.length < 64 := fun h => absurd (hsome.mpr h) (by simp)
        exact iff_of_false (fun h => h rfl) fun h => hlong (h hdue)
      | some p =>
        rw [hp] at hsome
        exact iff_of_true (by simp) fun _ => hsome.mp rfl
    · rename_i hdue
      exact iff_of_true (by simp) fun h => absurd h hdue
  | routing package created updated =>
    simp only [handleEvent, Safe, handleRouteRequest, MIPRouteTablePackage.createTable]
    by_cases h : package.numEntries.toNat < MIP_TABLE_PACKAGE_ENTRIES_MAX_SIZE
    · rw [if_pos h]
      exact iff_of_true (by simp) h
    · rw [if_neg h]
      exact iff_of_false (fun hne => hne rfl) h
  | forward request => exact iff_of_true (by simp [handleEvent]) trivial
  | stdin => exact iff_of_true (by simp [handleEvent]) trivial

end RouterServer

/-! ## runs -/

/-- one event; a fault is final -/
def RouterStep (r : Except Fault RouterServer) (ev : RouterEvent) (r' : Except Fault RouterServer) :
    Prop := ∃ s, r = .ok s ∧ r' = (s.handleEvent ev).map Prod.fst

def SafeRouterStep : Except Fault RouterServer → RouterEvent → Prop
  | .ok s, ev => s.Safe ev
  | .error _, _ => True

/-- in every state of a run the table is made by calls on the table of the start -/
theorem RouterServer.table_run {s : RouterServer}
    {tr : List (RouterEvent × Except Fault RouterServer)} (hr : Run RouterStep (.ok s) tr) :
    ∀ x ∈ tr, ∀ s', x.2 = .ok s' → ∃ calls, s'.table = s.table.run calls := by
  refine Run.invariant (I := fun r => ∀ s', r = .ok s' → ∃ calls, s'.table = s.table.run calls)
    (fun r ev r' hI hstep s' hs' => ?_) hr fun s' hs' => ⟨[], by rw [← Except.ok.inj hs']; rfl⟩
  obtain ⟨t, rfl, rfl⟩ := hstep
  obtain ⟨y, hev, rfl⟩ := map_eq_ok_iff.mp hs'
  obtain ⟨calls, hcalls⟩ := hI t rfl
  obtain ⟨more, hmore⟩ := RouterServer.table_handleEvent hev
  refine ⟨calls ++ more, ?_⟩
  rw [hmore, hcalls, RouterTable.run, RouterTable.run, RouterTable.run, List.foldl_append]

/-- **A run of the daemon takes the error exit unless all its events are safe** in the states in
which they come. -/
theorem runs_on_iff (clock : Clock) (addresses : List MIPAddress) (broadcastFreqMilli : ℤ)
    {tr : List (RouterEvent × Except Fault RouterServer)}
    (hr : Run RouterStep (.ok (RouterServer.create clock addresses broadcastFreqMilli)) tr) :
    (∀ x ∈ tr, x.2 ≠ .error .errorExit) ↔
      Meets SafeRouterStep (.ok (RouterServer.create clock addresses broadcastFreqMilli)) tr := by
  refine Run.meets_iff (I := fun _ => True) (P := fun r => r ≠ .error .errorExit)
    (fun _ _ _ _ _ _ _ => trivial) ?_ hr trivial (by simp)
  intro r ev r' _ _ hstep
  obtain ⟨s, rfl, rfl⟩ := hstep
  show _ ↔ s.Safe ev
  rw [← s.handleEvent_iff ev]
  cases s.handleEvent ev with
  | error f => simp [Except.map]
  | ok y => simp [Except.map]

/-- a package of `n` entries with the destinations 0 to `n - 1` and cost 1, from address 2 -/
def routesPackage (n : UInt8) : MIPRouteTablePackage :=
  ⟨2, n, (List.range 64).map fun d => ⟨UInt8.ofNat d, 2, 1⟩, by simp; rfl⟩

def routerOf200 : RouterServer := RouterServer.create (fun _ => 0) [200] 2000

theorem runs_on_three_routes : ∃ tr, Run RouterStep (.ok routerOf200) tr ∧
    (∀ x ∈ tr, x.2 ≠ .error .errorExit) ∧ tr.length = 3 := by
  have hrun : Run RouterStep (.ok routerOf200) [
      (.poll 3000 3000 fun _ => 3000, _),
      (.routing (routesPackage 3) (fun _ => 3001) fun _ => 3001, _),
      (.poll 6000 6000 fun _ => 6000, _)] :=
    Run.cons ⟨_, rfl, rfl⟩ (Run.cons ⟨_, rfl, rfl⟩ (Run.cons ⟨_, rfl, rfl⟩ (Run.nil _)))
  refine ⟨_, hrun, (runs_on_iff (fun _ => 0) [200] 2000 hrun).mpr ⟨?_, ?_, ?_, trivial⟩, rfl⟩
  · exact fun _ => by decide
  · exact (by decide : (3 : ℕ) < 64)
  · exact fun _ => by decide

/-- the daemon after a package of 63 entries -/
def fullRouter : RouterServer :=
  { routerOf200.removeOldEntries fun _ => 3000 with
    lastBroadcastMilli := 3000
    table := (routerOf200.removeOldEntries fun _ => 3000).table.updateRouting (fun _ => 3001)
      ⟨2, 5000, createEntries (fun _ => 3001) (routesPackage 63).used⟩ }

theorem length_fullRouter : fullRouter.table.entries.length = 64 := by decide +kernel

/-- **Two runs to the error exit.**  A package of 64 entries ends the daemon at once; one of 63
entries is applied, and with the local address the table is too large for the next broadcast. -/
theorem errorExit_of_packages :
    Run RouterStep (.ok routerOf200) [
      (.routing (routesPackage 64) (fun _ => 1) fun _ => 1, .error .errorExit)] ∧
    Run RouterStep (.ok routerOf200) [
      (.poll 3000 3000 fun _ => 3000,
        .ok { routerOf200.removeOldEntries fun _ => 3000 with lastBroadcastMilli := 3000 }),
      (.routing (routesPackage 63) (fun _ => 3001) fun _ => 3001, .ok fullRouter),
      (.poll 6000 6000 fun _ => 6000, .error .errorExit)] := by
  have hlast : fullRouter.handleEvent (.poll 6000 6000 fun _ => 6000) = .error .errorExit := by
    by_contra hne
    have hsafe := (fullRouter.handleEvent_iff _).mp hne
    have hlt : fullRouter.table.entries.length < 64 := hsafe rfl
    rw [length_fullRouter] at hlt
    exact absurd hlt (by decide)
  refine ⟨Run.cons ⟨_, rfl, rfl⟩ (Run.nil _), ?_⟩
  refine Run.cons ⟨_, rfl, rfl⟩ (Run.cons ⟨_, rfl, rfl⟩ (Run.cons ⟨_, rfl, ?_⟩ (Run.nil _)))
  rw [hlast]
  rfl

end MipStack
