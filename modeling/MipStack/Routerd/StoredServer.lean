import MipStack.Routerd.Storage
import MipStack.Routerd.Server

/-!
# routerd in memory (`router_server.c` over `mip_route_table.c` and `list.c`)

* `StoredServer`         the daemon with its table in memory;
* `StoredServer.handleEvent`   what `RouterServer.handleEvent` does, on nodes and blocks;
* `Keeps`                the daemon of `Server.lean`, its blocks, and the blocks that are lost;
* `stored_server_refines`   **in every run the two daemons write the same and end the same way**; no
                         address is used that is not allocated, no block is freed twice;
* `Keeps`, `received`    the table that is made of a package is never destroyed: its nodes and blocks
                         stay allocated, one each for every entry received;
* `StoredServer.destroy_spec`   when the daemon ends, its own table is given back.
-/

set_option linter.unusedSectionVars false

namespace MipStack
open Library Library.Linked

variable {κ α : Type} [DecidableEq κ] [DecidableEq α]

structure StoredServer (κ α : Type) where
  table : StoredTable κ
  memory : RouteMemory κ α
  broadcastFreqMilli : ℤ
  lastBroadcastMilli : ℤ

/-- the loop of `RouterServer_create` over the configured addresses -/
def StoredTable.addLocal (fuel : ℕ) : Clock → RouteAllocation κ α → List MIPAddress →
    StoredTable κ → RouteMemory κ α → Except Trap (StoredTable κ × RouteMemory κ α)
  | _, _, [], t, m => .ok (t, m)
  | clock, alloc, a :: rest, t, m => do
    let r ← t.update m alloc (clock 0) a a 0 fuel
    addLocal fuel clock.tail alloc.tail rest r.2.1 r.2.2

namespace StoredServer

def create (m : RouteMemory κ α) (clock : Clock) (alloc : RouteAllocation κ α)
    (addresses : List MIPAddress) (broadcastFreqMilli : ℤ) (fuel : ℕ) :
    Except Trap (StoredServer κ α) := do
  let r ← StoredTable.create.addLocal fuel clock alloc addresses m
  .ok ⟨r.1, r.2, broadcastFreqMilli, 0⟩

def shouldCompleteRouteBroadcast (s : StoredServer κ α) (now : ℤ) : Bool :=
  now - s.lastBroadcastMilli > s.broadcastFreqMilli

def removeOldEntries (s : StoredServer κ α) (expiry : Clock) (alloc : RouteAllocation κ α)
    (fuel : ℕ) : Except Trap (StoredServer κ α) := do
  let r ← s.table.removeOldEntries s.memory expiry alloc fuel
  .ok { s with table := r.2.1, memory := r.2.2 }

/-- 255 without a request -/
def handleForwardingRequest (s : StoredServer κ α) (request : Option MIPAddress) (fuel : ℕ) :
    Except Trap MIPAddress :=
  match request with
  | none => .ok 255
  | some destination => s.table.getNextHop s.memory destination fuel

/-- `none` for the way to the error label; the table of the neighbour is not destroyed -/
def handleEvent (s : StoredServer κ α) (alloc : RouteAllocation κ α) (fuel : ℕ) :
    RouterEvent → Except Trap (Option (StoredServer κ α × List RouterEffect))
  | .poll due sent expiry =>
    if s.shouldCompleteRouteBroadcast due then do
      let package ← s.table.createPackage s.memory fuel
      match package with
      | none => .ok none
      | some package => do
        let s ← ({ s with lastBroadcastMilli := sent } : StoredServer κ α).removeOldEntries expiry
          alloc fuel
        .ok (some (s, [.writeRouting package]))
    else do
      let s ← s.removeOldEntries expiry alloc fuel
      .ok (some (s, []))
  | .routing package created updated => do
    let r ← package.createStoredTable s.memory created alloc
    match r.1 with
    | none => .ok none
    | some neighborTable => do
      let u ← s.table.updateRouting r.2 updated alloc neighborTable fuel
      .ok (some ({ s with table := u.1, memory := u.2 }, []))
  | .forward request => do
    let nextHop ← s.handleForwardingRequest request fuel
    .ok (some (s, [.sendForward nextHop]))
  | .stdin => .ok (some (s, []))

/-- one event after the other, each with its own allocation, up to the error exit; what has been
written by then -/
def serve (fuel : ℕ) : List (RouterEvent × RouteAllocation κ α) → StoredServer κ α →
    Except Trap (Option (StoredServer κ α) × List RouterEffect)
  | [], s => .ok (some s, [])
  | ev :: events, s => do
    let r ← s.handleEvent ev.2 fuel ev.1
    match r with
    | none => .ok (none, [])
    | some r => do
      let u ← serve fuel events r.1
      .ok (u.1, r.2 ++ u.2)

/-- `MIPRouteTable_destroy`, behind the loop -/
def destroy (s : StoredServer κ α) (fuel : ℕ) : Except Trap (RouteMemory κ α) :=
  s.table.destroy s.memory fuel

end StoredServer

/-- the same for the daemon of `Server.lean` -/
def RouterServer.serve : List RouterEvent → RouterServer → Option RouterServer × List RouterEffect
  | [], s => (some s, [])
  | ev :: events, s =>
    match s.handleEvent ev with
    | .error _ => (none, [])
    | .ok r => ((serve events r.1).1, r.2 ++ (serve events r.1).2)

/-! ## the two daemons -/

/-- `s` is the daemon `S`; since the memory was `m`, with the blocks `start` for its table, only the
nodes and blocks `lost` have been taken beside those of the table -/
structure Keeps (m : RouteMemory κ α) (start : List (RouteCell κ α)) (s : StoredServer κ α)
    (S : RouterServer) (lost : List (RouteCell κ α)) : Prop where
  table : ∃ cells, Holds s.memory s.table cells S.table.toMIPRouteTable ∧ Apart lost cells ∧
    m.Frame s.memory start (cells ++ lost)
  freq : s.broadcastFreqMilli = S.broadcastFreqMilli
  last : s.lastBroadcastMilli = S.lastBroadcastMilli
  allocated : Allocated s.memory lost
  distinct : (lost.map Cell.node).Nodup ∧ (lost.map Cell.block).Nodup

/-- the number of entries of the packages among the events -/
def received : List RouterEvent → ℕ
  | [] => 0
  | .routing package _ _ :: events => package.numEntries.toNat + received events
  | _ :: events => received events

theorem RouterTable.length_le (t : RouterTable) : t.entries.length ≤ 256 := by
  have hd : (t.entries.map fun e => e.destination.toNat).Nodup := by
    rw [show (fun e : MIPRouteEntry => e.destination.toNat) = UInt8.toNat ∘ MIPRouteEntry.destination
      from rfl, ← List.map_map]
    exact t.unique.map fun a b h => UInt8.toNat_inj.mp h
  have hsub : (t.entries.map fun e => e.destination.toNat) ⊆ List.range 256 := by
    intro x hx
    obtain ⟨e, _, rfl⟩ := List.mem_map.mp hx
    exact List.mem_range.mpr e.destination.toNat_lt
  simpa using (hd.subperm hsub).length_le

variable {m : RouteMemory κ α} {start lost : List (RouteCell κ α)} {s : StoredServer κ α}
  {S : RouterServer} {alloc : RouteAllocation κ α} {fuel : ℕ}

namespace Keeps

theorem roomy (hk : Keeps m start s S lost) (hroomy : m.Roomy) : s.memory.Roomy := by
  obtain ⟨cells, _, _, hf⟩ := hk.table
  exact hf.roomy hroomy

/-- a call on the table -/
theorem became {S' : RouterServer} {s' : StoredServer κ α} {cells : List (RouteCell κ α)}
    (hk : Keeps m start s S lost) (hap : Apart lost cells) (hf : m.Frame s.memory start (cells ++ lost))
    (hb : Became s.memory cells s'.table s'.memory S'.table.toMIPRouteTable)
    (hfreq : s'.broadcastFreqMilli = S'.broadcastFreqMilli)
    (hlast : s'.lastBroadcastMilli = S'.lastBroadcastMilli) : Keeps m start s' S' lost := by
  obtain ⟨cells', hh', hf'⟩ := hb
  exact ⟨⟨cells', hh', hap.change hk.allocated hf', hf.trans (hf'.extend lost)⟩, hfreq, hlast,
    hk.allocated.keep hf' hap, hk.distinct⟩

theorem fuel_lt (hfuel : 320 ≤ fuel) {m : RouteMemory κ α} {t : StoredTable κ}
    {cells : List (RouteCell κ α)} (hh : Holds m t cells S.table.toMIPRouteTable) :
    cells.length < fuel := by
  have h := S.table.length_le
  rw [← hh.length_eq] at h
  omega

theorem removeOldEntries (expiry : Clock) (hk : Keeps m start s S lost) (hroomy : m.Roomy)
    (halloc : alloc.Lawful) (hfuel : 320 ≤ fuel) :
    ∃ s', s.removeOldEntries expiry alloc fuel = .ok s' ∧
      Keeps m start s' (S.removeOldEntries expiry) lost := by
  obtain ⟨cells, hh, hap, hf⟩ := hk.table
  obtain ⟨t', m', hrun, hb⟩ := StoredTable.removeOldEntries_spec expiry hh (hk.roomy hroomy) halloc
    (fuel_lt hfuel hh)
  refine ⟨{ s with table := t', memory := m' }, ?_, hk.became hap hf hb hk.freq hk.last⟩
  rw [StoredServer.removeOldEntries, hrun]
  rfl

/-- the table of a neighbour is made, used and left behind -/
theorem updateRouting {package : MIPRouteTablePackage} {created : Clock} {N : MIPRouteTable}
    (updated : Clock) (hk : Keeps m start s S lost) (hp : package.createTable created = some N)
    (hroomy : m.Roomy) (halloc : alloc.Lawful) (hfuel : 320 ≤ fuel) :
    ∃ n m1 t' m' more, package.createStoredTable s.memory created alloc = .ok (some n, m1) ∧
      s.table.updateRouting m1 updated alloc n fuel = .ok (t', m') ∧
      Keeps m start { s with table := t', memory := m' }
        { S with table := S.table.updateRouting updated N } (lost ++ more) ∧
      more.length = package.numEntries.toNat := by
  obtain ⟨cells, hh, hap, hf⟩ := hk.table
  have hroomy' := hk.roomy hroomy
  obtain ⟨n, m1, ncells, hrun1, hN, hf1⟩ := StoredTable.createStoredTable_spec hp hroomy' halloc
  have hlen : ncells.length = package.numEntries.toNat := by
    obtain ⟨hlt, _, hused⟩ := MIPRouteTablePackage.createTable_eq_some hp
    have h := congrArg List.length hused
    rw [List.length_map, ← hN.length_eq] at h
    rw [h, MIPRouteTablePackage.used, List.length_take, package.size]
    exact Nat.min_eq_left hlt.le
  have hapart : Apart ncells cells := ((Apart.nil cells).change hh.stores.allocated hf1).symm
  have hapartLost : Apart ncells lost := ((Apart.nil lost).change hk.allocated hf1).symm
  have hh1 : Holds m1 s.table cells S.table.toMIPRouteTable :=
    ⟨hh.stores.keep hf1 (by simp) (by simp), hh.address, hh.maxAge, hh.entries⟩
  have hn : cells.length + ncells.length < fuel := by
    have h1 := S.table.length_le
    have h2 := (MIPRouteTablePackage.createTable_eq_some hp).1
    rw [← hh.length_eq] at h1
    omega
  obtain ⟨t', m', hrun2, cells', hh', hf2⟩ := StoredTable.updateRouting_spec updated hh1 hN hapart
    (hf1.roomy hroomy') halloc hn
  have hlost1 : Allocated m1 lost := hk.allocated.keep hf1 (Apart.nil lost)
  have hboth : Allocated m1 (lost ++ ncells) := hlost1.append hN.stores.allocated
  have hapBoth : Apart (lost ++ ncells) cells := hap.append_left hapart
  have hnodes := hN.stores.nodes.distinct
  rw [keys_map_slot] at hnodes
  refine ⟨n, m1, t', m', ncells, hrun1, hrun2, ⟨⟨cells', hh', hapBoth.change hboth hf2, ?_⟩, hk.freq,
    hk.last, hboth.keep hf2 hapBoth, ?_, ?_⟩, hlen⟩
  · have h1 : s.memory.Frame m1 (cells ++ lost) (cells ++ (lost ++ ncells)) :=
      (hf1.extend (cells ++ lost)).congr (fun e => by simp) fun e => by
        simp only [List.mem_append]
        tauto
    exact (hf.trans h1).trans (hf2.extend (lost ++ ncells))
  · rw [List.map_append, List.nodup_append]
    refine ⟨hk.distinct.1, hnodes, ?_⟩
    rintro i hi j hj rfl
    obtain ⟨c, hc, rfl⟩ := List.mem_map.mp hj
    exact hapartLost.nodes c hc hi
  · rw [List.map_append, List.nodup_append]
    refine ⟨hk.distinct.2, hN.stores.distinct, ?_⟩
    rintro i hi j hj rfl
    obtain ⟨c, hc, rfl⟩ := List.mem_map.mp hj
    exact hapartLost.blocks c hc hi

/-- **What one event does to the two daemons.** -/
theorem handleEvent (ev : RouterEvent) (hk : Keeps m start s S lost) (hroomy : m.Roomy)
    (halloc : alloc.Lawful) (hfuel : 320 ≤ fuel) :
    (∃ f, S.handleEvent ev = .error f ∧ s.handleEvent alloc fuel ev = .ok none) ∨
    ∃ S' effects s' more, S.handleEvent ev = .ok (S', effects) ∧
      s.handleEvent alloc fuel ev = .ok (some (s', effects)) ∧ Keeps m start s' S' (lost ++ more) ∧
      more.length = received [ev] := by
  cases ev with
  | poll due sent expiry =>
    have hdue : s.shouldCompleteRouteBroadcast due = S.shouldCompleteRouteBroadcast due := by
      rw [StoredServer.shouldCompleteRouteBroadcast, RouterServer.shouldCompleteRouteBroadcast,
        hk.freq, hk.last]
    rw [RouterServer.handleEvent, StoredServer.handleEvent, hdue]
    split
    · obtain ⟨cells, hh, hap, hf⟩ := hk.table
      rw [StoredTable.createPackage_spec hh (fuel_lt hfuel hh), RouterServer.broadcastRouteTable]
      cases S.table.createPackage with
      | none => exact Or.inl ⟨_, rfl, rfl⟩
      | some package =>
        have hk' : Keeps m start { s with lastBroadcastMilli := sent }
            { S with lastBroadcastMilli := sent } lost :=
          ⟨hk.table, hk.freq, rfl, hk.allocated, hk.distinct⟩
        obtain ⟨s', hrun, hk''⟩ := hk'.removeOldEntries expiry hroomy halloc hfuel
        refine Or.inr ⟨_, _, s', [], rfl, ?_, by rwa [List.append_nil], rfl⟩
        show (StoredServer.removeOldEntries _ expiry alloc fuel >>= _) = _
        rw [hrun]
        rfl
    · obtain ⟨s', hrun, hk'⟩ := hk.removeOldEntries expiry hroomy halloc hfuel
      refine Or.inr ⟨_, _, s', [], rfl, ?_, by rwa [List.append_nil], rfl⟩
      rw [hrun]
      rfl
  | routing package created updated =>
    rw [RouterServer.handleEvent, StoredServer.handleEvent, RouterServer.handleRouteRequest]
    cases hp : package.createTable created with
    | none =>
      refine Or.inl ⟨_, rfl, ?_⟩
      rw [StoredTable.createStoredTable_null hp]
      rfl
    | some N =>
      obtain ⟨n, m1, t', m', more, hrun1, hrun2, hk', hlen⟩ :=
        hk.updateRouting updated hp hroomy halloc hfuel
      refine Or.inr ⟨_, _, _, more, rfl, ?_, hk', hlen⟩
      rw [hrun1]
      show (s.table.updateRouting m1 updated alloc n fuel >>= _) = _
      rw [hrun2]
      rfl
  | forward request =>
    refine Or.inr ⟨_, _, s, [], rfl, ?_, by rwa [List.append_nil], rfl⟩
    have hnext : s.handleForwardingRequest request fuel = .ok (S.handleForwardingRequest request) := by
      cases request with
      | none => rfl
      | some destination =>
        obtain ⟨cells, hh, _, _⟩ := hk.table
        exact StoredTable.getNextHop_spec destination hh (fuel_lt hfuel hh)
    rw [StoredServer.handleEvent, hnext]
    rfl
  | stdin => exact Or.inr ⟨_, _, s, [], rfl, rfl, by rwa [List.append_nil], rfl⟩

/-- a run of the two daemons -/
theorem serve {events : List (RouterEvent × RouteAllocation κ α)} (hk : Keeps m start s S lost)
    (hroomy : m.Roomy) (halloc : ∀ ev ∈ events, ev.2.Lawful) (hfuel : 320 ≤ fuel) :
    ∃ last, s.serve fuel events = .ok (last, (S.serve (events.map Prod.fst)).2) ∧
      (last = none → (S.serve (events.map Prod.fst)).1 = none) ∧
      ∀ s', last = some s' → ∃ S' more, (S.serve (events.map Prod.fst)).1 = some S' ∧
        Keeps m start s' S' (lost ++ more) ∧ more.length = received (events.map Prod.fst) := by
  induction events generalizing s S lost with
  | nil =>
    refine ⟨some s, rfl, fun h => absurd h (by simp), ?_⟩
    intro s' hs'
    obtain rfl := Option.some.inj hs'
    exact ⟨S, [], rfl, by rwa [List.append_nil], rfl⟩
  | cons ev events ih =>
    rw [StoredServer.serve, List.map_cons, RouterServer.serve]
    rcases hk.handleEvent ev.1 hroomy (halloc ev List.mem_cons_self) hfuel with
      ⟨f, hS, hs⟩ | ⟨S', effects, s', more, hS, hs, hk', hlen⟩
    · rw [hS, hs]
      exact ⟨none, rfl, fun _ => rfl, fun s' h => absurd h (by simp)⟩
    · obtain ⟨last, hrun, hnone, hsome⟩ := ih hk' fun x hx => halloc x (List.mem_cons_of_mem ev hx)
      rw [hS, hs]
      refine ⟨last, ?_, hnone, ?_⟩
      · show (s'.serve fuel events >>= _) = _
        rw [hrun]
        rfl
      · intro s2 hs2
        obtain ⟨S2, more2, hS2, hk2, hlen2⟩ := hsome s2 hs2
        refine ⟨S2, more ++ more2, hS2, ?_, ?_⟩
        · rwa [List.append_assoc] at hk2
        · rw [List.length_append, hlen, hlen2]
          cases ev.1 with
          | routing package created updated => rfl
          | poll due sent expiry => exact Nat.zero_add _
          | forward request => exact Nat.zero_add _
          | stdin => exact Nat.zero_add _

end Keeps

/-! ## from the start to the end -/

theorem StoredTable.addLocal_spec {t : StoredTable κ} {cells : List (RouteCell κ α)} {T : RouterTable}
    (clock : Clock) (addresses : List MIPAddress) (hh : Holds m t cells T.toMIPRouteTable)
    (hroomy : m.Roomy) (halloc : alloc.Lawful) (hfuel : 320 ≤ fuel) :
    ∃ t' m', t.addLocal fuel clock alloc addresses m = .ok (t', m') ∧
      Became m cells t' m' (RouterTable.addLocal clock addresses T).toMIPRouteTable := by
  induction addresses generalizing m t cells T clock alloc with
  | nil => exact ⟨t, m, rfl, cells, hh, Memory.Frame.refl m _⟩
  | cons a rest ih =>
    have hn : cells.length < fuel := by
      have h := T.length_le
      rw [← hh.length_eq] at h
      omega
    obtain ⟨t1, m1, hrun, cells1, hh1, hf1⟩ := update_spec (clock 0) a a 0 hh hroomy halloc hn
    obtain ⟨t', m', hrun', cells', hh', hf'⟩ := ih (T := T.update (clock 0) a a 0) clock.tail hh1
      (hf1.roomy hroomy) halloc.tail
    refine ⟨t', m', ?_, cells', hh', hf1.trans hf'⟩
    rw [addLocal, hrun]
    exact hrun'

/-- the daemon that has just been started -/
theorem keeps_create (clock : Clock) (addresses : List MIPAddress) (broadcastFreqMilli : ℤ)
    (hroomy : m.Roomy) (halloc : alloc.Lawful) (hfuel : 320 ≤ fuel) :
    ∃ s, StoredServer.create m clock alloc addresses broadcastFreqMilli fuel = .ok s ∧
      Keeps m [] s (RouterServer.create clock addresses broadcastFreqMilli) [] := by
  obtain ⟨t', m', hrun, cells, hh, hf⟩ := StoredTable.addLocal_spec (T := ⟨MIPRouteTable.create,
    unique_nil⟩) clock addresses (holds_create m) hroomy halloc hfuel
  refine ⟨⟨t', m', broadcastFreqMilli, 0⟩, ?_, ⟨cells, hh, ⟨by simp, by simp⟩, ?_⟩, rfl, rfl,
    ⟨by simp, by simp⟩, List.nodup_nil, List.nodup_nil⟩
  · rw [StoredServer.create, hrun]
    rfl
  · rwa [List.append_nil]

/-- **In every run from its start the daemon in memory writes what the daemon of `Server.lean`
writes and ends where that one ends**; it never uses an address that is not allocated, frees no
block twice, and every loop ends. -/
theorem stored_server_refines (clock : Clock) (addresses : List MIPAddress) (broadcastFreqMilli : ℤ)
    {events : List (RouterEvent × RouteAllocation κ α)} (hroomy : m.Roomy) (halloc : alloc.Lawful)
    (hevents : ∀ ev ∈ events, ev.2.Lawful) (hfuel : 320 ≤ fuel) :
    ∃ s last, StoredServer.create m clock alloc addresses broadcastFreqMilli fuel = .ok s ∧
      s.serve fuel events = .ok (last, ((RouterServer.create clock addresses broadcastFreqMilli).serve
        (events.map Prod.fst)).2) ∧
      (last = none ↔ ((RouterServer.create clock addresses broadcastFreqMilli).serve
        (events.map Prod.fst)).1 = none) ∧
      ∀ s', last = some s' → ∃ S' cells, ((RouterServer.create clock addresses
        broadcastFreqMilli).serve (events.map Prod.fst)).1 = some S' ∧
        Holds s'.memory s'.table cells S'.table.toMIPRouteTable := by
  obtain ⟨s, hcreate, hk⟩ := keeps_create clock addresses broadcastFreqMilli hroomy halloc hfuel
  obtain ⟨last, hrun, hnone, hsome⟩ := hk.serve hroomy hevents hfuel
  refine ⟨s, last, hcreate, hrun, ⟨hnone, ?_⟩, ?_⟩
  · intro hS
    cases last with
    | none => rfl
    | some s' =>
      obtain ⟨S', _, hS', _⟩ := hsome s' rfl
      rw [hS] at hS'
      cases hS'
  · intro s' hs'
    obtain ⟨S', more, hS', hk', _⟩ := hsome s' hs'
    obtain ⟨cells, hh, _⟩ := hk'.table
    exact ⟨S', cells, hS', hh⟩

/-- the head of the loop, a package of three entries and a request for one of them -/
noncomputable def threeEvents : List (RouterEvent × RouteAllocation ℕ ℕ) :=
  [(.poll 3000 3000 fun _ => 3000, .smallest _),
    (.routing (routesPackage 3) (fun _ => 3001) fun _ => 3001, .smallest _),
    (.forward (some 1), .smallest _)]

theorem lawful_threeEvents : ∀ ev ∈ threeEvents, ev.2.Lawful := by
  intro ev hev
  simp only [threeEvents, List.mem_cons, List.not_mem_nil, or_false] at hev
  rcases hev with rfl | rfl | rfl
  · exact Allocation.smallest_lawful _
  · exact Allocation.smallest_lawful _
  · exact Allocation.smallest_lawful _

theorem serve_threeEvents : (routerOf200.serve (threeEvents.map Prod.fst)).1.isSome := rfl

theorem stored_server_refines_three : ∃ s last,
    StoredServer.create (Memory.empty _) (fun _ => 0) (.smallest _) [200] 2000 320 = .ok s ∧
    s.serve 320 threeEvents
      = .ok (last, (routerOf200.serve (threeEvents.map Prod.fst)).2) := by
  obtain ⟨s, last, hcreate, hrun, _⟩ := stored_server_refines (fun _ => 0) [200] 2000
    (Memory.roomy_empty _) (Allocation.smallest_lawful _) lawful_threeEvents (le_refl 320)
  exact ⟨s, last, hcreate, hrun⟩

/-- **The daemon loses one node and one block for every entry of every package**: these stay
allocated when it has ended and destroyed its table, and nothing else does. -/
theorem stored_server_leaks (clock : Clock) (addresses : List MIPAddress) (broadcastFreqMilli : ℤ)
    {events : List (RouterEvent × RouteAllocation κ α)} {s' : StoredServer κ α}
    {effects : List RouterEffect} (hroomy : m.Roomy) (halloc : alloc.Lawful)
    (hevents : ∀ ev ∈ events, ev.2.Lawful) (hfuel : 320 ≤ fuel)
    (hcreate : StoredServer.create m clock alloc addresses broadcastFreqMilli fuel = .ok s)
    (hserve : s.serve fuel events = .ok (some s', effects)) :
    ∃ m' lost, s'.destroy fuel = .ok m' ∧ m.Frame m' [] lost ∧ Allocated m' lost ∧
      (lost.map Cell.node).Nodup ∧ (lost.map Cell.block).Nodup ∧
      lost.length = received (events.map Prod.fst) := by
  obtain ⟨s0, hcreate0, hk⟩ := keeps_create clock addresses broadcastFreqMilli hroomy halloc hfuel
  obtain rfl : s0 = s := Except.ok.inj (hcreate0.symm.trans hcreate)
  obtain ⟨last, hrun, _, hsome⟩ := hk.serve hroomy hevents hfuel
  rw [hrun] at hserve
  obtain ⟨S', lost, _, hk', hlen⟩ := hsome s' (Prod.mk.inj (Except.ok.inj hserve)).1
  rw [List.nil_append] at hk'
  obtain ⟨cells, hh, hap, hf⟩ := hk'.table
  obtain ⟨m', hdestroy, hf'⟩ := StoredTable.destroy_spec hh (Keeps.fuel_lt hfuel hh)
  exact ⟨m', lost, hdestroy, hf.trans (hf'.extend lost), hk'.allocated.keep hf' hap, hk'.distinct.1,
    hk'.distinct.2, hlen⟩

theorem stored_server_leaks_three : ∃ (s' : StoredServer ℕ ℕ) (m' : RouteMemory ℕ ℕ)
    (lost : List (RouteCell ℕ ℕ)), s'.destroy 320 = .ok m' ∧
      (Memory.empty MIPRouteEntry).Frame m' [] lost ∧ Allocated m' lost ∧ lost.length = 3 := by
  obtain ⟨s, hcreate, hk⟩ := keeps_create (fun _ => 0) [200] 2000
    (Memory.roomy_empty _) (Allocation.smallest_lawful _) (le_refl 320)
  obtain ⟨last, hrun, hnone, _⟩ := hk.serve (Memory.roomy_empty _) lawful_threeEvents (le_refl 320)
  cases last with
  | none =>
    have hsome := serve_threeEvents
    rw [show (routerOf200.serve (threeEvents.map Prod.fst)).1 = none from hnone rfl] at hsome
    cases hsome
  | some s' =>
    obtain ⟨m', lost, hdestroy, hf, hlost, _, _, hlen⟩ := stored_server_leaks (fun _ => 0) [200] 2000
      (Memory.roomy_empty _) (Allocation.smallest_lawful _) lawful_threeEvents (le_refl 320) hcreate
      hrun
    exact ⟨s', m', lost, hdestroy, hf, hlost, hlen⟩

end MipStack
