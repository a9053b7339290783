import MipStack.Commons.Records
import MipStack.Routerd.RouteTable

/-!
# The route table in memory (`mip_route_table.c` over `list.c`)

`RouteTable.lean` keeps the entries in a Lean list.  Here the same functions work on nodes and
blocks, and go through the list as the source does.

* `StoredTable`          the structure of the source, with a `CList` for its entries;
* `StoredTable.get`, `.remove`, `.update`, `.updateRouting`, `.removeOldEntries`, `.destroy`,
  `createTable`, `.createPackage`   the functions on memory;
* `Holds m t cells T`    the nodes and blocks `cells` are the entries of the table `T`;
* `remove_spec` … `createPackage_spec`   each function on memory is the one of `RouteTable.lean`: the
                         same result, and nothing but the blocks of the table is touched.

`calloc` gives free blocks as long as there are any (`Allocation.Lawful`), and memory is larger than
what is allocated of it (`Memory.Roomy`).
-/

set_option linter.unusedSectionVars false

namespace MipStack
open Library Library.Linked

structure StoredTable (κ : Type) where
  tableAddress : MIPAddress
  entryMaxAgeMilli : ℤ
  entries : CList κ
  deriving DecidableEq

abbrev RouteMemory (κ α : Type) := Memory κ α MIPRouteEntry
abbrev RouteAllocation (κ α : Type) := Allocation κ α MIPRouteEntry
abbrev RouteCell (κ α : Type) := Cell κ α MIPRouteEntry

/-- what `MIPRouteTable_remove_old_entries` goes through the old list with: the new list, the
memory, the entries destroyed so far, the clock and the allocation -/
structure Renewal (κ α : Type) where
  newList : CList κ
  memory : RouteMemory κ α
  removed : ℤ
  clock : Clock
  alloc : RouteAllocation κ α

/-- what `MIPRouteTable_update_routing` goes through the table of the neighbour with -/
structure Challenge (κ α : Type) where
  table : StoredTable κ
  memory : RouteMemory κ α
  clock : Clock
  alloc : RouteAllocation κ α

namespace MIPRouteTablePackage

/-- all zeros -/
def calloc : MIPRouteTablePackage :=
  ⟨0, 0, List.replicate MIP_TABLE_PACKAGE_ENTRIES_MAX_SIZE ⟨0, 0, 0⟩, List.length_replicate⟩

/-- `package->entries[i] = e` -/
def set (p : MIPRouteTablePackage) (i : ℕ) (e : MIPRoutePackageEntry) : MIPRouteTablePackage :=
  { p with
    entries := p.entries.set i e
    size := by rw [List.length_set, p.size] }

end MIPRouteTablePackage

variable {κ α : Type} [DecidableEq κ] [DecidableEq α]

/-! ## the functions -/

namespace StoredTable

def create : StoredTable κ := ⟨0, MIP_TABLE_ENTRY_MAX_AGE_MILLI, CList.create⟩

def find (destination : MIPAddress) (_cur : κ) (block : α) (e : MIPRouteEntry)
    (s : Option α × RouteMemory κ α) : Except Trap ((Option α × RouteMemory κ α) × Bool) :=
  if e.destination = destination then .ok ((some block, s.2), true) else .ok (s, false)

/-- the pointer to the entry; the values of the nodes are not checked -/
def get (t : StoredTable κ) (m : RouteMemory κ α) (destination : MIPAddress) (fuel : ℕ) :
    Except Trap (Option α) :=
  (scan Prod.snd (fun _ => .error .null) (find destination) t.entries fuel (none, m)).map
    fun s => s.1.1

def getNextHop (t : StoredTable κ) (m : RouteMemory κ α) (destination : MIPAddress) (fuel : ℕ) :
    Except Trap MIPAddress :=
  if destination = MIP_BROADCAST_ADDRESS then .ok MIP_BROADCAST_ADDRESS
  else do
    let entry ← t.get m destination fuel
    if entry = none then .ok 255
    else
      let e ← m.records.load entry
      .ok e.nextHop

/-- return code, the table and the memory after the call -/
def remove (t : StoredTable κ) (m : RouteMemory κ α) (destination : MIPAddress) (fuel : ℕ) :
    Except Trap (ℤ × StoredTable κ × RouteMemory κ α) :=
  if t.entries.count = 0 then .ok (1, t, m)
  else do
    let s ← removeFirst (fun e => decide (e.destination = destination)) t.entries m fuel
    .ok (s.1, { t with entries := s.2.1 }, s.2.2)

/-- the fields of the block from `calloc` are written without a check; the node of the entry is
allocated when the old entry is gone -/
def update (t : StoredTable κ) (m : RouteMemory κ α) (alloc : RouteAllocation κ α) (now : ℤ)
    (destination nextHop : MIPAddress) (cost : Int32) (fuel : ℕ) :
    Except Trap (ℤ × StoredTable κ × RouteMemory κ α) :=
  match alloc.block 0 m.records with
  | none => .error .null
  | some block => do
    let entry := MIPRouteEntry.create now destination nextHop cost.toUInt32
    let s ← t.remove ⟨m.nodes, m.records.write block (some entry)⟩ destination fuel
    if s.1 = -1 then .ok s
    else
      let r ← s.2.1.entries.push s.2.2.nodes (alloc.node 0 s.2.2.nodes) (some block)
      .ok (1, { s.2.1 with entries := r.2 }, ⟨r.1, s.2.2.records⟩)

/-- the entry behind the pointer, which is read only where there is one -/
def champion (m : RouteMemory κ α) (pointer : Option α) : Except Trap (Option MIPRouteEntry) :=
  match pointer with
  | none => .ok none
  | some block => (m.records.load (some block)).map some

def challenge (address : MIPAddress) (fuel : ℕ) (_cur : κ) (_block : α) (challenger : MIPRouteEntry)
    (s : Challenge κ α) : Except Trap (Challenge κ α × Bool) := do
  let pointer ← s.table.get s.memory challenger.destination fuel
  let champion ← champion s.memory pointer
  if challenger.beats champion then
    let r ← s.table.update s.memory s.alloc (s.clock 0) challenger.destination address
      (challenger.cost + 1).toInt32 fuel
    .ok (⟨r.2.1, r.2.2, s.clock.tail, s.alloc.tail⟩, false)
  else .ok (⟨s.table, s.memory, s.clock.tail, s.alloc.tail⟩, false)

/-- the table and the memory after the call; a missing value in the list of the neighbour ends the
loop -/
def updateRouting (t : StoredTable κ) (m : RouteMemory κ α) (clock : Clock)
    (alloc : RouteAllocation κ α) (neighbor : StoredTable κ) (fuel : ℕ) :
    Except Trap (StoredTable κ × RouteMemory κ α) := do
  let s ← scan Challenge.memory (fun s => .ok (s, true)) (challenge neighbor.tableAddress fuel)
    neighbor.entries fuel ⟨t, m, clock, alloc⟩
  .ok (s.1.table, s.1.memory)

/-- an entry that is too old is destroyed, another one gets a node of the new list; the old node
stays where it is -/
def renew (entryMaxAgeMilli : ℤ) (_cur : κ) (block : α) (e : MIPRouteEntry) (s : Renewal κ α) :
    Except Trap (Renewal κ α × Bool) :=
  if e.toOld (s.clock 0) entryMaxAgeMilli && e.cost ≠ 0 then do
    let records ← s.memory.records.free (some block)
    .ok (⟨s.newList, ⟨s.memory.nodes, records⟩, s.removed + 1, s.clock.tail, s.alloc.tail⟩, false)
  else do
    let r ← s.newList.push s.memory.nodes (s.alloc.node 0 s.memory.nodes) (some block)
    .ok (⟨r.2, ⟨r.1, s.memory.records⟩, s.removed, s.clock.tail, s.alloc.tail⟩, false)

/-- the old list is destroyed and the new one takes its place; the error label is behind that -/
def removeOldEntries (t : StoredTable κ) (m : RouteMemory κ α) (clock : Clock)
    (alloc : RouteAllocation κ α) (fuel : ℕ) :
    Except Trap (ℤ × StoredTable κ × RouteMemory κ α) := do
  let s ← scan Renewal.memory (fun s => .ok (s, true)) (renew t.entryMaxAgeMilli) t.entries fuel
    ⟨CList.create, m, 0, clock, alloc⟩
  if s.2 then .ok (-1, t, s.1.memory)
  else
    let nodes ← t.entries.destroy s.1.memory.nodes fuel
    .ok (s.1.removed, { t with entries := s.1.newList }, ⟨nodes, s.1.memory.records⟩)

/-- `List_clear_destroy` of the entries -/
def destroy (t : StoredTable κ) (m : RouteMemory κ α) (fuel : ℕ) : Except Trap (RouteMemory κ α) := do
  let s ← t.entries.clearDestroy m.nodes m.records fuel
  .ok ⟨s.1, s.2⟩

/-- the loop of `MIPRouteTable_create_package`: one more entry is written into the array -/
def fillPackage (_cur : κ) (_block : α) (e : MIPRouteEntry)
    (s : ℕ × MIPRouteTablePackage × RouteMemory κ α) :
    Except Trap ((ℕ × MIPRouteTablePackage × RouteMemory κ α) × Bool) :=
  if s.1 < MIP_TABLE_PACKAGE_ENTRIES_MAX_SIZE then
    .ok ((s.1 + 1, s.2.1.set s.1 e.toPackage, s.2.2), false)
  else .error .dangling

/-- `none` for `NULL`; the values of the nodes are not checked -/
def createPackage (t : StoredTable κ) (m : RouteMemory κ α) (fuel : ℕ) :
    Except Trap (Option MIPRouteTablePackage) :=
  if t.entries.count < MIP_TABLE_PACKAGE_ENTRIES_MAX_SIZE then do
    let s ← scan (fun s => s.2.2) (fun _ => .error .null) fillPackage t.entries fuel
      (0, MIPRouteTablePackage.calloc, m)
    .ok (some { s.1.2.1 with numEntries := UInt8.ofNat s.1.1 })
  else .ok none

end StoredTable

/-- the loop of `MIPRouteTablePackage_create_table` -/
def createStoredEntries : Clock → RouteAllocation κ α → List MIPRoutePackageEntry →
    CList κ → RouteMemory κ α → Except Trap (CList κ × RouteMemory κ α)
  | _, _, [], list, m => .ok (list, m)
  | clock, alloc, e :: rest, list, m =>
    match alloc.block 0 m.records with
    | none => .error .null
    | some block => do
      let entry := MIPRouteEntry.create (clock 0) e.destination e.nextHop e.cost
      let r ← list.push m.nodes (alloc.node 0 m.nodes) (some block)
      createStoredEntries clock.tail alloc.tail rest r.2 ⟨r.1, m.records.write block (some entry)⟩

/-- `none` for `NULL` -/
def MIPRouteTablePackage.createStoredTable (p : MIPRouteTablePackage) (m : RouteMemory κ α)
    (clock : Clock) (alloc : RouteAllocation κ α) :
    Except Trap (Option (StoredTable κ) × RouteMemory κ α) :=
  if p.numEntries.toNat < MIP_TABLE_PACKAGE_ENTRIES_MAX_SIZE then do
    let r ← createStoredEntries clock alloc p.used CList.create m
    .ok (some ⟨p.tableAddress, MIP_TABLE_ENTRY_MAX_AGE_MILLI, r.1⟩, r.2)
  else .ok (none, m)

/-! ## what a table in memory stands for -/

/-- the nodes and blocks `cells` are the entries of the table `T` -/
structure Holds (m : RouteMemory κ α) (t : StoredTable κ) (cells : List (RouteCell κ α))
    (T : MIPRouteTable) : Prop where
  stores : Stores m t.entries cells
  address : t.tableAddress = T.tableAddress
  maxAge : t.entryMaxAgeMilli = T.entryMaxAgeMilli
  entries : cells.map Cell.record = T.entries

/-- a call that has to do with the blocks of one table only, and that leaves it as `T'` -/
def Became (m : RouteMemory κ α) (cells : List (RouteCell κ α)) (t' : StoredTable κ)
    (m' : RouteMemory κ α) (T' : MIPRouteTable) : Prop :=
  ∃ cells', Holds m' t' cells' T' ∧ m.Frame m' cells cells'

variable {m : RouteMemory κ α} {t : StoredTable κ} {cells rest : List (RouteCell κ α)}
  {c : RouteCell κ α} {T : MIPRouteTable} {alloc : RouteAllocation κ α} {fuel : ℕ}

theorem holds_create (m : RouteMemory κ α) : Holds m StoredTable.create [] MIPRouteTable.create :=
  ⟨stores_create m, rfl, rfl, rfl⟩

theorem Holds.length_eq (hh : Holds m t cells T) : cells.length = T.entries.length := by
  rw [← hh.entries, List.length_map]

namespace StoredTable

/-- the cell of the entry that a lookup finds -/
theorem get_spec (destination : MIPAddress) (hh : Holds m t cells T) (hn : cells.length < fuel) :
    ∃ p, t.get m destination fuel = .ok p ∧
      (p = none → T.get destination = none) ∧
      ∀ block, p = some block → ∃ e, m.records block = some e ∧ T.get destination = some e := by
  have hget : T.get destination = (cells.find? fun c => decide (c.record.destination = destination)).map
      Cell.record := by
    rw [MIPRouteTable.get, lookup, ← hh.entries, List.find?_map]
    rfl
  have hscan : ∃ p left, scan Prod.snd (fun _ => .error .null) (find destination) t.entries fuel
      (none, m) = .ok ((p, m), left) ∧
      p = (cells.find? fun c => decide (c.record.destination = destination)).map Cell.block := by
    refine scan_rule (I := fun rest s => s = (none, m) ∧ ∃ done, cells = done ++ rest ∧
        ∀ c ∈ done, ¬ c.record.destination = destination)
      (P := fun r => ∃ p left, r = .ok ((p, m), left) ∧
        p = (cells.find? fun c => decide (c.record.destination = destination)).map Cell.block)
      ?_ ?_ ?_ hh.stores.nodes.first ⟨rfl, [], rfl, by simp⟩ hn
    · rintro c rest _ ⟨rfl, done, rfl, _⟩
      exact ⟨_, _, hh.stores.node_eq, hh.stores.record_eq⟩
    · rintro c rest _ ⟨rfl, done, rfl, hdone⟩
      have hnone : done.find? (fun c => decide (c.record.destination = destination)) = none := by
        simpa using hdone
      rw [find]
      split
      · rename_i hd
        refine .leave _ ⟨some c.block, true, rfl, ?_⟩
        rw [List.find?_append, hnone]
        simp [hd]
      · rename_i hd
        refine .again _ _ ⟨rfl, done ++ [c], by simp, ?_⟩ hh.stores.node_eq rfl
        intro e he
        rcases List.mem_append.mp he with he | he
        · exact hdone e he
        · rwa [List.mem_singleton.mp he]
    · rintro _ ⟨rfl, done, hdone, hall⟩
      rw [List.append_nil] at hdone
      obtain rfl := hdone
      refine ⟨none, false, rfl, ?_⟩
      rw [List.find?_eq_none.mpr (by simpa using hall)]
      rfl
  obtain ⟨p, left, hrun, rfl⟩ := hscan
  refine ⟨_, by rw [get, hrun]; rfl, ?_, ?_⟩
  · intro hp
    rw [hget, Option.map_eq_none_iff.mp hp]
    rfl
  · intro block hp
    obtain ⟨c, hc, rfl⟩ := Option.map_eq_some_iff.mp hp
    exact ⟨c.record, hh.stores.records c (List.mem_of_find?_eq_some hc), by rw [hget, hc]; rfl⟩

theorem getNextHop_spec (destination : MIPAddress) (hh : Holds m t cells T)
    (hn : cells.length < fuel) :
    t.getNextHop m destination fuel = .ok (T.getNextHop destination) := by
  obtain ⟨p, hget, hnone, hsome⟩ := get_spec destination hh hn
  rw [getNextHop, MIPRouteTable.getNextHop]
  split
  · rfl
  · rw [hget]
    cases p with
    | none =>
      rw [hnone rfl]
      rfl
    | some block =>
      obtain ⟨e, he, hT⟩ := hsome block rfl
      rw [hT]
      show (m.records.load (some block) >>= _) = _
      rw [Heap.load_of_some he]
      rfl

theorem remove_spec (destination : MIPAddress) (hh : Holds m t cells T) (hn : cells.length < fuel) :
    ∃ t' m' cells', t.remove m destination fuel = .ok ((T.remove destination).1, t', m') ∧
      Holds m' t' cells' (T.remove destination).2 ∧ m.Frame m' cells cells' ∧
      (cells'.map Cell.block).Sublist (cells.map Cell.block) := by
  have hcount : t.entries.count = T.entries.length := by
    rw [hh.stores.nodes.count, List.length_map, hh.length_eq]
  rw [T.remove_entries, remove, MIPRouteTable.remove, hcount]
  by_cases hz : T.entries.length = 0
  · refine ⟨t, m, cells, ?_, ⟨hh.stores, hh.address, hh.maxAge, ?_⟩, Memory.Frame.refl m _,
      List.Sublist.refl _⟩
    · rw [if_pos (by exact_mod_cast hz), if_pos hz]
    · rw [hh.entries, List.length_eq_zero_iff.mp hz]
      rfl
  · obtain ⟨⟨rc, entries, m'⟩, hrun, hr⟩ :=
      removeFirst_spec (fun e => decide (e.destination = destination)) hh.stores hn
    have hany : (cells.any fun c => decide (c.record.destination = destination))
        = T.entries.any fun e => decide (e.destination = destination) := by
      rw [← hh.entries, List.any_map]
      rfl
    refine ⟨{ t with entries := entries }, m', _, ?_, ⟨hr.stores, hh.address, hh.maxAge, ?_⟩, hr.frame,
      List.eraseP_sublist.map Cell.block⟩
    · obtain rfl := hr.rc
      rw [if_neg (by exact_mod_cast hz), if_neg hz, hrun, hany]
      show Except.ok _ = _
      split
      · rfl
      · rfl
    · rw [erase, ← hh.entries, List.eraseP_map]
      rfl

theorem update_spec (now : ℤ) (destination nextHop : MIPAddress) (cost : Int32)
    (hh : Holds m t cells T) (hroomy : m.Roomy) (halloc : alloc.Lawful) (hn : cells.length < fuel) :
    ∃ t' m', t.update m alloc now destination nextHop cost fuel = .ok (1, t', m') ∧
      Became m cells t' m' (T.update now destination nextHop cost).2 := by
  obtain ⟨block, hblock, hb⟩ := halloc.block 0 m.records hroomy.records
  have hfresh : block ∉ cells.map Cell.block := hh.stores.not_mem_of_free hb
  obtain ⟨m1, hm1⟩ : ∃ m1 : RouteMemory κ α, m1 = ⟨m.nodes, m.records.write block
      (some (MIPRouteEntry.create now destination nextHop cost.toUInt32))⟩ := ⟨_, rfl⟩
  have hh1 : Holds m1 t cells T := by
    refine ⟨?_, hh.address, hh.maxAge, hh.entries⟩
    rw [hm1]
    exact hh.stores.alloc _ hb
  have hrec1 : m1.records block = some ⟨destination, nextHop, cost.toUInt32, now⟩ := by
    rw [hm1]
    exact Heap.write_self _
  have hfr1 : Heap.Frame m.records m1.records (cells.map Cell.block)
      (cells.map Cell.block ++ [block]) := by
    rw [hm1]
    exact frame_alloc _ hb
  have hnodes1 : m1.nodes = m.nodes := by rw [hm1]
  obtain ⟨t2, m2, cells2, hrem, hh2, hf2, hsub⟩ := remove_spec destination hh1 hn
  rw [T.remove_entries] at hh2
  have hroomy2 : m2.nodes.Roomy := hf2.nodes.roomy (by rw [hnodes1]; exact hroomy.nodes)
  obtain ⟨node, hnode, hfree⟩ := halloc.node 0 m2.nodes hroomy2
  obtain ⟨h3, entries3, hpush, hs3, hf3⟩ :=
    hh2.stores.push (c := ⟨node, block, ⟨destination, nextHop, cost.toUInt32, now⟩⟩) hfree
      (hf2.records.keeps hrec1 hfresh) fun hmem => hfresh (hsub.subset hmem)
  refine ⟨{ t2 with entries := entries3 }, ⟨h3, m2.records⟩, ?_, _,
    ⟨hs3, ?_, ?_, ?_⟩, ?_, ?_⟩
  · rw [update, hblock]
    show (t.remove ⟨m.nodes, m.records.write block (some _)⟩ destination fuel >>= _) = _
    rw [← hm1, hrem]
    show (if (T.remove destination).1 = -1 then _ else _) = _
    rw [if_neg (T.remove_rc destination)]
    show (t2.entries.push m2.nodes (alloc.node 0 m2.nodes) (some block) >>= _) = _
    rw [hnode, hpush]
    rfl
  · rw [T.update_entries]
    exact hh2.address
  · rw [T.update_entries]
    exact hh2.maxAge
  · rw [T.update_entries, List.map_append, hh2.entries]
    rfl
  · rw [← hnodes1]
    exact hf2.nodes.trans hf3
  · rw [List.map_append]
    exact hfr1.trans (hf2.records.extend [block])

theorem destroy_spec (hh : Holds m t cells T) (hn : cells.length < fuel) :
    ∃ m', t.destroy m fuel = .ok m' ∧ m.Frame m' cells [] := by
  have hvalues : (cells.map Cell.slot).filterMap Prod.snd = cells.map Cell.block := by
    rw [List.filterMap_map, ← List.filterMap_eq_map]
    rfl
  have halloc : ∀ a ∈ (cells.map Cell.slot).filterMap Prod.snd, m.records a ≠ none := by
    rw [hvalues]
    intro a ha
    obtain ⟨c, hc, rfl⟩ := List.mem_map.mp ha
    exact hh.stores.block_ne_none hc
  have hlen : (cells.map Cell.slot).length < fuel := by rwa [List.length_map]
  obtain ⟨nodes, records, hrun, hfn, hfr⟩ := hh.stores.nodes.clearDestroy_spec
    (by rw [hvalues]; exact hh.stores.distinct) halloc hlen
  rw [hvalues] at hfr
  rw [keys_map_slot] at hfn
  refine ⟨⟨nodes, records⟩, ?_, hfn, hfr⟩
  rw [destroy, hrun]
  rfl

/-- the entries in front of `rest` have been written into the array -/
def Filling (m : RouteMemory κ α) (cells rest : List (RouteCell κ α))
    (s : ℕ × MIPRouteTablePackage × RouteMemory κ α) : Prop :=
  s.2.2 = m ∧ ∃ done, cells = done ++ rest ∧ s.1 = done.length ∧ s.2.1.tableAddress = 0 ∧
    s.2.1.entries = (done.map Cell.record).map MIPRouteEntry.toPackage ++
      List.replicate (MIP_TABLE_PACKAGE_ENTRIES_MAX_SIZE - done.length) ⟨0, 0, 0⟩

theorem Filling.act {s : ℕ × MIPRouteTablePackage × RouteMemory κ α}
    (hs : Stores m t.entries cells) (hlen : cells.length < MIP_TABLE_PACKAGE_ENTRIES_MAX_SIZE)
    (hfill : Filling m cells (c :: rest) s) :
    ∃ s', fillPackage c.node c.block c.record s = .ok (s', false) ∧ Filling m cells rest s' ∧
      s'.2.2.nodes c.node = some ⟨entry (rest.map Cell.slot) none,
        exit none ((cells.take s.1).map Cell.slot), some c.block⟩ := by
  obtain ⟨i, p, m⟩ := s
  obtain ⟨rfl, done, rfl, hi, haddr, hentries⟩ := hfill
  obtain rfl : i = done.length := hi
  have hlt : done.length < MIP_TABLE_PACKAGE_ENTRIES_MAX_SIZE := by
    rw [List.length_append, List.length_cons] at hlen
    omega
  have hrep : MIP_TABLE_PACKAGE_ENTRIES_MAX_SIZE - done.length
      = MIP_TABLE_PACKAGE_ENTRIES_MAX_SIZE - (done.length + 1) + 1 := by omega
  refine ⟨(done.length + 1, p.set done.length c.record.toPackage, m), if_pos hlt,
    ⟨rfl, done ++ [c], by simp, by simp, haddr, ?_⟩, ?_⟩
  · show p.entries.set done.length c.record.toPackage = _
    rw [show p.entries = _ from hentries, hrep, List.replicate_succ,
      List.set_append_right _ _ (by simp)]
    simp
  · rw [List.take_left' rfl]
    exact hs.node_eq

/-- nothing is written past the end of the array, and the package is the one of the table -/
theorem createPackage_spec (hh : Holds m t cells T) (hn : cells.length < fuel) :
    t.createPackage m fuel = .ok T.createPackage := by
  have hcount : t.entries.count = T.entries.length := by
    rw [hh.stores.nodes.count, List.length_map, hh.length_eq]
  rw [createPackage, MIPRouteTable.createPackage, hcount]
  by_cases hlt : T.entries.length < MIP_TABLE_PACKAGE_ENTRIES_MAX_SIZE
  · rw [if_pos (by exact_mod_cast hlt), dif_pos hlt]
    have hscan : ∃ s, scan (fun s => s.2.2) (fun _ => .error .null) fillPackage t.entries fuel
        (0, MIPRouteTablePackage.calloc, m) = .ok (s, false) ∧ Filling m cells [] s := by
      refine scan_rule (I := Filling m cells) (P := fun r => ∃ s, r = .ok (s, false) ∧
        Filling m cells [] s) ?_ ?_ (fun s h => ⟨s, rfl, h⟩) hh.stores.nodes.first
        ⟨rfl, [], rfl, rfl, rfl, rfl⟩ hn
      · rintro c rest ⟨i, p, m⟩ ⟨rfl, done, rfl, _⟩
        exact ⟨_, _, hh.stores.node_eq, hh.stores.record_eq⟩
      · intro c rest s hfill
        obtain ⟨s', hact, hfill', hnode⟩ := hfill.act hh.stores (by rwa [hh.length_eq])
        rw [hact]
        exact .again s' _ hfill' hnode rfl
    obtain ⟨⟨i, ⟨a, k, entries, hsize⟩, m'⟩, hrun, rfl, done, hdone, hi, haddr, hentries⟩ := hscan
    rw [List.append_nil] at hdone
    obtain rfl := hdone
    obtain rfl : i = cells.length := hi
    obtain rfl : a = 0 := haddr
    obtain rfl : entries = _ := hentries
    rw [hrun]
    show Except.ok (some _) = Except.ok (some _)
    simp only [hh.entries, hh.length_eq]
  · rw [if_neg (by exact_mod_cast hlt), dif_neg hlt]

/-! ## expiry -/

/-- inside the loop of `MIPRouteTable_remove_old_entries`, in front of `rest`: the old list is still
there, the new one has the nodes `kept` -/
structure Renewing (t : StoredTable κ) (m : RouteMemory κ α) (cells : List (RouteCell κ α))
    (clock : Clock) (kept rest : List (RouteCell κ α)) (s : Renewal κ α) : Prop where
  done : ∃ done, cells = done ++ rest
  result : kept.map Cell.record ++
      (removeOldLoop t.entryMaxAgeMilli s.clock (rest.map Cell.record)).2
    = (removeOldLoop t.entryMaxAgeMilli clock (cells.map Cell.record)).2
  removed : s.removed + (removeOldLoop t.entryMaxAgeMilli s.clock (rest.map Cell.record)).1
    = (removeOldLoop t.entryMaxAgeMilli clock (cells.map Cell.record)).1
  old : CList.Represents s.memory.nodes t.entries (cells.map Cell.slot)
  new : CList.Represents s.memory.nodes s.newList (kept.map Cell.slot)
  apart : ∀ k ∈ kept.map Cell.node, k ∉ cells.map Cell.node
  records : ∀ e ∈ kept ++ rest, s.memory.records e.block = some e.record
  distinct : ((kept ++ rest).map Cell.block).Nodup
  alloc : s.alloc.Lawful
  roomy : s.memory.nodes.Roomy
  nodesFrame : Heap.Frame m.nodes s.memory.nodes (cells.map Cell.node)
    (cells.map Cell.node ++ kept.map Cell.node)
  recordsFrame : Heap.Frame m.records s.memory.records (cells.map Cell.block)
    ((kept ++ rest).map Cell.block)

variable {clock : Clock}

theorem removeOldLoop_old {e : MIPRouteEntry} {l : List MIPRouteEntry} {maxAge : ℤ}
    (hold : (e.toOld (clock 0) maxAge && e.cost ≠ 0) = true) :
    removeOldLoop maxAge clock (e :: l) = ((removeOldLoop maxAge clock.tail l).1 + 1,
      (removeOldLoop maxAge clock.tail l).2) := by
  rw [removeOldLoop]
  simp only [hold, if_true]

theorem removeOldLoop_kept {e : MIPRouteEntry} {l : List MIPRouteEntry} {maxAge : ℤ}
    (hold : ¬ (e.toOld (clock 0) maxAge && e.cost ≠ 0) = true) :
    removeOldLoop maxAge clock (e :: l) = ((removeOldLoop maxAge clock.tail l).1,
      e :: (removeOldLoop maxAge clock.tail l).2) := by
  rw [removeOldLoop]
  simp only [hold]
  rfl

namespace Renewing
variable {kept : List (RouteCell κ α)} {s : Renewal κ α}

/-- the state in front of the first entry -/
theorem start (hs : Stores m t.entries cells) (hroomy : m.Roomy) (halloc : alloc.Lawful) :
    Renewing t m cells clock [] cells ⟨CList.create, m, 0, clock, alloc⟩ where
  done := ⟨[], rfl⟩
  result := rfl
  removed := zero_add _
  old := hs.nodes
  new := CList.represents_create _
  apart := by simp
  records := hs.records
  distinct := hs.distinct
  alloc := halloc
  roomy := hroomy.nodes
  nodesFrame := by
    rw [List.map_nil, List.append_nil]
    exact Heap.Frame.refl _ _
  recordsFrame := Heap.Frame.refl _ _

theorem record_eq (hr : Renewing t m cells clock kept (c :: rest) s) :
    s.memory.records c.block = some c.record := hr.records c (by simp)

theorem node_eq (hr : Renewing t m cells clock kept (c :: rest) s) :
    ∃ p, s.memory.nodes c.node = some ⟨entry (rest.map Cell.slot) none, p, some c.block⟩ := by
  obtain ⟨done, rfl⟩ := hr.done
  have hl := hr.old.linked
  rw [List.map_append, List.map_cons] at hl
  exact ⟨_, hl.node (x := c.slot)⟩

theorem next_done (hr : Renewing t m cells clock kept (c :: rest) s) :
    ∃ done, cells = done ++ rest := by
  obtain ⟨done, hdone⟩ := hr.done
  exact ⟨done ++ [c], by rw [hdone, List.append_assoc]; rfl⟩

theorem block_ne (hr : Renewing t m cells clock kept (c :: rest) s) :
    c.block ∉ (kept ++ rest).map Cell.block := by
  have hd := hr.distinct
  rw [List.map_append, List.map_cons] at hd
  rw [List.map_append]
  exact (List.nodup_cons.mp (List.nodup_middle.mp hd)).1

/-- an entry is destroyed -/
theorem destroyed (hr : Renewing t m cells clock kept (c :: rest) s)
    (hold : (c.record.toOld (s.clock 0) t.entryMaxAgeMilli && c.record.cost ≠ 0) = true) :
    ∃ s', renew t.entryMaxAgeMilli c.node c.block c.record s = .ok (s', false) ∧
      Renewing t m cells clock kept rest s' ∧ s'.memory.nodes c.node = s.memory.nodes c.node := by
  refine ⟨⟨s.newList, ⟨s.memory.nodes, s.memory.records.write c.block none⟩, s.removed + 1,
    s.clock.tail, s.alloc.tail⟩, ?_, ⟨hr.next_done, ?_, ?_, hr.old, hr.new, hr.apart, ?_, ?_,
    hr.alloc.tail, hr.roomy, hr.nodesFrame, ?_⟩, rfl⟩
  · rw [renew, if_pos hold, Heap.free_of_some hr.record_eq]
    rfl
  · rw [← hr.result, List.map_cons, removeOldLoop_old hold]
  · rw [← hr.removed, List.map_cons, removeOldLoop_old hold]
    show s.removed + 1 + _ = s.removed + (_ + 1)
    ring
  · intro e he
    have hne : e.block ≠ c.block := fun heq => hr.block_ne (List.mem_map.mpr ⟨e, he, heq⟩)
    refine (Heap.write_of_ne _ hne).trans (hr.records e ?_)
    rw [List.mem_append, List.mem_cons]
    exact (List.mem_append.mp he).imp_right Or.inr
  · exact hr.distinct.sublist
      (((List.Sublist.refl kept).append (List.sublist_cons_self c rest)).map Cell.block)
  · refine hr.recordsFrame.trans ?_
    refine (Heap.Frame.free s.memory.records ((kept ++ rest).map Cell.block)).congr (fun i => ?_)
      fun _ => Iff.rfl
    rw [List.map_append, List.map_append, List.map_cons, List.mem_append, List.mem_cons,
      List.mem_cons, List.mem_append]
    exact or_left_comm

/-- an entry gets a node of the new list -/
theorem renewed (hr : Renewing t m cells clock kept (c :: rest) s)
    (hold : ¬ (c.record.toOld (s.clock 0) t.entryMaxAgeMilli && c.record.cost ≠ 0) = true) :
    ∃ s' e, renew t.entryMaxAgeMilli c.node c.block c.record s = .ok (s', false) ∧
      Renewing t m cells clock (kept ++ [e]) rest s' ∧
      s'.memory.nodes c.node = s.memory.nodes c.node := by
  obtain ⟨k, hcalloc, hk⟩ := hr.alloc.node 0 s.memory.nodes hr.roomy
  have hkold : k ∉ cells.map Cell.node := by
    have h := hr.old.not_mem_of_free hk
    rwa [keys_map_slot] at h
  obtain ⟨e, he⟩ : ∃ e : RouteCell κ α, e = ⟨k, c.block, c.record⟩ := ⟨_, rfl⟩
  have henode : e.node = k := by rw [he]
  have heblock : e.block = c.block := by rw [he]
  have herecord : e.record = c.record := by rw [he]
  obtain ⟨h', list', hpush, hnew, hf⟩ := hr.new.push_spec hk (some c.block)
  have hslots : kept.map Cell.slot ++ [(k, some c.block)] = (kept ++ [e]).map Cell.slot := by
    rw [List.map_append, he]
    rfl
  rw [hslots] at hnew hf
  rw [keys_map_slot, keys_map_slot] at hf
  obtain ⟨p, hnode⟩ := hr.node_eq
  refine ⟨⟨list', ⟨h', s.memory.records⟩, s.removed, s.clock.tail, s.alloc.tail⟩, e, ?_,
    ⟨hr.next_done, ?_, ?_, ?_, hnew, ?_, ?_, ?_, hr.alloc.tail, hf.roomy hr.roomy, ?_, ?_⟩, ?_⟩
  · rw [renew, if_neg hold, hcalloc, hpush]
    rfl
  · rw [← hr.result, List.map_cons, removeOldLoop_kept hold, List.map_append, List.append_assoc,
      ← herecord]
    rfl
  · rw [← hr.removed, List.map_cons, removeOldLoop_kept hold]
  · refine hr.old.keep hf ?_
    rw [keys_map_slot]
    exact fun i hi hkept => hr.apart i hkept hi
  · intro i hi
    rw [List.map_append, List.mem_append] at hi
    rcases hi with hi | hi
    · exact hr.apart i hi
    · rw [List.mem_singleton.mp hi, henode]
      exact hkold
  · intro x hx
    rw [List.append_assoc, List.mem_append, List.mem_append, List.mem_singleton] at hx
    rcases hx with hx | rfl | hx
    · exact hr.records x (List.mem_append_left _ hx)
    · rw [heblock, herecord]
      exact hr.record_eq
    · exact hr.records x (List.mem_append_right _ (List.mem_cons_of_mem c hx))
  · have hd := hr.distinct
    rw [List.map_append, List.map_cons, ← heblock] at hd
    simpa using hd
  · refine hr.nodesFrame.trans ((hf.extend (cells.map Cell.node)).congr (fun i => ?_) fun i => ?_)
    · rw [List.mem_append, List.mem_append]
      exact or_comm
    · rw [List.mem_append, List.mem_append]
      exact or_comm
  · refine hr.recordsFrame.congr (fun _ => Iff.rfl) fun i => ?_
    simp [heblock]
  · show h' c.node = s.memory.nodes c.node
    have hcell : c.node ∈ cells.map Cell.node := by
      obtain ⟨done, rfl⟩ := hr.done
      simp
    rw [hf.keeps hnode fun hmem => hr.apart c.node hmem hcell, hnode]

end Renewing

theorem removeOldEntries_spec (clock : Clock) (hh : Holds m t cells T) (hroomy : m.Roomy)
    (halloc : alloc.Lawful) (hn : cells.length < fuel) :
    ∃ t' m', t.removeOldEntries m clock alloc fuel = .ok ((T.removeOldEntries clock).1, t', m') ∧
      Became m cells t' m' (T.removeOldEntries clock).2 := by
  have hscan : ∃ s kept, scan Renewal.memory (fun s => .ok (s, true)) (renew t.entryMaxAgeMilli)
      t.entries fuel ⟨CList.create, m, 0, clock, alloc⟩ = .ok (s, false) ∧
      Renewing t m cells clock kept [] s := by
    refine scan_rule (I := fun rest s => ∃ kept, Renewing t m cells clock kept rest s)
      (P := fun r => ∃ s kept, r = .ok (s, false) ∧ Renewing t m cells clock kept [] s)
      ?_ ?_ ?_ hh.stores.nodes.first ⟨[], Renewing.start hh.stores hroomy halloc⟩ hn
    · rintro c rest s ⟨kept, hr⟩
      obtain ⟨p, hnode⟩ := hr.node_eq
      exact ⟨_, p, hnode, hr.record_eq⟩
    · rintro c rest s ⟨kept, hr⟩
      obtain ⟨p, hnode⟩ := hr.node_eq
      by_cases hold : (c.record.toOld (s.clock 0) t.entryMaxAgeMilli && c.record.cost ≠ 0) = true
      · obtain ⟨s', hact, hr', hsame⟩ := hr.destroyed hold
        rw [hact]
        exact .again s' _ ⟨kept, hr'⟩ (hsame.trans hnode) rfl
      · obtain ⟨s', e, hact, hr', hsame⟩ := hr.renewed hold
        rw [hact]
        exact .again s' _ ⟨_, hr'⟩ (hsame.trans hnode) rfl
    · rintro s ⟨kept, hr⟩
      exact ⟨s, kept, rfl, hr⟩
  obtain ⟨s, kept, hrun, hr⟩ := hscan
  have hlen : (cells.map Cell.slot).length < fuel := by rwa [List.length_map]
  obtain ⟨nodes, hdestroy, hf⟩ := hr.old.destroy_spec hlen
  rw [keys_map_slot] at hf
  have hremoved : s.removed = (T.removeOldEntries clock).1 := by
    have h := hr.removed
    rw [hh.entries, hh.maxAge] at h
    exact (add_zero s.removed).symm.trans h
  have hkept : kept.map Cell.record = (T.removeOldEntries clock).2.entries := by
    have h := hr.result
    rw [hh.entries, hh.maxAge] at h
    exact (List.append_nil _).symm.trans h
  refine ⟨{ t with entries := s.newList }, ⟨nodes, s.memory.records⟩, ?_, kept,
    ⟨⟨?_, ?_, ?_⟩, hh.address, hh.maxAge, hkept⟩, ?_, ?_⟩
  · rw [removeOldEntries, hrun]
    show (t.entries.destroy s.memory.nodes fuel >>= _) = _
    rw [hdestroy, ← hremoved]
    rfl
  · refine hr.new.keep hf ?_
    rw [keys_map_slot]
    exact hr.apart
  · simpa using hr.distinct
  · intro c hc
    exact hr.records c (by simpa using hc)
  · exact hr.nodesFrame.trans (hf.extend (kept.map Cell.node))
  · simpa using hr.recordsFrame

/-! ## the table of a neighbour -/

theorem createStoredEntries_spec {list : CList κ} (clock : Clock) (l : List MIPRoutePackageEntry)
    (hs : Stores m list cells) (hroomy : m.Roomy) (halloc : alloc.Lawful) :
    ∃ list' m' cells', createStoredEntries clock alloc l list m = .ok (list', m') ∧
      Stores m' list' cells' ∧ cells'.map Cell.record = cells.map Cell.record ++ createEntries clock l ∧
      m.Frame m' cells cells' := by
  induction l generalizing m list cells clock alloc with
  | nil => exact ⟨list, m, cells, rfl, hs, (List.append_nil _).symm, Memory.Frame.refl m _⟩
  | cons e l ih =>
    obtain ⟨block, hblock, hb⟩ := halloc.block 0 m.records hroomy.records
    obtain ⟨node, hnode, hfree⟩ := halloc.node 0 m.nodes hroomy.nodes
    have hfresh : block ∉ cells.map Cell.block := hs.not_mem_of_free hb
    obtain ⟨c, hc⟩ : ∃ c : RouteCell κ α,
        c = ⟨node, block, MIPRouteEntry.create (clock 0) e.destination e.nextHop e.cost⟩ := ⟨_, rfl⟩
    have hs1 : Stores (⟨m.nodes, m.records.write block (some c.record)⟩ : RouteMemory κ α) list cells :=
      hs.alloc c.record hb
    obtain ⟨h', list', hpush, hs2, hf⟩ := hs1.push (c := c) (by rw [hc]; exact hfree)
      (by rw [hc]; exact Heap.write_self _) (by rw [hc]; exact hfresh)
    have hframe : m.Frame ⟨h', m.records.write block (some c.record)⟩ cells (cells ++ [c]) := by
      refine ⟨hf, ?_⟩
      rw [List.map_append, List.map_singleton, show c.block = block by rw [hc]]
      exact frame_alloc c.record hb
    obtain ⟨list2, m2, cells2, hrun, hs3, hentries, hf2⟩ :=
      ih clock.tail hs2 (hframe.roomy hroomy) halloc.tail
    refine ⟨list2, m2, cells2, ?_, hs3, ?_, hframe.trans hf2⟩
    · rw [createStoredEntries, hblock]
      show (list.push m.nodes (alloc.node 0 m.nodes) (some block) >>= _) = _
      have hpush' : list.push m.nodes (some node) (some block) = .ok (h', list') := by
        rw [hc] at hpush
        exact hpush
      rw [hnode, hpush', ← hrun, hc]
      rfl
    · rw [hentries, List.map_append, List.append_assoc, hc]
      rfl

theorem createStoredTable_spec {p : MIPRouteTablePackage} {N : MIPRouteTable}
    (hp : p.createTable clock = some N) (hroomy : m.Roomy) (halloc : alloc.Lawful) :
    ∃ n m' cells', p.createStoredTable m clock alloc = .ok (some n, m') ∧ Holds m' n cells' N ∧
      m.Frame m' [] cells' := by
  rw [MIPRouteTablePackage.createTable] at hp
  split at hp
  · rename_i hlt
    obtain rfl := Option.some.inj hp
    obtain ⟨list', m', cells', hrun, hs, hentries, hf⟩ := createStoredEntries_spec clock
      p.used (stores_create m) hroomy halloc
    refine ⟨⟨p.tableAddress, MIP_TABLE_ENTRY_MAX_AGE_MILLI, list'⟩, m', cells', ?_,
      ⟨hs, rfl, rfl, hentries⟩, hf⟩
    rw [MIPRouteTablePackage.createStoredTable, if_pos hlt, hrun]
    rfl
  · cases hp

theorem createStoredTable_null {p : MIPRouteTablePackage} (hp : p.createTable clock = none) :
    p.createStoredTable m clock alloc = .ok (none, m) := by
  rw [MIPRouteTablePackage.createTable] at hp
  split at hp
  · cases hp
  · rename_i hlt
    exact if_neg hlt

/-! ## the update by the table of a neighbour -/

theorem length_update_le (T : MIPRouteTable) (now : ℤ) (d h : MIPAddress) (c : Int32) :
    (T.update now d h c).2.entries.length ≤ T.entries.length + 1 := by
  rw [T.update_entries]
  show (put MIPRouteEntry.destination _ T.entries).length ≤ _
  rw [put, List.length_append, List.length_singleton]
  exact Nat.add_le_add_right List.length_eraseP_le 1

/-- inside the loop of `MIPRouteTable_update_routing`, in front of `rest` -/
structure Challenging (m : RouteMemory κ α) (cells ncells : List (RouteCell κ α))
    (address : MIPAddress) (clock : Clock) (T : MIPRouteTable) (rest : List (RouteCell κ α))
    (s : Challenge κ α) (cells' : List (RouteCell κ α)) (T' : MIPRouteTable) : Prop where
  done : ∃ done, ncells = done ++ rest
  holds : Holds s.memory s.table cells' T'
  frame : m.Frame s.memory cells cells'
  result : T'.updateLoop address s.clock (rest.map Cell.record)
    = T.updateLoop address clock (ncells.map Cell.record)
  alloc : s.alloc.Lawful
  size : cells'.length + rest.length ≤ cells.length + ncells.length

theorem Challenging.act {s : Challenge κ α} {ncells cells' : List (RouteCell κ α)}
    {address : MIPAddress} {T' : MIPRouteTable} (hroomy : m.Roomy)
    (hn : cells.length + ncells.length < fuel)
    (hc : Challenging m cells ncells address clock T (c :: rest) s cells' T') :
    ∃ s' cells'' T'', challenge address fuel c.node c.block c.record s = .ok (s', false) ∧
      Challenging m cells ncells address clock T rest s' cells'' T'' := by
  have hsize := hc.size
  rw [List.length_cons] at hsize
  have hdone : ∃ done, ncells = done ++ rest := by
    obtain ⟨done, hdone⟩ := hc.done
    exact ⟨done ++ [c], by rw [hdone, List.append_assoc]; rfl⟩
  have hfuel : cells'.length < fuel := by omega
  obtain ⟨p, hget, hnone, hsome⟩ := get_spec c.record.destination hc.holds hfuel
  have hchampion : champion s.memory p = .ok (T'.get c.record.destination) := by
    cases p with
    | none =>
      rw [hnone rfl]
      rfl
    | some block =>
      obtain ⟨e, he, hT⟩ := hsome block rfl
      rw [champion, Heap.load_of_some he, hT]
      rfl
  have hresult := hc.result
  rw [List.map_cons, MIPRouteTable.updateLoop, MIPRouteTable.challenge] at hresult
  by_cases hb : c.record.beats (T'.get c.record.destination) = true
  · rw [if_pos hb] at hresult
    obtain ⟨t2, m2, hupdate, cells2, hh2, hf2⟩ := update_spec (s.clock 0)
      c.record.destination address (c.record.cost + 1).toInt32 hc.holds (hc.frame.roomy hroomy)
      hc.alloc hfuel
    refine ⟨⟨t2, m2, s.clock.tail, s.alloc.tail⟩, cells2, _, ?_, hdone, hh2, hc.frame.trans hf2,
      hresult, hc.alloc.tail, ?_⟩
    · rw [challenge, hget]
      show (champion s.memory p >>= _) = _
      rw [hchampion]
      show (if c.record.beats (T'.get c.record.destination) = true then _ else _) = _
      rw [if_pos hb, hupdate]
      rfl
    · have hlen := length_update_le T' (s.clock 0) c.record.destination address
        (c.record.cost + 1).toInt32
      have h1 := hh2.length_eq
      have h2 := hc.holds.length_eq
      omega
  · rw [if_neg hb] at hresult
    refine ⟨⟨s.table, s.memory, s.clock.tail, s.alloc.tail⟩, cells', T', ?_, hdone, hc.holds, hc.frame,
      hresult, hc.alloc.tail, by omega⟩
    rw [challenge, hget]
    show (champion s.memory p >>= _) = _
    rw [hchampion]
    show (if c.record.beats (T'.get c.record.destination) = true then _ else _) = _
    rw [if_neg hb]

theorem updateRouting_spec {n : StoredTable κ} {ncells : List (RouteCell κ α)} {N : MIPRouteTable}
    (clock : Clock) (hh : Holds m t cells T) (hN : Holds m n ncells N) (hapart : Apart ncells cells)
    (hroomy : m.Roomy) (halloc : alloc.Lawful) (hn : cells.length + ncells.length < fuel) :
    ∃ t' m', t.updateRouting m clock alloc n fuel = .ok (t', m') ∧
      Became m cells t' m' (T.updateRouting clock N) := by
  have hscan : ∃ s cells' T', scan Challenge.memory (fun s => .ok (s, true))
      (challenge n.tableAddress fuel) n.entries fuel ⟨t, m, clock, alloc⟩ = .ok (s, false) ∧
      Challenging m cells ncells n.tableAddress clock T [] s cells' T' := by
    refine scan_rule
      (I := fun rest s => ∃ cells' T', Challenging m cells ncells n.tableAddress clock T rest s cells' T')
      (P := fun r => ∃ s cells' T', r = .ok (s, false) ∧
        Challenging m cells ncells n.tableAddress clock T [] s cells' T')
      ?_ ?_ ?_ hN.stores.nodes.first
      ⟨cells, T, ⟨[], rfl⟩, hh, Memory.Frame.refl m _, rfl, halloc, le_rfl⟩ (by omega)
    · rintro c rest s ⟨cells', T', hc⟩
      have hkeep := hN.stores.keep hc.frame hapart.nodes hapart.blocks
      obtain ⟨done, rfl⟩ := hc.done
      exact ⟨_, _, hkeep.node_eq, hkeep.record_eq⟩
    · rintro c rest s ⟨cells', T', hc⟩
      obtain ⟨s', cells2, T2, hact, hc'⟩ := hc.act hroomy hn
      have hkeep := hN.stores.keep hc'.frame hapart.nodes hapart.blocks
      rw [hact]
      obtain ⟨done, hdone⟩ := hc.done
      rw [hdone] at hkeep
      exact .again s' _ ⟨cells2, T2, hc'⟩ hkeep.node_eq rfl
    · rintro s ⟨cells', T', hc⟩
      exact ⟨s, cells', T', rfl, hc⟩
  obtain ⟨s, cells', T', hrun, hc⟩ := hscan
  have hT : T' = T.updateRouting clock N := by
    have h := hc.result
    rw [hN.entries, hN.address] at h
    exact h
  refine ⟨s.table, s.memory, ?_, cells', ?_, hc.frame⟩
  · rw [updateRouting, hrun]
    rfl
  · rw [← hT]
    exact hc.holds

end StoredTable
end MipStack
