import MipStack.Commons.Definitions
import MipStack.Library.Keyed

/-!
# The route table of routerd (`mip_route_table.c`)

`List_push` adds at the end, `LIST_FOREACH` goes from the first node to the last.

* `MIPRouteTable.get`, `.remove`, `.update`, `.getNextHop`   lookup and replacement of one entry;
* `MIPRouteTable.updateRouting`    one neighbour table processed;
* `MIPRouteTable.createPackage`, `MIPRouteTablePackage.createTable`   the exchange format;
* `MIPRouteTable.removeOldEntries` expiry;
* `RouterTable`                    a route table with unique destinations: what a routerd keeps.

The clock is read once for each created or examined entry; reading `i` of a call belongs to the
entry at position `i` of the list that the call goes through.  Allocation succeeds.
-/

namespace MipStack
open Library

/-! ## data -/

structure MIPRouteEntry where
  destination : MIPAddress
  nextHop : MIPAddress
  cost : UInt32
  lastUpdatedMilli : ℤ
  deriving DecidableEq, Repr

structure MIPRouteTable where
  tableAddress : MIPAddress
  entryMaxAgeMilli : ℤ
  entries : List MIPRouteEntry
  deriving DecidableEq, Repr

structure MIPRoutePackageEntry where
  destination : MIPAddress
  nextHop : MIPAddress
  cost : UInt32
  deriving DecidableEq, Repr

def MIP_TABLE_PACKAGE_ENTRIES_MAX_SIZE : ℕ := 64
def MIP_TABLE_ENTRY_MAX_AGE_MILLI : ℤ := 5000

/-- a C array of 64 entries, of which the first `numEntries` are in use -/
structure MIPRouteTablePackage where
  tableAddress : MIPAddress
  numEntries : UInt8
  entries : List MIPRoutePackageEntry
  size : entries.length = MIP_TABLE_PACKAGE_ENTRIES_MAX_SIZE
  deriving DecidableEq, Repr

def MIPRouteTablePackage.used (p : MIPRouteTablePackage) : List MIPRoutePackageEntry :=
  p.entries.take p.numEntries.toNat

/-! ## the functions -/

/-- `check(destination <= 255)` holds of every `uint8_t` -/
def MIPRouteEntry.create (now : ℤ) (destination nextHop : MIPAddress) (cost : UInt32) :
    MIPRouteEntry := ⟨destination, nextHop, cost, now⟩

def MIPRouteTable.create : MIPRouteTable := ⟨0, MIP_TABLE_ENTRY_MAX_AGE_MILLI, []⟩

def MIPRouteTable.get (t : MIPRouteTable) (destination : MIPAddress) : Option MIPRouteEntry :=
  lookup MIPRouteEntry.destination destination t.entries

/-- return code and the table after the call -/
def MIPRouteTable.remove (t : MIPRouteTable) (destination : MIPAddress) : ℤ × MIPRouteTable :=
  if t.entries.length = 0 then (1, t)
  else if t.entries.any fun e => e.destination = destination then
    (1, { t with entries := erase MIPRouteEntry.destination destination t.entries })
  else (0, t)

/-- return code and the table after the call; the C parameter `cost` is an `int` -/
def MIPRouteTable.update (t : MIPRouteTable) (now : ℤ) (destination nextHop : MIPAddress)
    (cost : Int32) : ℤ × MIPRouteTable :=
  let entry := MIPRouteEntry.create now destination nextHop cost.toUInt32
  let (rc, t') := t.remove destination
  if rc = -1 then (-1, t) else (1, { t' with entries := t'.entries ++ [entry] })

def MIPRouteTable.getNextHop (t : MIPRouteTable) (destination : MIPAddress) : MIPAddress :=
  if destination = MIP_BROADCAST_ADDRESS then MIP_BROADCAST_ADDRESS
  else match t.get destination with
    | some entry => entry.nextHop
    | none => 255

/-- the test of `MIPRouteTable_update_routing`, with the addition of `unsigned int` -/
def MIPRouteEntry.beats (challenger : MIPRouteEntry) (champion : Option MIPRouteEntry) : Bool :=
  (match champion with
    | none => true
    | some champion => decide (challenger.cost + 1 ≤ champion.cost))
  && decide (challenger.cost ≠ UINT_MAX)

/-- the body of the loop of `MIPRouteTable_update_routing` -/
def MIPRouteTable.challenge (t : MIPRouteTable) (now : ℤ) (address : MIPAddress)
    (challenger : MIPRouteEntry) : MIPRouteTable :=
  if challenger.beats (t.get challenger.destination) then
    (t.update now challenger.destination address (challenger.cost + 1).toInt32).2
  else t

/-- the loop of `MIPRouteTable_update_routing` -/
def MIPRouteTable.updateLoop (address : MIPAddress) :
    Clock → List MIPRouteEntry → MIPRouteTable → MIPRouteTable
  | _, [], t => t
  | clock, challenger :: rest, t =>
    updateLoop address clock.tail rest (t.challenge (clock 0) address challenger)

def MIPRouteTable.updateRouting (t : MIPRouteTable) (clock : Clock) (neighbor : MIPRouteTable) :
    MIPRouteTable := updateLoop neighbor.tableAddress clock neighbor.entries t

/-- the three fields of an entry that are sent -/
def MIPRouteEntry.toPackage (e : MIPRouteEntry) : MIPRoutePackageEntry :=
  ⟨e.destination, e.nextHop, e.cost⟩

/-- `calloc` leaves the entries past the last one zero -/
def MIPRouteTable.createPackage (t : MIPRouteTable) : Option MIPRouteTablePackage :=
  if h : t.entries.length < MIP_TABLE_PACKAGE_ENTRIES_MAX_SIZE then
    some {
      tableAddress := 0
      numEntries := UInt8.ofNat t.entries.length
      entries := t.entries.map MIPRouteEntry.toPackage ++
        List.replicate (MIP_TABLE_PACKAGE_ENTRIES_MAX_SIZE - t.entries.length) ⟨0, 0, 0⟩
      size := by
        rw [List.length_append, List.length_map, List.length_replicate]
        omega }
  else none

/-- the entries made of a package, one clock reading each -/
def createEntries : Clock → List MIPRoutePackageEntry → List MIPRouteEntry
  | _, [] => []
  | clock, e :: rest =>
    MIPRouteEntry.create (clock 0) e.destination e.nextHop e.cost :: createEntries clock.tail rest

def MIPRouteTablePackage.createTable (p : MIPRouteTablePackage) (clock : Clock) :
    Option MIPRouteTable :=
  if p.numEntries.toNat < MIP_TABLE_PACKAGE_ENTRIES_MAX_SIZE then
    some { MIPRouteTable.create with
      tableAddress := p.tableAddress
      entries := createEntries clock p.used }
  else none

def MIPRouteEntry.toOld (e : MIPRouteEntry) (now entryMaxAgeMilli : ℤ) : Bool :=
  now - e.lastUpdatedMilli > entryMaxAgeMilli

/-- number of removed entries and the new list -/
def removeOldLoop (entryMaxAgeMilli : ℤ) : Clock → List MIPRouteEntry → ℤ × List MIPRouteEntry
  | _, [] => (0, [])
  | clock, e :: rest =>
    let (removed, kept) := removeOldLoop entryMaxAgeMilli clock.tail rest
    if e.toOld (clock 0) entryMaxAgeMilli && e.cost ≠ 0 then (removed + 1, kept)
    else (removed, e :: kept)

def MIPRouteTable.removeOldEntries (t : MIPRouteTable) (clock : Clock) : ℤ × MIPRouteTable :=
  let (removed, kept) := removeOldLoop t.entryMaxAgeMilli clock t.entries
  (removed, { t with entries := kept })

/-! ## one lemma for each function -/

theorem MIPRouteTable.remove_rc (t : MIPRouteTable) (d : MIPAddress) : (t.remove d).1 ≠ -1 := by
  unfold remove
  split
  · simp
  · split <;> simp

/-- removing a destination erases its first entry, if there is one -/
theorem MIPRouteTable.remove_entries (t : MIPRouteTable) (d : MIPAddress) :
    (t.remove d).2 = { t with entries := erase MIPRouteEntry.destination d t.entries } := by
  have hsame : (∀ e ∈ t.entries, e.destination ≠ d) →
      t = { t with entries := erase MIPRouteEntry.destination d t.entries } := by
    intro h
    have he : erase MIPRouteEntry.destination d t.entries = t.entries :=
      List.eraseP_of_forall_not (by simpa using h)
    rw [he]
  unfold remove
  split
  · rename_i h0
    exact hsame (by rw [List.length_eq_zero_iff.mp h0]; simp)
  · split
    · rfl
    · rename_i hany
      exact hsame (by simpa using hany)

theorem MIPRouteTable.update_entries (t : MIPRouteTable) (now : ℤ) (d h : MIPAddress) (c : Int32) :
    t.update now d h c =
      (1, { t with entries := put MIPRouteEntry.destination ⟨d, h, c.toUInt32, now⟩ t.entries }) := by
  have hrc := t.remove_rc d
  have he := t.remove_entries d
  unfold update
  generalize t.remove d = r at hrc he
  obtain ⟨rc, t'⟩ := r
  subst he
  simp only [hrc, ↓reduceIte]
  rfl

theorem MIPRouteEntry.beats_iff (ch : MIPRouteEntry) (champion : Option MIPRouteEntry) :
    ch.beats champion = true ↔
      ch.cost ≠ UINT_MAX ∧ ∀ e, champion = some e → ch.cost.toNat + 1 ≤ e.cost.toNat := by
  unfold beats
  rw [Bool.and_eq_true, and_comm, decide_eq_true_eq]
  refine and_congr_right fun hmax => ?_
  cases champion with
  | none => simp
  | some e =>
    simp only [decide_eq_true_eq, Option.some.injEq, forall_eq']
    rw [UInt32.le_iff_toNat_le, cost_succ hmax]

theorem MIPRouteTable.challenge_eq (t : MIPRouteTable) (now : ℤ) (v : MIPAddress)
    (ch : MIPRouteEntry) :
    t.challenge now v ch = if ch.beats (t.get ch.destination) then
      { t with
        entries := put MIPRouteEntry.destination ⟨ch.destination, v, ch.cost + 1, now⟩ t.entries }
      else t := by
  unfold challenge
  rw [update_entries]
  rfl

theorem MIPRouteTable.createPackage_eq_some {t : MIPRouteTable} {p : MIPRouteTablePackage}
    (h : t.createPackage = some p) :
    t.entries.length < 64 ∧ p.numEntries.toNat = t.entries.length ∧
      p.used = t.entries.map MIPRouteEntry.toPackage := by
  unfold createPackage at h
  split at h
  · rename_i hlt
    have hlt' : t.entries.length < 64 := hlt
    obtain rfl := Option.some.inj h
    have hn : (UInt8.ofNat t.entries.length).toNat = t.entries.length := by
      rw [UInt8.toNat_ofNat']
      exact Nat.mod_eq_of_lt (by omega)
    refine ⟨hlt', hn, ?_⟩
    simp only [MIPRouteTablePackage.used, hn]
    exact List.take_left' (List.length_map ..)
  · cases h

theorem MIPRouteTable.createPackage_isSome (t : MIPRouteTable) :
    t.createPackage.isSome ↔ t.entries.length < 64 := by
  unfold createPackage
  split <;> rename_i h
  · exact iff_of_true rfl h
  · exact iff_of_false (by simp) h

theorem createEntries_toPackage (clock : Clock) (l : List MIPRoutePackageEntry) :
    (createEntries clock l).map MIPRouteEntry.toPackage = l := by
  induction l generalizing clock with
  | nil => rfl
  | cons e l ih =>
    rw [createEntries, List.map_cons, ih]
    rfl

theorem MIPRouteTablePackage.createTable_eq_some {p : MIPRouteTablePackage} {clock : Clock}
    {t : MIPRouteTable} (h : p.createTable clock = some t) :
    p.numEntries.toNat < 64 ∧ t.tableAddress = p.tableAddress ∧
      t.entries.map MIPRouteEntry.toPackage = p.used := by
  unfold createTable at h
  split at h
  · rename_i hlt
    obtain rfl := Option.some.inj h
    exact ⟨hlt, rfl, createEntries_toPackage clock _⟩
  · cases h

theorem removeOldLoop_sublist (age : ℤ) (clock : Clock) (l : List MIPRouteEntry) :
    (removeOldLoop age clock l).2.Sublist l := by
  induction l generalizing clock with
  | nil => exact List.Sublist.refl _
  | cons e l ih =>
    simp only [removeOldLoop]
    split
    · exact (ih clock.tail).cons e
    · exact (ih clock.tail).cons_cons e

/-- local entries never expire -/
theorem mem_removeOldLoop_of_local (age : ℤ) (clock : Clock) (l : List MIPRouteEntry)
    {e : MIPRouteEntry} (he : e ∈ l) (h0 : e.cost = 0) : e ∈ (removeOldLoop age clock l).2 := by
  induction l generalizing clock with
  | nil => cases he
  | cons x l ih =>
    simp only [removeOldLoop]
    rcases List.mem_cons.mp he with rfl | hl
    · simp [h0]
    · split
      · exact ih clock.tail hl
      · exact List.mem_cons_of_mem _ (ih clock.tail hl)

end MipStack
