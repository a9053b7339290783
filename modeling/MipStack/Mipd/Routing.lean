import MipStack.Mipd.Arp
import MipStack.Routerd.RouteTable
import MipStack.Library.Bytes

/-!
# Route tables on their way through mipd (`router/routing.c`)

* `poisonReverse`      the routes through one neighbour are made infinite;
* `routePackage`       what `broadcast_route_table` sends on one interface;
* `used_poisonReverse`, `mem_poisonReverse`   the entries in use after it;
* `MIPRouteTablePackage.toBytes`, `.ofBytes`  the packed struct as bytes;
* `ofBytes_toBytes`    a package survives the padding of a MIP payload.
-/

namespace MipStack
open Library

/-! ## split horizon -/

def MIPRoutePackageEntry.poison (destination : MIPAddress) (e : MIPRoutePackageEntry) :
    MIPRoutePackageEntry := if e.nextHop = destination then { e with cost := UINT_MAX } else e

theorem length_poisoned (package : MIPRouteTablePackage) (destination : MIPAddress) :
    (package.used.map (MIPRoutePackageEntry.poison destination) ++
      package.entries.drop package.numEntries.toNat).length = MIP_TABLE_PACKAGE_ENTRIES_MAX_SIZE := by
  rw [List.length_append, List.length_map, MIPRouteTablePackage.used, List.length_take,
    List.length_drop, package.size]
  omega

def poisonReverse (package : MIPRouteTablePackage) (destination : MIPAddress) :
    MIPRouteTablePackage where
  tableAddress := package.tableAddress
  numEntries := package.numEntries
  entries := package.used.map (MIPRoutePackageEntry.poison destination) ++
    package.entries.drop package.numEntries.toNat
  size := length_poisoned package destination

/-- the address at the other end of the interface, its own address when the cache has none -/
def routeDestination (cache : MipArpCache) (i : InterfaceRecord) : MIPAddress :=
  let destination := cache.queryCacheSocketMipAddress i.rawSocket
  if destination = 255 then i.mipAddress else destination

def routePackage (cache : MipArpCache) (i : InterfaceRecord) (tablePackage : MIPRouteTablePackage) :
    MIPRouteTablePackage :=
  poisonReverse { tablePackage with tableAddress := i.mipAddress } (routeDestination cache i)

theorem used_poisonReverse (p : MIPRouteTablePackage) (a : MIPAddress) :
    (poisonReverse p a).used = p.used.map (MIPRoutePackageEntry.poison a) := by
  have hlen : p.used.length ≤ p.numEntries.toNat := by
    rw [MIPRouteTablePackage.used, List.length_take]
    omega
  show (p.used.map _ ++ p.entries.drop p.numEntries.toNat).take p.numEntries.toNat = _
  rcases Nat.lt_or_ge p.used.length p.numEntries.toNat with hlt | hge
  · have hdrop : p.entries.drop p.numEntries.toNat = [] := by
      rw [MIPRouteTablePackage.used, List.length_take] at hlt
      exact List.drop_eq_nil_of_le (by omega)
    rw [hdrop, List.append_nil]
    exact List.take_of_length_le (by rw [List.length_map]; exact hlen)
  · exact List.take_left' (by rw [List.length_map]; omega)

theorem mem_poisonReverse {p : MIPRouteTablePackage} {a : MIPAddress} {e : MIPRoutePackageEntry}
    (he : e ∈ (poisonReverse p a).used) (hmax : e.cost ≠ UINT_MAX) :
    e ∈ p.used ∧ e.nextHop ≠ a := by
  rw [used_poisonReverse] at he
  obtain ⟨e', he', rfl⟩ := List.mem_map.mp he
  by_cases h : e'.nextHop = a
  · exact absurd (by simp [MIPRoutePackageEntry.poison, h]) hmax
  · have hp : e'.poison a = e' := if_neg h
    rw [hp]
    exact ⟨he', h⟩

theorem mem_poisonReverse_of_ne {p : MIPRouteTablePackage} {a : MIPAddress}
    {e : MIPRoutePackageEntry} (he : e ∈ p.used) (h : e.nextHop ≠ a) :
    e ∈ (poisonReverse p a).used := by
  rw [used_poisonReverse]
  exact List.mem_map.mpr ⟨e, he, if_neg h⟩

/-! ## the packed struct -/

/-- `sizeof(MIPRouteTablePackage)`: two bytes and 64 entries of eight -/
def SIZEOF_MIPROUTETABLEPACKAGE : ℕ := 514

/-- two bytes of padding before the cost -/
def MIPRoutePackageEntry.toBytes (e : MIPRoutePackageEntry) : List UInt8 :=
  e.destination :: e.nextHop :: 0 :: 0 :: leBytes 4 e.cost.toNat

def MIPRouteTablePackage.toBytes (p : MIPRouteTablePackage) : List UInt8 :=
  p.tableAddress :: p.numEntries :: p.entries.flatMap MIPRoutePackageEntry.toBytes

def MIPRoutePackageEntry.ofBytes (bytes : List UInt8) : MIPRoutePackageEntry :=
  ⟨bytes.getD 0 0, bytes.getD 1 0, UInt32.ofNat (ofLe ((bytes.drop 4).take 4))⟩

def readEntries : ℕ → List UInt8 → List MIPRoutePackageEntry
  | 0, _ => []
  | n + 1, bytes => MIPRoutePackageEntry.ofBytes bytes :: readEntries n (bytes.drop 8)

theorem length_readEntries (n : ℕ) (bytes : List UInt8) : (readEntries n bytes).length = n := by
  induction n generalizing bytes with
  | zero => rfl
  | succ n ih => rw [readEntries, List.length_cons, ih]

def MIPRouteTablePackage.ofBytes (bytes : List UInt8) : MIPRouteTablePackage where
  tableAddress := bytes.getD 0 0
  numEntries := bytes.getD 1 0
  entries := readEntries MIP_TABLE_PACKAGE_ENTRIES_MAX_SIZE (bytes.drop 2)
  size := length_readEntries _ _

theorem MIPRoutePackageEntry.ofBytes_toBytes (e : MIPRoutePackageEntry) (rest : List UInt8) :
    MIPRoutePackageEntry.ofBytes (e.toBytes ++ rest) = e := by
  have htake : ((e.toBytes ++ rest).drop 4).take 4 = leBytes 4 e.cost.toNat :=
    List.take_left' (length_leBytes 4 _)
  have hlt : e.cost.toNat < 256 ^ 4 := e.cost.toNat_lt
  have hcost : UInt32.ofNat (ofLe (leBytes 4 e.cost.toNat)) = e.cost := by
    rw [ofLe_leBytes, Nat.mod_eq_of_lt hlt]
    exact UInt32.ofNat_toNat
  rw [MIPRoutePackageEntry.ofBytes, htake, hcost]
  rfl

theorem readEntries_flatMap (l : List MIPRoutePackageEntry) (rest : List UInt8) :
    readEntries l.length (l.flatMap MIPRoutePackageEntry.toBytes ++ rest) = l := by
  induction l with
  | nil => rfl
  | cons e l ih =>
    rw [List.length_cons, readEntries, List.flatMap_cons, List.append_assoc, e.ofBytes_toBytes]
    congr 1

/-- **A route package is read back from its bytes**, whatever follows them. -/
theorem MIPRouteTablePackage.ofBytes_toBytes (p : MIPRouteTablePackage) (rest : List UInt8) :
    MIPRouteTablePackage.ofBytes (p.toBytes ++ rest) = p := by
  have hentries : readEntries MIP_TABLE_PACKAGE_ENTRIES_MAX_SIZE
      (p.entries.flatMap MIPRoutePackageEntry.toBytes ++ rest) = p.entries := by
    rw [← p.size]
    exact readEntries_flatMap p.entries rest
  obtain ⟨address, n, entries, size⟩ := p
  simp only [MIPRouteTablePackage.ofBytes, MIPRouteTablePackage.mk.injEq]
  exact ⟨rfl, rfl, hentries⟩

theorem MIPRouteTablePackage.length_toBytes (p : MIPRouteTablePackage) :
    p.toBytes.length = SIZEOF_MIPROUTETABLEPACKAGE := by
  have h : ∀ l : List MIPRoutePackageEntry,
      (l.flatMap MIPRoutePackageEntry.toBytes).length = 8 * l.length := by
    intro l
    induction l with
    | nil => rfl
    | cons e l ih =>
      rw [List.flatMap_cons, List.length_append, ih, List.length_cons]
      show 8 + 8 * l.length = 8 * (l.length + 1)
      omega
  rw [MIPRouteTablePackage.toBytes, List.length_cons, List.length_cons, h, p.size]
  rfl

end MipStack
