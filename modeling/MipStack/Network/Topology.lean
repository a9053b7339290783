import MipStack.Library.Reach
import MipStack.Library.Hops
import MipStack.Mipd.Routing
import MipStack.Routerd.Update

/-!
# Networks of routerds

* `Network`            nodes with their addresses and interfaces, and the links between interfaces;
* `AddressedNetwork`   every address has one owner, none is 255, interfaces carry own addresses;
* `PointToPoint`       a link has two ends, and an interface address belongs to one interface;
* `RouteTo N d n x`    a walk of exactly `n` links from `x` to an owner of `d`, `N.Distance d n x`
                       the shortest one;
* `Resolves`           the cache of a mipd names the address at the other end of each link;
* `RouterTable.receive`   a routerd decodes a package and runs `MIPRouteTable_update_routing` on it.
-/

namespace MipStack
open Library

/-! ## networks -/

/-- `link x i y j`: interface `i` of node `x` is connected to interface `j` of node `y` -/
structure Network (Node : Type) where
  addresses : Node → List MIPAddress
  interfaces : Node → InterfaceTable
  link : Node → InterfaceRecord → Node → InterfaceRecord → Prop
  link_mem : ∀ {x i y j}, link x i y j → i ∈ interfaces x
  link_symm : ∀ {x i y j}, link x i y j → link y j x i

structure AddressedNetwork (Node : Type) extends Network Node where
  owner_unique : ∀ {a x y}, a ∈ addresses x → a ∈ addresses y → x = y
  unicast : ∀ {a x}, a ∈ addresses x → a ≠ MIP_BROADCAST_ADDRESS
  interface_owned : ∀ {x i}, i ∈ interfaces x → i.mipAddress ∈ addresses x

structure PointToPoint (Node : Type) extends AddressedNetwork Node where
  one_end : ∀ {x i y j y' j'}, link x i y j → link x i y' j' → y = y' ∧ j = j'
  no_loop : ∀ {x i}, ¬ link x i x i
  interface_unique : ∀ {x i i'}, i ∈ interfaces x → i' ∈ interfaces x →
    i.mipAddress = i'.mipAddress → i = i'

namespace Network
variable {Node : Type} (N : Network Node)

theorem link_mem' {x y : Node} {i j : InterfaceRecord} (h : N.link x i y j) :
    j ∈ N.interfaces y := N.link_mem (N.link_symm h)

def Adjacent (x y : Node) : Prop := ∃ i j, N.link x i y j

def RouteTo (d : MIPAddress) (n : ℕ) (x : Node) : Prop :=
  HopsTo N.Adjacent (fun z => d ∈ N.addresses z) n x

def Distance (d : MIPAddress) (n : ℕ) (x : Node) : Prop :=
  HopDist N.Adjacent (fun z => d ∈ N.addresses z) n x

/-- a cache that names the address at the other end of every link of `x` -/
def Resolves (x : Node) (cache : MipArpCache) : Prop :=
  ∀ i y j, N.link x i y j → cache.queryCacheSocketMipAddress i.rawSocket = j.mipAddress

theorem RouteTo.link {N : Network Node} {x y : Node} {i j : InterfaceRecord} {d : MIPAddress}
    {n : ℕ} (hl : N.link x i y j) (h : N.RouteTo d n y) : N.RouteTo d (n + 1) x :=
  hopsTo_succ.mpr ⟨y, ⟨i, j, hl⟩, h⟩

/-- **How an entry of node `x` is justified**: a local entry is for an own address; a learned one
goes over a link to the interface that is its next hop, and on from there in one hop less. -/
def Justified (x : Node) (e : MIPRouteEntry) : Prop :=
  (e.cost.toNat = 0 ∧ e.nextHop = e.destination ∧ e.destination ∈ N.addresses x) ∨
  ∃ n i y j, e.cost.toNat = n + 1 ∧ N.link x i y j ∧ j.mipAddress = e.nextHop ∧
    N.RouteTo e.destination n y

theorem Justified.routeTo {N : Network Node} {x : Node} {e : MIPRouteEntry}
    (h : N.Justified x e) : N.RouteTo e.destination e.cost.toNat x := by
  rcases h with ⟨hc, _, hd⟩ | ⟨n, i, y, j, hc, hl, _, hr⟩
  · rw [hc]
    exact hopsTo_zero.mpr hd
  · rw [hc]
    exact hr.link hl

theorem justified_of_received {x y : Node} {i j : InterfaceRecord}
    {e : MIPRouteEntry} {ch : MIPRoutePackageEntry} (hl : N.link x i y j)
    (hr : N.RouteTo ch.destination ch.cost.toNat x) (hd : e.destination = ch.destination)
    (hn : e.nextHop = i.mipAddress) (hc : e.cost.toNat = ch.cost.toNat + 1) : N.Justified y e :=
  Or.inr ⟨ch.cost.toNat, j, x, i, hc, N.link_symm hl, hn.symm, hd ▸ hr⟩

theorem justified_create {x : Node} {clock : Clock} {e : MIPRouteEntry}
    (he : e ∈ (RouterTable.create clock (N.addresses x)).entries) : N.Justified x e := by
  obtain ⟨⟨hc, hn⟩, hd⟩ := RouterTable.mem_create he
  exact Or.inl ⟨by rw [hc]; rfl, hn, hd⟩

end Network

/-- with a resolving cache the route package is poisoned against the far end of the link -/
theorem routeDestination_of_resolves {Node : Type} {N : AddressedNetwork Node} {x y : Node}
    {i j : InterfaceRecord} {cache : MipArpCache} (hc : N.Resolves x cache)
    (hl : N.link x i y j) : routeDestination cache i = j.mipAddress := by
  rw [routeDestination, hc i y j hl]
  exact if_neg (N.unicast (N.interface_owned (N.link_mem' hl)))

/-! ## receiving a package -/

namespace RouterTable

/-- `handle_route_request` and `MIPRouteTable_update_routing`, with their clock readings; `none`
when the package cannot be decoded -/
def receive (t : RouterTable) (package : MIPRouteTablePackage) (decoded now : Clock) :
    Option RouterTable :=
  (package.createTable decoded).map fun neighbor => t.updateRouting now neighbor

variable {t t' : RouterTable} {p : MIPRouteTablePackage} {decoded now : Clock}

theorem receive_eq_some (h : t.receive p decoded now = some t') :
    ∃ neighbor : MIPRouteTable, neighbor.tableAddress = p.tableAddress ∧
      neighbor.entries.map MIPRouteEntry.toPackage = p.used ∧ t' = t.updateRouting now neighbor := by
  obtain ⟨neighbor, hn, rfl⟩ := Option.map_eq_some_iff.mp h
  obtain ⟨_, ha, he⟩ := MIPRouteTablePackage.createTable_eq_some hn
  exact ⟨neighbor, ha, he, rfl⟩

theorem receive_isSome (t : RouterTable) (decoded now : Clock)
    (h : p.numEntries.toNat < MIP_TABLE_PACKAGE_ENTRIES_MAX_SIZE) :
    (t.receive p decoded now).isSome := by
  rw [receive, Option.isSome_map, MIPRouteTablePackage.createTable, if_pos h]
  rfl

theorem mem_receive (h : t.receive p decoded now = some t') {e : MIPRouteEntry}
    (he : e ∈ t'.entries) :
    e ∈ t.entries ∨ ∃ ch ∈ p.used, ch.cost ≠ UINT_MAX ∧ e.destination = ch.destination ∧
      e.nextHop = p.tableAddress ∧ e.cost.toNat = ch.cost.toNat + 1 := by
  obtain ⟨neighbor, ha, hu, rfl⟩ := receive_eq_some h
  rcases t.uniqueDest.mem_updateRouting he with hold | ⟨ch, hch, hmax, hd, hn, hc⟩
  · exact Or.inl hold
  · refine Or.inr ⟨ch.toPackage, ?_, hmax, hd, by rw [hn, ha], hc⟩
    rw [← hu]
    exact List.mem_map_of_mem hch

theorem within_receive (h : t.receive p decoded now = some t') {d : MIPAddress} {n : ℕ}
    (hw : t.Within d n) : t'.Within d n := by
  obtain ⟨neighbor, _, _, rfl⟩ := receive_eq_some h
  exact t.uniqueDest.within_updateRouting hw

theorem within_of_received (h : t.receive p decoded now = some t') {ch : MIPRoutePackageEntry}
    (hch : ch ∈ p.used) (hmax : ch.cost ≠ UINT_MAX) :
    t'.Within ch.destination (ch.cost.toNat + 1) := by
  obtain ⟨neighbor, _, hu, rfl⟩ := receive_eq_some h
  rw [← hu] at hch
  obtain ⟨e, he, rfl⟩ := List.mem_map.mp hch
  exact t.uniqueDest.within_of_advertised he hmax

theorem receive_eq_self (h : t.receive p decoded now = some t')
    (hle : ∀ ch ∈ p.used, ch.cost ≠ UINT_MAX → t.Within ch.destination ch.cost.toNat) : t' = t := by
  obtain ⟨neighbor, _, hu, rfl⟩ := receive_eq_some h
  have heq : t.toMIPRouteTable.updateRouting now neighbor = t.toMIPRouteTable :=
    t.uniqueDest.updateRouting_eq_self
      fun ch hch hmax => hle ch.toPackage (hu ▸ List.mem_map_of_mem hch) hmax
  obtain ⟨table, unique⟩ := t
  simp only [RouterTable.updateRouting, RouterTable.mk.injEq]
  exact heq

theorem mem_of_createPackage (h : t.createPackage = some p) {ch : MIPRoutePackageEntry}
    (hch : ch ∈ p.used) : ∃ e ∈ t.entries, e.toPackage = ch := by
  rw [(MIPRouteTable.createPackage_eq_some h).2.2] at hch
  obtain ⟨e, he, rfl⟩ := List.mem_map.mp hch
  exact ⟨e, he, rfl⟩

theorem mem_createPackage (h : t.createPackage = some p) {e : MIPRouteEntry}
    (he : e ∈ t.entries) : e.toPackage ∈ p.used := by
  rw [(MIPRouteTable.createPackage_eq_some h).2.2]
  exact List.mem_map_of_mem he

theorem eq_of_dest {e e' : MIPRouteEntry} (he : e ∈ t.entries) (he' : e' ∈ t.entries)
    (hd : e.destination = e'.destination) : e = e' := t.uniqueDest.eq_of_dest he he' hd

end RouterTable

/-! ## two nodes and one link -/

def pairInterface (x : Bool) : InterfaceRecord := ⟨fun _ => 0, fun _ => 0, if x then 20 else 10, 3⟩

/-- node `false` owns address 10, node `true` address 20 -/
def pair : PointToPoint Bool where
  addresses x := [if x then 20 else 10]
  interfaces x := [pairInterface x]
  link x i y j := x ≠ y ∧ i = pairInterface x ∧ j = pairInterface y
  link_mem h := List.mem_singleton.mpr h.2.1
  link_symm h := ⟨h.1.symm, h.2.2, h.2.1⟩
  owner_unique {a x y} := by cases x <;> cases y <;> simp <;> intro h <;> simp [h]
  unicast {a x} h := by cases x <;> simp at h <;> subst h <;> decide
  interface_owned {x i} h := by
    rw [List.mem_singleton] at h ⊢
    rw [h]
    rfl
  one_end {x i y j y' j'} h h' := by
    obtain ⟨hxy, _, rfl⟩ := h
    obtain ⟨hxy', _, rfl⟩ := h'
    obtain rfl : y = y' := by cases x <;> cases y <;> cases y' <;> simp_all
    exact ⟨rfl, rfl⟩
  no_loop h := h.1 rfl
  interface_unique h h' _ := (List.mem_singleton.mp h).trans (List.mem_singleton.mp h').symm

end MipStack
