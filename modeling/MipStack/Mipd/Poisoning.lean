import MipStack.Mipd.Server

/-!
# Split horizon on every interface (`broadcast_route_table`)

* `MipArpCache.reachableThrough`   the addresses that the cache records for a socket;
* `routeDestination_eq`            the address poisoned on an interface: the first one recorded for
                                   its socket, or its own when there is none;
* `Poisoned i D p q`               `q` is `p` with the address of `i`, infinite where `D` holds of the
                                   next hop and as it was elsewhere;
* `poisoned_routePackage`          what is sent is the package poisoned for that one address;
* `broadcast_poisoned`             **every interface gets its own copy**, poisoned for that address;
* `broadcast_not_exact`            a second neighbour on the same socket is not poisoned.
-/

namespace MipStack
open Library

/-! ## the poisoned address -/

def MipArpCache.reachableThrough (cache : MipArpCache) (sock : ℤ) : List MIPAddress :=
  (cache.entries.filter fun e => e.srcSocket = sock).map MipArpCacheEntry.mipAddress

theorem MipArpCache.queryCacheSocketMipAddress_eq (cache : MipArpCache) (sock : ℤ) :
    cache.queryCacheSocketMipAddress sock = ((cache.reachableThrough sock).head?).getD 255 := by
  have hhead : (cache.reachableThrough sock).head?
      = (cache.entries.find? fun e => decide (e.srcSocket = sock)).map
        MipArpCacheEntry.mipAddress := by
    rw [reachableThrough, List.head?_map, List.head?_filter]
  rw [hhead, queryCacheSocketMipAddress]
  cases cache.entries.find? fun e => decide (e.srcSocket = sock) with
  | none => rfl
  | some e =>
    show (if e.mipAddress < 255 then e.mipAddress else 255) = e.mipAddress
    split
    · rfl
    · rename_i h
      have hle : 255 ≤ e.mipAddress.toNat := Nat.le_of_not_lt fun hlt => h (UInt8.lt_iff_toNat_lt.mpr hlt)
      have hlt := e.mipAddress.toNat_lt
      apply UInt8.toNat_inj.mp
      show 255 = e.mipAddress.toNat
      omega

/-- the first address recorded for the socket of `i`; its own address when there is none -/
def MipArpCache.linkAddress (cache : MipArpCache) (i : InterfaceRecord) : MIPAddress :=
  match (cache.reachableThrough i.rawSocket).head? with
  | some a => if a = 255 then i.mipAddress else a
  | none => i.mipAddress

theorem routeDestination_eq (cache : MipArpCache) (i : InterfaceRecord) :
    routeDestination cache i = cache.linkAddress i := by
  rw [routeDestination, MipArpCache.queryCacheSocketMipAddress_eq, MipArpCache.linkAddress]
  cases (cache.reachableThrough i.rawSocket).head? with
  | none => rfl
  | some a => rfl

theorem MipArpCache.linkAddress_of_head {cache : MipArpCache} {i : InterfaceRecord}
    {a : MIPAddress} (ha : a ≠ 255) (h : (cache.reachableThrough i.rawSocket).head? = some a) :
    cache.linkAddress i = a := by
  rw [linkAddress, h]
  exact if_neg ha

/-! ## one package -/

structure Poisoned (i : InterfaceRecord) (D : MIPAddress → Prop) (p q : MIPRouteTablePackage) :
    Prop where
  tableAddress : q.tableAddress = i.mipAddress
  numEntries : q.numEntries = p.numEntries
  infinite : ∀ {k e}, p.entries[k]? = some e → k < p.numEntries.toNat → D e.nextHop →
    q.entries[k]? = some { e with cost := UINT_MAX }
  kept : ∀ {k e}, p.entries[k]? = some e → ¬ (k < p.numEntries.toNat ∧ D e.nextHop) →
    q.entries[k]? = some e

variable {i : InterfaceRecord} {D : MIPAddress → Prop} {p q : MIPRouteTablePackage}

/-- infinite costs are the old ones and the poisoned ones -/
theorem Poisoned.cost_iff (h : Poisoned i D p q) {k : ℕ} {e e' : MIPRoutePackageEntry}
    (he : p.entries[k]? = some e) (he' : q.entries[k]? = some e') (hk : k < p.numEntries.toNat) :
    e'.cost = UINT_MAX ↔ e.cost = UINT_MAX ∨ D e.nextHop := by
  by_cases hD : D e.nextHop
  · rw [h.infinite he hk hD] at he'
    obtain rfl := Option.some.inj he'
    exact iff_of_true rfl (Or.inr hD)
  · rw [h.kept he fun hboth => hD hboth.2] at he'
    obtain rfl := Option.some.inj he'
    exact ⟨Or.inl, fun hor => hor.resolve_right hD⟩

theorem getElem?_poisonReverse (p : MIPRouteTablePackage) (a : MIPAddress) (k : ℕ) :
    (poisonReverse p a).entries[k]? =
      if k < p.numEntries.toNat then (p.entries[k]?).map (MIPRoutePackageEntry.poison a)
      else p.entries[k]? := by
  show (p.used.map _ ++ p.entries.drop p.numEntries.toNat)[k]? = _
  have hlen : (p.used.map (MIPRoutePackageEntry.poison a)).length
      = min p.numEntries.toNat p.entries.length := by
    rw [List.length_map, MIPRouteTablePackage.used, List.length_take]
  split
  · rename_i hk
    rcases Nat.lt_or_ge k p.entries.length with hlt | hge
    · rw [List.getElem?_append_left (by omega), List.getElem?_map, MIPRouteTablePackage.used,
        List.getElem?_take_of_lt hk]
    · rw [List.getElem?_append_right (by omega), List.getElem?_drop,
        List.getElem?_eq_none (by omega), List.getElem?_eq_none hge]
      rfl
  · rename_i hk
    rw [List.getElem?_append_right (by omega), List.getElem?_drop, hlen]
    rcases Nat.le_total p.numEntries.toNat p.entries.length with hle | hge
    · rw [Nat.min_eq_left hle]
      congr 1
      omega
    · rw [List.getElem?_eq_none (by omega), List.getElem?_eq_none (by omega)]

theorem poisoned_routePackage (cache : MipArpCache) (i : InterfaceRecord)
    (p : MIPRouteTablePackage) :
    Poisoned i (fun a => a = cache.linkAddress i) p (routePackage cache i p) where
  tableAddress := rfl
  numEntries := rfl
  infinite := by
    intro k e he hk hD
    rw [routePackage, routeDestination_eq, getElem?_poisonReverse, if_pos hk, he, Option.map_some,
      MIPRoutePackageEntry.poison, if_pos hD]
  kept := by
    intro k e he hnot
    rw [routePackage, routeDestination_eq, getElem?_poisonReverse]
    split
    · rename_i hk
      rw [he, Option.map_some, MIPRoutePackageEntry.poison, if_neg fun hD => hnot ⟨hk, hD⟩]
    · exact he

/-- the padding of a MIP payload adds two zeros -/
theorem payload_toBytes (p : MIPRouteTablePackage) : payload p.toBytes = p.toBytes ++ [0, 0] := by
  rw [payload, p.length_toBytes, takeD_eq_append 0 _ (by rw [p.length_toBytes]; decide),
    p.length_toBytes]
  rfl

/-! ## one broadcast -/

/-- on every interface a package goes out that is poisoned for the addresses in `D` -/
def BroadcastPoisoned (D : InterfaceRecord → MIPAddress → Prop) (env : Env) (s : MIPDServer)
    (p : MIPRouteTablePackage) : Prop :=
  ∃ frames : List Effect,
    s.broadcastRouteTable env p = .ok (s, frames) ∧ frames.length = s.iTable.length ∧
    ∀ (n : ℕ) (i : InterfaceRecord), s.iTable[n]? = some i → ∃ package q,
      frames[n]? = some (.sendRaw i.rawSocket package) ∧ package.message = q.toBytes ++ [0, 0] ∧
        Poisoned i (D i) p q

def routeFrame (env : Env) (i : InterfaceRecord) (pos : ℕ) (q : MIPRouteTablePackage) : MIPPackage :=
  ⟨createTransportEthernetFrame env.layout (.interface pos) .etherBroadcast,
    ⟨2, 15, 129, 255, i.mipAddress⟩, q.toBytes ++ [0, 0]⟩

theorem broadcastRouteTable_eq (env : Env) (s : MIPDServer) {p : MIPRouteTablePackage}
    (h : s.iTable = [] ∨ p.numEntries.toNat ≤ 64) :
    s.broadcastRouteTable env p = .ok (s, s.iTable.zipIdx.map fun x =>
      .sendRaw x.1.rawSocket (routeFrame env x.1 x.2 (routePackage s.cache x.1 p))) := by
  have hcreate : ∀ (i : InterfaceRecord) (pos : ℕ) (q : MIPRouteTablePackage),
      MIPPackage.createRaw env.layout i.mipAddress (.interface pos) 255 .etherBroadcast q.toBytes 2
        = some (routeFrame env i pos q) := by
    intro i pos q
    rw [MIPPackage.createRaw_eq_some _ _ _ _ _ (by decide) (by rw [q.length_toBytes]; decide),
      payload_toBytes, q.length_toBytes]
    rfl
  have hsize : s.iTable = [] ∨ p.numEntries.toNat ≤ MIP_TABLE_PACKAGE_ENTRIES_MAX_SIZE := h
  rw [MIPDServer.broadcastRouteTable, if_pos hsize]
  simp only [hcreate, Option.map_some]
  rw [← List.filterMap_eq_map']

/-- **What is sent on each interface.**  Its package has its address, and infinite costs for the
routes over one address: the first that the cache records for its socket, or its own.  Where the
cache records one neighbour for the socket, that is the neighbour and no other. -/
theorem broadcast_poisoned (env : Env) (s : MIPDServer) (p : MIPRouteTablePackage)
    (h : p.numEntries.toNat ≤ 64) :
    BroadcastPoisoned (fun i a => a = s.cache.linkAddress i) env s p ∧
      ∀ i ∈ s.iTable, ∀ a, a ≠ 255 → (s.cache.reachableThrough i.rawSocket).head? = some a →
        s.cache.linkAddress i ∈ s.cache.reachableThrough i.rawSocket ∧
          ((∀ b ∈ s.cache.reachableThrough i.rawSocket, b = a) →
            ∀ x, x = s.cache.linkAddress i ↔ x ∈ s.cache.reachableThrough i.rawSocket) := by
  refine ⟨⟨_, broadcastRouteTable_eq env s (Or.inr h), by simp, fun n i hi => ?_⟩,
    fun i _ a ha hhead => ?_⟩
  · refine ⟨routeFrame env i n (routePackage s.cache i p), routePackage s.cache i p, ?_, rfl,
      poisoned_routePackage s.cache i p⟩
    rw [List.getElem?_map, List.getElem?_zipIdx, hi, Nat.zero_add]
    rfl
  · have hmem : a ∈ s.cache.reachableThrough i.rawSocket := List.mem_of_head? hhead
    rw [MipArpCache.linkAddress_of_head ha hhead]
    refine ⟨hmem, fun hone x => ⟨fun hx => ?_, hone x⟩⟩
    rwa [hx]

/-- the address 10 on socket 3, where the neighbours 20 and 30 can be reached -/
def twoNeighbors : MIPDServer :=
  ⟨-1, 6, -1, oneInterface, ⟨[⟨20, 3, fun _ => 1, 0⟩, ⟨30, 3, fun _ => 2, 0⟩],
    CACHE_UPDATE_FREQ_MILLI, 0⟩, []⟩

def oneRoute (destination nextHop : MIPAddress) (cost : UInt32) : MIPRouteTablePackage :=
  ⟨0, 1, ⟨destination, nextHop, cost⟩ :: List.replicate 63 ⟨0, 0, 0⟩, rfl⟩

theorem broadcast_poisoned_twoNeighbors :
    BroadcastPoisoned (fun i a => a = twoNeighbors.cache.linkAddress i) quietEnv twoNeighbors
      (oneRoute 40 20 2) :=
  (broadcast_poisoned quietEnv twoNeighbors (oneRoute 40 20 2) (by decide)).1

/-- what is sent is determined by its bytes -/
theorem BroadcastPoisoned.routePackage {D : InterfaceRecord → MIPAddress → Prop} {env : Env}
    {s : MIPDServer} {p : MIPRouteTablePackage} (hb : BroadcastPoisoned D env s p)
    (h : p.numEntries.toNat ≤ 64) {n : ℕ} {i : InterfaceRecord} (hi : s.iTable[n]? = some i) :
    Poisoned i (D i) p (routePackage s.cache i p) := by
  obtain ⟨frames, hframes, _, hall⟩ := hb
  obtain ⟨package, q, hsent, hmessage, hq⟩ := hall n i hi
  rw [broadcastRouteTable_eq env s (Or.inr h)] at hframes
  obtain ⟨_, rfl⟩ := Prod.mk.inj (Except.ok.inj hframes)
  rw [List.getElem?_map, List.getElem?_zipIdx, hi] at hsent
  obtain ⟨_, rfl⟩ := Effect.sendRaw.inj (Option.some.inj hsent)
  have hbytes : (MipStack.routePackage s.cache i p).toBytes ++ [0, 0] = q.toBytes ++ [0, 0] := hmessage
  have hsame := congrArg MIPRouteTablePackage.ofBytes hbytes
  rw [MIPRouteTablePackage.ofBytes_toBytes, MIPRouteTablePackage.ofBytes_toBytes] at hsame
  rwa [hsame]

/-- **Where the poisoning is not that of the neighbours on the link.**  The route over a second
neighbour keeps its cost; without a neighbour, the entry for the own address is made infinite. -/
theorem broadcast_not_exact :
    ¬ BroadcastPoisoned
      (fun i a => a ∈ twoNeighbors.cache.reachableThrough i.rawSocket) quietEnv twoNeighbors
        (oneRoute 40 30 2) ∧
    ¬ BroadcastPoisoned
      (fun i a => a ∈ (MIPDServer.create oneInterface).cache.reachableThrough i.rawSocket) quietEnv
        (MIPDServer.create oneInterface) (oneRoute 10 10 0) := by
  constructor
  · intro hb
    have hp := hb.routePackage (by decide) (n := 0) rfl
    have hcost := hp.infinite (k := 0) rfl (by decide) (by decide)
    revert hcost
    decide
  · intro hb
    have hp := hb.routePackage (by decide) (n := 0) rfl
    have hcost := hp.kept (k := 0) rfl (by decide)
    revert hcost
    decide

end MipStack
