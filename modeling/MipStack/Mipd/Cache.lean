import MipStack.Mipd.Server
import MipStack.Library.Keyed

/-!
# The MIP-ARP cache as a finite map

* `ArpMap`                 the map from addresses to records, with its two operations;
* `QueriesAgree`           the two queries of the cache find the record of the map;
* `CacheCall`              a call of `append_to_cache`, or of `update_arp_cache` at some time;
* `appendToCache_room`, `appendToCache_full`   an append assigns in place while there is room;
* `purge_entries`          a purge with one clock reading is a filter;
* `tested`                 the entries that the loop of a purge tests, one after the other;
* `purge_tested`           the loop reads the clock once for each of them, and keeps those that had not
                           expired at their reading;
* `arp_cache_refines_map`  **after any calls the cache is the map**, and a purge tests every entry.
-/

namespace MipStack
open Library

/-! ## the map -/

structure ArpRecord where
  srcSocket : ℤ
  dstInterface : MacAddress
  lastUpdate : ℤ
  deriving DecidableEq

abbrev ArpMap := MIPAddress → Option ArpRecord

def ArpMap.append (m : ArpMap) (a : MIPAddress) (r : ArpRecord) : ArpMap :=
  if a = 255 then m else Function.update m a (some r)

def ArpMap.purge (m : ArpMap) (updateFreq : ℕ) (now : ℤ) : ArpMap := fun a =>
  (m a).filter fun r => now - r.lastUpdate ≤ 2 * updateFreq

def MipArpCacheEntry.record (e : MipArpCacheEntry) : ArpRecord :=
  ⟨e.srcSocket, e.dstInterface, e.lastUpdate⟩

/-- what an address is looked up to -/
def MipArpCache.map (cache : MipArpCache) : ArpMap := fun a =>
  (lookup MipArpCacheEntry.mipAddress a cache.entries).map MipArpCacheEntry.record

def MipArpCache.UniqueAddress (cache : MipArpCache) : Prop :=
  Unique MipArpCacheEntry.mipAddress cache.entries

/-! ## calls -/

inductive CacheCall
  | append (srcSocket : ℤ) (mipAddress : MIPAddress) (interface : MacAddress) (now : ℤ)
  | purge (now : ℤ)

namespace CacheCall

/-- the address of an append -/
def address : CacheCall → Option MIPAddress
  | .append _ a _ _ => some a
  | .purge _ => none

/-- no append is made for the socket -1 -/
def Valid : CacheCall → Prop
  | .append sock _ _ _ => sock ≠ -1
  | .purge _ => True

end CacheCall

/-- what `update_arp_cache` does to the cache -/
def MipArpCache.updateArpCache (clock : Clock) (cache : MipArpCache) : MipArpCache :=
  let (clock, cache) := purge clock 0 cache
  if cache.shouldCompleteNewArp (clock 0) then { cache with lastArp := toUnsigned (clock 1) }
  else cache

def CacheCall.run (cache : MipArpCache) : CacheCall → Except Fault MipArpCache
  | .append sock a mac now => (cache.appendToCache now sock a mac).map Prod.snd
  | .purge now => .ok (cache.updateArpCache fun _ => now)

def CacheCall.apply (updateFreq : ℕ) (m : ArpMap) : CacheCall → ArpMap
  | .append sock a mac now => m.append a ⟨sock, mac, now⟩
  | .purge now => m.purge updateFreq now

theorem MIPDServer.cache_updateArpCache (env : Env) (s : MIPDServer) :
    (s.updateArpCache env).1.cache = s.cache.updateArpCache env.clock := by
  unfold MIPDServer.updateArpCache MipArpCache.updateArpCache
  dsimp only
  split <;> rfl

namespace MipArpCache

/-! ## one lemma for each operation -/

theorem appendToCache_broadcast (cache : MipArpCache) (now sock : ℤ) (mac : MacAddress) :
    cache.appendToCache now sock 255 mac = .ok (-1, cache) := if_pos rfl

/-- an address that is known, or for which there is room, is assigned in place -/
theorem appendToCache_room (cache : MipArpCache) (now sock : ℤ) {a : MIPAddress} (mac : MacAddress)
    (ha : a ≠ 255)
    (hroom : (cache.queryMipAddressPos a).isSome ∨ cache.entries.length < ARP_CACHE_SIZE) :
    (cache.appendToCache now sock a mac).map Prod.snd = .ok { cache with
      entries := assign MipArpCacheEntry.mipAddress ⟨a, sock, mac, now⟩ cache.entries } := by
  unfold appendToCache
  rw [if_neg ha]
  dsimp only
  cases hpos : cache.queryMipAddressPos a with
  | some pos =>
    have hset : assign MipArpCacheEntry.mipAddress ⟨a, sock, mac, now⟩ cache.entries
        = cache.entries.set pos ⟨a, sock, mac, now⟩ := assign_of_findIdx? hpos
    rw [hset]
    rfl
  | none =>
    have hadd : assign MipArpCacheEntry.mipAddress ⟨a, sock, mac, now⟩ cache.entries
        = cache.entries ++ [⟨a, sock, mac, now⟩] := assign_of_findIdx?_none hpos
    have hlt : cache.entries.length < ARP_CACHE_SIZE := by
      rw [hpos] at hroom
      exact hroom.resolve_left (by simp)
    dsimp only
    rw [if_pos hlt, hadd]
    rfl

theorem appendToCache_full (cache : MipArpCache) (now sock : ℤ) {a : MIPAddress} (mac : MacAddress)
    (ha : a ≠ 255) (hn : cache.queryMipAddressPos a = none)
    (hfull : ¬ cache.entries.length < ARP_CACHE_SIZE) :
    cache.appendToCache now sock a mac = .error .outOfBounds := by
  unfold appendToCache
  rw [if_neg ha, hn]
  dsimp only
  rw [if_neg hfull]

/-- the entries that the loop tests from position `i` on -/
def tested (clock : Clock) (i : ℕ) (cache : MipArpCache) : List MipArpCacheEntry :=
  if h : i < cache.entries.length then
    if cache.entries[i].isExpired (clock 0) cache.maxAge then
      cache.entries[i] :: tested clock.tail i (cache.removeFromCache i)
    else cache.entries[i] :: tested clock.tail (i + 1) cache
  else []
termination_by cache.entries.length - i
decreasing_by
  · show (cache.entries.eraseIdx i).length - i < cache.entries.length - i
    rw [List.length_eraseIdx_of_lt h]
    omega
  · omega

/-- **The loop tests every entry once**, in their order, also where removals shift them. -/
theorem tested_eq (clock : Clock) (i : ℕ) (cache : MipArpCache) :
    tested clock i cache = cache.entries.drop i := by
  induction clock, i, cache using tested.induct with
  | case1 clock i cache h hexp ih =>
    rw [tested, dif_pos h, if_pos hexp, ih, List.drop_eq_getElem_cons h]
    show cache.entries[i] :: (cache.entries.eraseIdx i).drop i = _
    rw [List.eraseIdx_eq_take_drop_succ, List.drop_left' (by rw [List.length_take]; omega)]
  | case2 clock i cache h hexp ih =>
    rw [tested, dif_pos h, if_neg hexp, ih, List.drop_eq_getElem_cons h]
  | case3 clock i cache h =>
    rw [tested, dif_neg h, List.drop_eq_nil_of_le (Nat.le_of_not_lt h)]

/-- the entries that have not expired, each at a reading of its own -/
def keptAt (age : ℤ) : Clock → List MipArpCacheEntry → List MipArpCacheEntry
  | _, [] => []
  | clock, e :: l =>
    if e.isExpired (clock 0) age then keptAt age clock.tail l else e :: keptAt age clock.tail l

/-- **A purge keeps what it tests**, unless it has expired, and reads the clock once for each test. -/
theorem purge_tested (clock : Clock) (i : ℕ) (cache : MipArpCache) :
    (purge clock i cache).2 = { cache with
      entries := cache.entries.take i ++ keptAt cache.maxAge clock (tested clock i cache) } ∧
    ∀ k, (purge clock i cache).1 k = clock (k + (tested clock i cache).length) := by
  induction clock, i, cache using purge.induct with
  | case1 clock i cache h hexp ih =>
    have htake : (cache.removeFromCache i).entries.take i = cache.entries.take i := by
      show (cache.entries.eraseIdx i).take i = _
      rw [List.eraseIdx_eq_take_drop_succ, List.take_left' (by rw [List.length_take]; omega)]
    rw [purge, dif_pos h, if_pos hexp, tested, dif_pos h, if_pos hexp, keptAt, if_pos hexp]
    refine ⟨?_, fun k => ?_⟩
    · rw [ih.1, htake]
      rfl
    · rw [ih.2, List.length_cons, ← Nat.add_assoc]
      rfl
  | case2 clock i cache h hexp ih =>
    rw [purge, dif_pos h, if_neg hexp, tested, dif_pos h, if_neg hexp, keptAt, if_neg hexp]
    refine ⟨?_, fun k => ?_⟩
    · rw [ih.1, List.take_succ_eq_append_getElem h, List.append_assoc]
      rfl
    · rw [ih.2, List.length_cons, ← Nat.add_assoc]
      rfl
  | case3 clock i cache h =>
    rw [purge, dif_neg h, tested, dif_neg h, keptAt, List.append_nil,
      List.take_of_length_le (Nat.le_of_not_lt h)]
    exact ⟨rfl, fun k => rfl⟩

theorem keptAt_of_const {age now : ℤ} {clock : Clock} (hc : ∀ k, clock k = now)
    (l : List MipArpCacheEntry) : keptAt age clock l = l.filter fun e => !e.isExpired now age := by
  induction l generalizing clock with
  | nil => rfl
  | cons e l ih =>
    have hrest : keptAt age clock.tail l = l.filter fun e => !e.isExpired now age :=
      ih fun k => hc (k + 1)
    rw [keptAt, hrest, hc 0]
    cases hexp : e.isExpired now age with
    | true => rw [if_pos rfl, List.filter_cons_of_neg (by rw [hexp]; decide)]
    | false => rw [if_neg (by decide), List.filter_cons_of_pos (by rw [hexp]; rfl)]

def kept (now : ℤ) (updateFreq : ℕ) (e : MipArpCacheEntry) : Bool :=
  now - e.lastUpdate ≤ 2 * updateFreq

theorem kept_eq (now : ℤ) {cache : MipArpCache} (hfreq : 2 * cache.updateFreq < 2 ^ 63)
    (e : MipArpCacheEntry) : kept now cache.updateFreq e = !e.isExpired now cache.maxAge := by
  rw [kept, maxAge_eq hfreq, MipArpCacheEntry.isExpired, ← decide_not]
  exact decide_eq_decide.mpr not_lt.symm

/-- **A purge with one clock reading is a filter.** -/
theorem purge_entries (now : ℤ) (clock : Clock) {cache : MipArpCache}
    (hfreq : 2 * cache.updateFreq < 2 ^ 63) (hc : ∀ k, clock k = now) :
    (purge clock 0 cache).2 = { cache with
      entries := cache.entries.filter (kept now cache.updateFreq) } := by
  rw [(purge_tested clock 0 cache).1, tested_eq, keptAt_of_const hc, List.take_zero, List.nil_append,
    List.drop_zero, List.filter_congr fun e _ => (kept_eq now hfreq e).symm]

theorem entries_updateArpCache (clock : Clock) (cache : MipArpCache) :
    (cache.updateArpCache clock).entries = (purge clock 0 cache).2.entries ∧
      (cache.updateArpCache clock).updateFreq = (purge clock 0 cache).2.updateFreq := by
  unfold updateArpCache
  dsimp only
  split <;> exact ⟨rfl, rfl⟩

/-- a purge only removes entries, whatever the clock reads -/
theorem updateArpCache_sublist (clock : Clock) (cache : MipArpCache) :
    (cache.updateArpCache clock).entries.Sublist cache.entries := by
  rw [(entries_updateArpCache clock cache).1]
  exact purge_sublist clock 0 cache

theorem updateArpCache_entries (now : ℤ) {cache : MipArpCache}
    (hfreq : 2 * cache.updateFreq < 2 ^ 63) : (cache.updateArpCache fun _ => now).entries
      = cache.entries.filter (kept now cache.updateFreq) := by
  rw [(entries_updateArpCache _ cache).1, purge_entries now _ hfreq fun _ => rfl]

theorem updateFreq_updateArpCache (clock : Clock) (cache : MipArpCache) :
    (cache.updateArpCache clock).updateFreq = cache.updateFreq := by
  rw [(entries_updateArpCache _ cache).2, (purge_tested clock 0 cache).1]

/-! ## the map after an operation -/

theorem map_assign (cache : MipArpCache) (e : MipArpCacheEntry) (he : e.mipAddress ≠ 255) :
    ({ cache with entries := assign MipArpCacheEntry.mipAddress e cache.entries } : MipArpCache).map
      = cache.map.append e.mipAddress e.record := by
  funext a
  show (lookup _ a (assign _ e cache.entries)).map _ = _
  rw [lookup_assign, ArpMap.append, if_neg he, Function.update_apply]
  split <;> rfl

theorem UniqueAddress.map_updateArpCache {cache : MipArpCache} (h : cache.UniqueAddress)
    (hfreq : 2 * cache.updateFreq < 2 ^ 63) (now : ℤ) :
    (cache.updateArpCache fun _ => now).map = cache.map.purge cache.updateFreq now := by
  funext a
  rw [MipArpCache.map, updateArpCache_entries now hfreq, h.lookup_filter, ArpMap.purge, MipArpCache.map]
  cases lookup MipArpCacheEntry.mipAddress a cache.entries with
  | none => rfl
  | some e =>
    show ((some e).filter (kept now cache.updateFreq)).map _ = (some e.record).filter _
    rw [Option.filter_some, Option.filter_some]
    show (if kept now cache.updateFreq e = true then _ else _ : Option _).map _
      = if kept now cache.updateFreq e = true then _ else _
    split <;> rfl

/-- the two queries find the record of the map -/
def QueriesAgree (cache : MipArpCache) (m : ArpMap) : Prop :=
  ∀ a, ((cache.queryMipAddressPos a).isSome ↔ (m a).isSome) ∧
    (cache.queryMipAddressSrcSocket a ≠ -1 ↔ (m a).isSome) ∧
    ∀ r, m a = some r → ∃ pos e, cache.queryMipAddressPos a = some pos ∧
      cache.entries[pos]? = some e ∧ e.mipAddress = a ∧ e.record = r ∧
      cache.queryMipAddressSrcSocket a = e.srcSocket

theorem UniqueAddress.queriesAgree {cache : MipArpCache} (h : cache.UniqueAddress)
    (hsock : ∀ e ∈ cache.entries, e.srcSocket ≠ -1) : cache.QueriesAgree cache.map := by
  intro a
  cases hpos : cache.queryMipAddressPos a with
  | none =>
    have hlookup : lookup MipArpCacheEntry.mipAddress a cache.entries = none := by
      refine lookup_eq_none_iff.mpr fun e he ha => ?_
      have hsome := queryMipAddressPos_isSome.mpr ⟨e, he, ha⟩
      rw [hpos] at hsome
      cases hsome
    have hmap : cache.map a = none := by
      rw [MipArpCache.map, hlookup]
      rfl
    refine ⟨by simp [hmap], by simp [hmap, queryMipAddressSrcSocket_of_none hpos], fun r hr => ?_⟩
    exact absurd (hmap.symm.trans hr) (by simp)
  | some pos =>
    obtain ⟨e, he, hget, ha⟩ := getElem?_queryMipAddressPos hpos
    have hlookup : lookup MipArpCacheEntry.mipAddress a cache.entries = some e :=
      h.lookup_eq_some_iff.mpr ⟨he, ha⟩
    have hmap : cache.map a = some e.record := by
      rw [MipArpCache.map, hlookup]
      rfl
    have hquery : cache.queryMipAddressSrcSocket a = e.srcSocket := by
      have hfind : (cache.entries.find? fun e => e.mipAddress = a) = some e := hlookup
      rw [queryMipAddressSrcSocket, hfind]
    refine ⟨by simp [hmap], by simp [hmap, hquery, hsock e he], fun r hr => ?_⟩
    exact ⟨pos, e, rfl, hget, ha, Option.some.inj (hmap.symm.trans hr), hquery⟩

/-! ## runs -/

/-- what the calls of a run keep: unique addresses out of `S`, and no socket -1 -/
structure Within (cache : MipArpCache) (S : Finset MIPAddress) : Prop where
  unique : cache.UniqueAddress
  address : ∀ e ∈ cache.entries, e.mipAddress ∈ S
  socket : ∀ e ∈ cache.entries, e.srcSocket ≠ -1

variable {cache : MipArpCache} {S : Finset MIPAddress}

/-- among 64 addresses there is room for one that is not in the cache -/
theorem Within.room (h : cache.Within S) (hS : S.card ≤ ARP_CACHE_SIZE) {a : MIPAddress}
    (ha : a ∈ S) :
    (cache.queryMipAddressPos a).isSome ∨ cache.entries.length < ARP_CACHE_SIZE := by
  by_cases hknown : (cache.queryMipAddressPos a).isSome
  · exact Or.inl hknown
  · refine Or.inr ?_
    have hsub : (cache.entries.map MipArpCacheEntry.mipAddress).toFinset ⊆ S.erase a := by
      intro b hb
      obtain ⟨e, he, rfl⟩ := List.mem_map.mp (List.mem_toFinset.mp hb)
      refine Finset.mem_erase.mpr ⟨fun hea => hknown ?_, h.address e he⟩
      exact queryMipAddressPos_isSome.mpr ⟨e, he, hea⟩
    have hcard := Finset.card_le_card hsub
    rw [List.toFinset_card_of_nodup h.unique, List.length_map, Finset.card_erase_of_mem ha] at hcard
    have hpos := Finset.card_pos.mpr ⟨a, ha⟩
    omega

/-- **One call** does to the cache what it does to the map. -/
theorem Within.run (h : cache.Within S) (hS : S.card ≤ ARP_CACHE_SIZE)
    (hfreq : 2 * cache.updateFreq < 2 ^ 63) {call : CacheCall} (hv : call.Valid)
    (ha : ∀ a, call.address = some a → a ∈ S) :
    ∃ cache', CacheCall.run cache call = .ok cache' ∧ cache'.Within S ∧
      cache'.map = call.apply cache.updateFreq cache.map ∧
      cache'.updateFreq = cache.updateFreq := by
  cases call with
  | purge now =>
    have hsub := cache.updateArpCache_sublist fun _ => now
    refine ⟨_, rfl, ⟨h.unique.sublist hsub, fun e he => h.address e (hsub.mem he), fun e he =>
      h.socket e (hsub.mem he)⟩, h.unique.map_updateArpCache hfreq now,
      updateFreq_updateArpCache _ cache⟩
  | append sock a mac now =>
    by_cases hb : a = 255
    · subst hb
      have hmap : cache.map.append 255 ⟨sock, mac, now⟩ = cache.map := if_pos rfl
      refine ⟨cache, ?_, h, hmap.symm, rfl⟩
      rw [CacheCall.run, appendToCache_broadcast]
      rfl
    · have hroom := h.room hS (ha a rfl)
      refine ⟨_, appendToCache_room cache now sock mac hb hroom, ⟨h.unique.assign _, ?_, ?_⟩,
        map_assign cache ⟨a, sock, mac, now⟩ hb, rfl⟩
      · intro e he
        rcases mem_assign he with rfl | hold
        · exact ha a rfl
        · exact h.address e hold
      · intro e he
        rcases mem_assign he with rfl | hold
        · exact hv
        · exact h.socket e hold

theorem Within.runs (h : cache.Within S) (hS : S.card ≤ ARP_CACHE_SIZE)
    (hfreq : 2 * cache.updateFreq < 2 ^ 63) {calls : List CacheCall} (hv : ∀ c ∈ calls, c.Valid)
    (ha : ∀ c ∈ calls, ∀ a, c.address = some a → a ∈ S) :
    ∃ cache', calls.foldlM CacheCall.run cache = .ok cache' ∧ cache'.Within S ∧
      cache'.map = calls.foldl (CacheCall.apply cache.updateFreq) cache.map ∧
      cache'.updateFreq = cache.updateFreq := by
  induction calls generalizing cache with
  | nil => exact ⟨cache, rfl, h, rfl, rfl⟩
  | cons call calls ih =>
    obtain ⟨hv1, hv2⟩ := List.forall_mem_cons.mp hv
    obtain ⟨ha1, ha2⟩ := List.forall_mem_cons.mp ha
    obtain ⟨c, hrun, hc, hmap, hsame⟩ := h.run hS hfreq hv1 ha1
    obtain ⟨c', hruns, hc', hmap', hsame'⟩ := ih hc (by rwa [hsame]) hv2 ha2
    refine ⟨c', ?_, hc', ?_, hsame'.trans hsame⟩
    · rw [List.foldlM_cons, hrun]
      exact hruns
    · rw [hmap', hmap, hsame]
      rfl

end MipArpCache

/-- **The cache is the finite map**, after any calls with at most 64 distinct addresses; 255 is
refused, a purge keeps in order what has not expired, and its loop tests every entry, with one
reading of the clock for each.  Twice the update frequency is a `long`. -/
theorem arp_cache_refines_map {updateFreq : ℕ} (hfreq : 2 * updateFreq < 2 ^ 63)
    (calls : List CacheCall) (hv : ∀ c ∈ calls, c.Valid)
    (hfew : (calls.filterMap CacheCall.address).toFinset.card ≤ ARP_CACHE_SIZE) :
    ∃ cache, calls.foldlM CacheCall.run (MipArpCache.create updateFreq) = .ok cache ∧
      cache.UniqueAddress ∧
      cache.map = calls.foldl (CacheCall.apply updateFreq) (fun _ => none) ∧
      cache.QueriesAgree (calls.foldl (CacheCall.apply updateFreq) fun _ => none) ∧
      (∀ now sock mac, cache.appendToCache now sock 255 mac = .ok (-1, cache)) ∧
      (∀ now, (cache.updateArpCache fun _ => now).entries =
        cache.entries.filter fun e => now - e.lastUpdate ≤ 2 * updateFreq) ∧
      ∀ clock, MipArpCache.tested clock 0 cache = cache.entries ∧
        ∀ k, (MipArpCache.purge clock 0 cache).1 k = clock (k + cache.entries.length) := by
  have hstart : (MipArpCache.create updateFreq).Within
      (calls.filterMap CacheCall.address).toFinset :=
    ⟨unique_nil, by simp [MipArpCache.create], by simp [MipArpCache.create]⟩
  have haddress : ∀ c ∈ calls, ∀ a, c.address = some a →
      a ∈ (calls.filterMap CacheCall.address).toFinset := fun c hc a ha =>
    List.mem_toFinset.mpr (List.mem_filterMap.mpr ⟨c, hc, ha⟩)
  obtain ⟨cache, hrun, hc, hmap, hsame⟩ := hstart.runs hfew hfreq hv haddress
  have hmap' : cache.map = calls.foldl (CacheCall.apply updateFreq) (fun _ => none) := hmap
  refine ⟨cache, hrun, hc.unique, hmap', hmap' ▸ hc.unique.queriesAgree hc.socket,
    cache.appendToCache_broadcast, fun now => ?_, fun clock => ?_⟩
  · rw [MipArpCache.updateArpCache_entries now (by rwa [hsame]), hsame]
    rfl
  · have hall := MipArpCache.tested_eq clock 0 cache
    rw [List.drop_zero] at hall
    refine ⟨hall, fun k => ?_⟩
    rw [(MipArpCache.purge_tested clock 0 cache).2, hall]

/-- two appends for one address and one for another, then a purge -/
theorem arp_cache_refines_map_purged :
    ∃ cache, [CacheCall.append 3 20 (fun _ => 1) 0, .append 4 30 (fun _ => 2) 15000,
        .append 3 20 (fun _ => 5) 16000, .purge 36000].foldlM CacheCall.run
        (MipArpCache.create 10000) = .ok cache ∧
      cache.UniqueAddress ∧ (cache.map 20).isSome ∧ cache.map 30 = none := by
  have hfreq : 2 * 10000 < 2 ^ 63 := by decide
  obtain ⟨cache, hrun, hunique, hmap, _⟩ := arp_cache_refines_map hfreq
    [CacheCall.append 3 20 (fun _ => 1) 0, .append 4 30 (fun _ => 2) 15000,
      .append 3 20 (fun _ => 5) 16000, .purge 36000]
    (by simp [CacheCall.Valid]) (by decide)
  exact ⟨cache, hrun, hunique, by rw [hmap]; decide, by rw [hmap]; decide⟩

end MipStack
