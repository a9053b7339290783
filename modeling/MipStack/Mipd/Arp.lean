import MipStack.Mipd.Packaging

/-!
# Interface table and MIP-ARP cache of mipd (`interface.c`, `mip_arp.c`)

* `interfaceForSocket`      the record at `get_interface_pos_for_socket`, which is 0 for an unknown
                            socket;
* `MipArpCache`             the entries in use of the array of 64;
* `.appendToCache`          insert or overwrite; `outOfBounds` when a 65th entry is written;
* `.queryMipAddressSrcSocket`, `.queryMipAddressPos`, `.queryCacheSocketMipAddress`   lookups;
* `.purge`                  the loop of `update_arp_cache`, which keeps the entries of a sublist.
-/

namespace MipStack

/-! ## interfaces -/

/-- `soName` is the `sll_addr` of the socket name; `rawSocket` is the descriptor that
`bind_table_to_raw_sockets` stores before the server is created -/
structure InterfaceRecord where
  interface : MacAddress
  soName : MacAddress
  mipAddress : MIPAddress
  rawSocket : ℕ
  deriving DecidableEq

abbrev InterfaceTable := List InterfaceRecord

def isSocketInTable (table : InterfaceTable) (fd : ℤ) : Bool := table.any fun i => i.rawSocket = fd

def getInterfacePosForSocket (table : InterfaceTable) (fd : ℤ) : ℕ :=
  (table.findIdx? fun i => i.rawSocket = fd).getD 0

def getInterfacePosForMipAddress (table : InterfaceTable) (address : MIPAddress) : Option ℕ :=
  table.findIdx? fun i => i.mipAddress = address

/-- the record used for a socket; an empty table has no record with a socket name -/
def interfaceForSocket (table : InterfaceTable) (fd : ℤ) : Option InterfaceRecord :=
  table[getInterfacePosForSocket table fd]?

/-- a socket of the table is found at a record with that socket -/
theorem interfaceForSocket_of_mem {table : InterfaceTable} {fd : ℤ}
    (h : isSocketInTable table fd = true) :
    ∃ i ∈ table, interfaceForSocket table fd = some i ∧ i.rawSocket = fd := by
  obtain ⟨j, hj, hfd⟩ : ∃ j ∈ table, j.rawSocket = fd := by simpa [isSocketInTable] using h
  cases hf : table.findIdx? fun i => decide (i.rawSocket = fd) with
  | none => exact absurd hfd (by simpa using List.findIdx?_eq_none_iff.mp hf j hj)
  | some n =>
    obtain ⟨hlt, hn, _⟩ := List.findIdx?_eq_some_iff_getElem.mp hf
    refine ⟨table[n], List.getElem_mem hlt, ?_, by simpa using hn⟩
    rw [interfaceForSocket, getInterfacePosForSocket, hf]
    exact List.getElem?_eq_getElem hlt

/-! ## the cache -/

/-- times are in milliseconds -/
structure MipArpCacheEntry where
  mipAddress : MIPAddress
  srcSocket : ℤ
  dstInterface : MacAddress
  lastUpdate : ℤ
  deriving DecidableEq

def ARP_CACHE_SIZE : ℕ := 64

/-- `updateFreq` and `lastArp` are `unsigned long` -/
structure MipArpCache where
  entries : List MipArpCacheEntry
  updateFreq : ℕ
  lastArp : ℕ
  deriving DecidableEq

namespace MipArpCache

def create (updateFreq : ℕ) : MipArpCache := ⟨[], updateFreq, 0⟩

def queryMipAddressSrcSocket (cache : MipArpCache) (mipAddress : MIPAddress) : ℤ :=
  match cache.entries.find? fun e => e.mipAddress = mipAddress with
  | some e => e.srcSocket
  | none => -1

def queryMipAddressPos (cache : MipArpCache) (mipAddress : MIPAddress) : Option ℕ :=
  cache.entries.findIdx? fun e => e.mipAddress = mipAddress

def queryCacheSocketMipAddress (cache : MipArpCache) (sock : ℤ) : MIPAddress :=
  match cache.entries.find? fun e => e.srcSocket = sock with
  | some e => if e.mipAddress < 255 then e.mipAddress else 255
  | none => 255

def appendToCache (cache : MipArpCache) (now srcSocket : ℤ) (mipAddress : MIPAddress)
    (interface : MacAddress) : Except Fault (ℤ × MipArpCache) :=
  if mipAddress = 255 then .ok (-1, cache)
  else
    let newEntry : MipArpCacheEntry := ⟨mipAddress, srcSocket, interface, now⟩
    match cache.queryMipAddressPos mipAddress with
    | some pos => .ok (pos, { cache with entries := cache.entries.set pos newEntry })
    | none =>
      if cache.entries.length < ARP_CACHE_SIZE then
        .ok (cache.entries.length + 1, { cache with entries := cache.entries ++ [newEntry] })
      else .error .outOfBounds

/-- an address that can be appended: 255 is refused, a known one keeps its entry -/
def RoomFor (cache : MipArpCache) (a : MIPAddress) : Prop :=
  a = 255 ∨ (cache.queryMipAddressPos a).isSome ∨ cache.entries.length < ARP_CACHE_SIZE

def removeFromCache (cache : MipArpCache) (pos : ℕ) : MipArpCache :=
  { cache with entries := cache.entries.eraseIdx pos }

/-- the comparison is made in `unsigned long` -/
def shouldCompleteNewArp (cache : MipArpCache) (now : ℤ) : Bool :=
  toUnsigned (now - cache.lastArp) > cache.updateFreq

/-- the argument `cache->update_freq * 2` of `is_cache_entry_expired` -/
def maxAge (cache : MipArpCache) : ℤ := toLong (2 * cache.updateFreq)

theorem maxAge_eq {cache : MipArpCache} (h : 2 * cache.updateFreq < 2 ^ 63) :
    cache.maxAge = 2 * cache.updateFreq := by
  rw [maxAge, toLong_of_lt h, Nat.cast_mul]
  rfl

end MipArpCache

def MipArpCacheEntry.isExpired (entry : MipArpCacheEntry) (now updateFreq : ℤ) : Bool :=
  now - entry.lastUpdate > updateFreq

/-- the loop of `update_arp_cache` from position `i` on, with the readings left after it; a removed
entry makes room for the next one, so the position stays -/
def MipArpCache.purge (clock : Clock) (i : ℕ) (cache : MipArpCache) : Clock × MipArpCache :=
  if h : i < cache.entries.length then
    if cache.entries[i].isExpired (clock 0) cache.maxAge then
      purge clock.tail i (cache.removeFromCache i)
    else purge clock.tail (i + 1) cache
  else (clock, cache)
termination_by cache.entries.length - i
decreasing_by
  · show (cache.entries.eraseIdx i).length - i < cache.entries.length - i
    rw [List.length_eraseIdx_of_lt h]
    omega
  · omega

namespace MipArpCache

theorem purge_sublist (clock : Clock) (i : ℕ) (cache : MipArpCache) :
    (purge clock i cache).2.entries.Sublist cache.entries := by
  induction clock, i, cache using purge.induct with
  | case1 clock i cache h hexp ih =>
    rw [purge, dif_pos h, if_pos hexp]
    exact ih.trans (List.eraseIdx_sublist ..)
  | case2 clock i cache h hexp ih =>
    rw [purge, dif_pos h, if_neg hexp]
    exact ih
  | case3 clock i cache h =>
    rw [purge, dif_neg h]

theorem queryMipAddressPos_isSome {cache : MipArpCache} {a : MIPAddress} :
    (cache.queryMipAddressPos a).isSome ↔ ∃ e ∈ cache.entries, e.mipAddress = a := by
  simp [queryMipAddressPos]

theorem getElem?_queryMipAddressPos {cache : MipArpCache} {a : MIPAddress} {pos : ℕ}
    (h : cache.queryMipAddressPos a = some pos) :
    ∃ e ∈ cache.entries, cache.entries[pos]? = some e ∧ e.mipAddress = a := by
  obtain ⟨hlt, hp, _⟩ := List.findIdx?_eq_some_iff_getElem.mp h
  exact ⟨cache.entries[pos], List.getElem_mem hlt, List.getElem?_eq_getElem hlt, by simpa using hp⟩

theorem queryMipAddressSrcSocket_of_none {cache : MipArpCache} {a : MIPAddress}
    (h : cache.queryMipAddressPos a = none) : cache.queryMipAddressSrcSocket a = -1 := by
  have hn : cache.entries.find? (fun e => decide (e.mipAddress = a)) = none := by
    simpa [queryMipAddressPos] using h
  rw [queryMipAddressSrcSocket, hn]

theorem queryMipAddressSrcSocket_of_some {cache : MipArpCache} {a : MIPAddress} {pos : ℕ}
    (h : cache.queryMipAddressPos a = some pos) :
    ∃ e ∈ cache.entries, e.mipAddress = a ∧ cache.queryMipAddressSrcSocket a = e.srcSocket := by
  obtain ⟨e, he, _, ha⟩ := getElem?_queryMipAddressPos h
  cases hf : cache.entries.find? (fun e => decide (e.mipAddress = a)) with
  | none => exact absurd ha (by simpa using List.find?_eq_none.mp hf e he)
  | some e' =>
    refine ⟨e', List.mem_of_find?_eq_some hf, by simpa using List.find?_some hf, ?_⟩
    rw [queryMipAddressSrcSocket, hf]

theorem mem_appendToCache {cache cache' : MipArpCache} {now sock rc : ℤ} {a : MIPAddress}
    {mac : MacAddress} (h : cache.appendToCache now sock a mac = .ok (rc, cache'))
    {e : MipArpCacheEntry} (he : e ∈ cache'.entries) :
    e ∈ cache.entries ∨ (a ≠ 255 ∧ e = ⟨a, sock, mac, now⟩) := by
  unfold appendToCache at h
  split at h
  · obtain ⟨rfl, rfl⟩ : -1 = rc ∧ cache = cache' := by simpa using h
    exact Or.inl he
  · rename_i ha
    split at h
    · rename_i pos _
      obtain ⟨_, rfl⟩ : (pos : ℤ) = rc ∧ _ = cache' := by simpa using h
      rcases List.mem_or_eq_of_mem_set he with hold | hnew
      · exact Or.inl hold
      · exact Or.inr ⟨ha, hnew⟩
    · split at h
      · obtain ⟨_, rfl⟩ : (cache.entries.length : ℤ) + 1 = rc ∧ _ = cache' := by simpa using h
        rcases List.mem_append.mp he with hold | hnew
        · exact Or.inl hold
        · exact Or.inr ⟨ha, by simpa using hnew⟩
      · cases h

/-- an append fails with -1 exactly for the broadcast address -/
theorem appendToCache_rc {cache cache' : MipArpCache} {now sock rc : ℤ} {a : MIPAddress}
    {mac : MacAddress} (h : cache.appendToCache now sock a mac = .ok (rc, cache')) :
    rc = -1 ↔ a = 255 := by
  unfold appendToCache at h
  split at h
  · rename_i ha
    obtain ⟨rfl, rfl⟩ : -1 = rc ∧ cache = cache' := by simpa using h
    exact iff_of_true rfl ha
  · rename_i ha
    refine iff_of_false (fun hrc => ?_) ha
    subst hrc
    split at h
    · simp at h
    · split at h
      · simp at h
        omega
      · cases h

end MipArpCache

end MipStack
