import MipStack.Network.AtMostOnce

/-!
# Forwarding is at most once and bounded by the TTL

* `ForwardedOnce`      what an application may expect of a message, whatever the routes;
* `parsed_message`     the message that mipd makes of the beginning of a stream;
* `forwarded_once_of_payload`   all else holds of every message;
* `forwarded_once_iff` **a message that has been sent meets this if and only if the part of it that
                       `recv` has not returned is zero**;
* `truncated_payload`  the limit of 1496 bytes is three bytes short: `recv` is called with the limit
                       of the data, the largest message has three bytes more.
-/

namespace MipStack
open Library

/-- **At most one copy, sixteen links and one delivery**; every frame has the destination and the
padded data of the message, the address of the interface that was first, and a TTL that says how
many nodes have forwarded it. -/
structure ForwardedOnce {Node : Type} (N : Network Node) (t : Traffic Node) (id : ℕ)
    (m : MIPDMessage) : Prop where
  one_copy : t.copies id ≤ 1
  links : (t.log id).length ≤ 16
  one_delivery : t.deliveries id ≤ 1
  dstAddr : ∀ f ∈ t.log id, f.package.mHeader.dstAddr = m.mipAddress
  payload : ∀ f ∈ t.log id, f.package.wire.message = payload m.data
  srcAddr : ∀ first, (t.log id).head? = some first →
    ∀ f ∈ t.log id, N.AddressOn first.sender first.sock f.package.mHeader.srcAddr
  ttl : ∀ k f, (t.log id)[k]? = some f → f.package.mHeader.ttl.toNat = 15 - k

theorem parsed_message {Node : Type} {t : Traffic Node} {id : ℕ} {bytes rest : List UInt8}
    {m m' : MIPDMessage} (hb : t.reads[id]? = some bytes) (hm : bytes <+: m.serialize ++ rest)
    (h : t.parsed id = some m') :
    m'.mipAddress = m.mipAddress ∧
      m'.data = (m.data.take (bytes.length - 3)).takeD m.data.length 0 := by
  have hparsed : (if SIZEOF_MIPDMESSAGE ≤ bytes.length then MIPDMessage.deserialize bytes else none)
      = some m' := by
    rw [← h, Traffic.parsed, hb]
    rfl
  split at hparsed
  · rename_i hlen
    have h16 : SIZEOF_MIPDMESSAGE = 16 := rfl
    obtain ⟨m'', hm'', ha, hd⟩ := MIPDMessage.deserialize_of_prefix m hm (by omega)
    obtain rfl := Option.some.inj (hm''.symm.trans hparsed)
    exact ⟨ha, hd⟩
  · cases hparsed

theorem payload_cut_eq_iff (data : List UInt8) (k : ℕ) :
    payload ((data.take k).takeD data.length 0) = payload data ↔ ∀ b ∈ data.drop k, b = 0 := by
  rw [payload_inj (List.takeD_length ..), take_takeD_eq_iff]

section
variable {Node : Type} [DecidableEq Node] {N : UnicastNetwork Node} {s : MipNet Node} {id : ℕ}
  {bytes rest : List UInt8} {m : MIPDMessage}

/-- the frames sent for `m` carry the message that mipd has found -/
theorem sent_journey (hr : s.Reachable N) (hb : s.traffic.reads[id]? = some bytes)
    (hm : bytes <+: m.serialize ++ rest) (hlog : s.traffic.log id ≠ []) :
    ∃ m', m'.mipAddress = m.mipAddress ∧
      m'.data = (m.data.take (bytes.length - 3)).takeD m.data.length 0 ∧
      Journey N.toNetwork m' (s.traffic.log id) := by
  obtain ⟨m', hparsed, hj⟩ := (reachable_sound hr).traffic.logs id hlog
  obtain ⟨ha, hd⟩ := parsed_message hb hm hparsed
  exact ⟨m', ha, hd, hj⟩

/-- **Only the payload can go wrong.** -/
theorem forwarded_once_of_payload (hr : s.Reachable N) (hb : s.traffic.reads[id]? = some bytes)
    (hm : bytes <+: m.serialize ++ rest)
    (hpayload : ∀ f ∈ s.traffic.log id, f.package.wire.message = payload m.data) :
    ForwardedOnce N.toNetwork s.traffic id m := by
  have honce := (reachable_sound hr).traffic.once id
  have hsum : s.traffic.present id = s.traffic.copies id + s.traffic.deliveries id := rfl
  by_cases hlog : s.traffic.log id = []
  · refine ⟨by omega, by simp [hlog], by omega, ?_, hpayload, ?_, ?_⟩ <;> simp [hlog]
  · obtain ⟨m', ha, _, hj⟩ := sent_journey hr hb hm hlog
    refine ⟨by omega, hj.length_le, by omega, ?_, hpayload, hj.srcAddr, ?_⟩
    · intro f hf
      rw [(hj.carries f hf).dstAddr, ha]
    · intro k f hf
      have := hj.ttl k f hf
      omega

/-- **At most once, whatever the routes.**  For every message that an application hands to its mipd,
in every reachable state of every network: if `recv` has returned `bytes` from its beginning on, then
all promises are kept if and only if no frame has been sent for it or only zeros are missing. -/
theorem forwarded_once_iff (hr : s.Reachable N) (hb : s.traffic.reads[id]? = some bytes)
    (hm : bytes <+: m.serialize ++ rest) :
    ForwardedOnce N.toNetwork s.traffic id m ↔
      s.traffic.log id = [] ∨ ∀ b ∈ m.data.drop (bytes.length - 3), b = 0 := by
  by_cases hlog : s.traffic.log id = []
  · refine iff_of_true (forwarded_once_of_payload hr hb hm ?_) (Or.inl hlog)
    intro f hf
    rw [hlog] at hf
    exact absurd hf List.not_mem_nil
  · obtain ⟨m', _, hd, hj⟩ := sent_journey hr hb hm hlog
    rw [or_iff_right hlog, ← payload_cut_eq_iff, ← hd]
    constructor
    · intro h
      obtain ⟨f, hf⟩ := List.exists_mem_of_ne_nil _ hlog
      rw [← h.payload f hf, (hj.carries f hf).payload]
    · intro hpayload
      refine forwarded_once_of_payload hr hb hm ?_
      intro f hf
      rw [(hj.carries f hf).payload, hpayload]

end

/-! ## a message to a neighbour -/

/-- node `false` of `pair` with an application, node `true` in the cache -/
def neighborServer : MIPDServer :=
  ⟨5, -1, -1, oneInterface, ⟨[⟨20, 3, fun _ => 0, 0⟩], 10000, 0⟩, []⟩

theorem socketsKnown_neighborServer : neighborServer.SocketsKnown := by
  intro e he
  rw [List.mem_singleton.mp he]
  rfl

theorem neighborServer_read {m m' : MIPDMessage} (hlen : 13 ≤ m.data.length)
    (hm' : MIPDMessage.deserialize (m.serialize.take MAX_MIPMESSAGE_DATA_SIZE) = some m')
    (ha : m'.mipAddress = 20) :
    ∃ p, Carries m' p ∧ neighborServer.handleEvent quietEnv (.appData m.serialize)
      = .ok (neighborServer, [.sendRaw 3 p]) := by
  have hbytes : (m.serialize.take MAX_MIPMESSAGE_DATA_SIZE).length = min 1496 (3 + m.data.length) := by
    rw [List.length_take, MIPDMessage.length_serialize]
    rfl
  have h16 : SIZEOF_MIPDMESSAGE = 16 := rfl
  have hsock : neighborServer.cache.queryMipAddressSrcSocket m'.mipAddress = 3 := by
    rw [ha]
    rfl
  have happ : neighborServer.appSocket ≠ -1 := by decide
  rw [MIPDServer.handleEvent, if_neg happ, MIPDServer.handleApplicationData, if_neg (by omega), if_neg (by omega), hm']
  rcases socketsKnown_neighborServer.handleDomainSocketRequest m' with ⟨hnone, _⟩ | ⟨i, e, _, _, _, h⟩
  · rw [ha] at hnone
    cases hnone
  · rw [hsock] at h
    dsimp only
    rw [h]
    exact ⟨_, carries_transport _ _ m', rfl⟩

/-- **A run of `pair`**: node `false` starts, an application connects, a MIP-ARP response arrives,
and a message to the neighbour is read and sent. -/
theorem exists_sent {m m' : MIPDMessage} (hlen : 13 ≤ m.data.length)
    (hm' : MIPDMessage.deserialize (m.serialize.take MAX_MIPMESSAGE_DATA_SIZE) = some m')
    (ha : m'.mipAddress = 20) :
    ∃ s : MipNet Bool, s.Reachable pair.toUnicastNetwork ∧
      s.traffic.reads[0]? = some (m.serialize.take MAX_MIPMESSAGE_DATA_SIZE) ∧
      ∃ f, s.traffic.log 0 = [f] ∧ Carries m' f.package := by
  obtain ⟨s1, h1, hx1, ht1⟩ : ∃ s : MipNet Bool, s.Reachable pair.toUnicastNetwork ∧
      s.servers false = some (MIPDServer.start oneInterface 0) ∧ s.traffic = MipNet.start.traffic := by
    have hboot : NetStep pair.toNetwork MipNet.start
        ⟨Function.update (fun _ => none) false (some (MIPDServer.start oneInterface 0)),
          MipNet.start.traffic⟩ := NetStep.boot rfl
    exact ⟨_, Reach.next (Reach.start rfl) hboot, rfl, rfl⟩
  have hlocal1 : (Event.appConnect 5).IsLocal (MIPDServer.start oneInterface 0) := trivial
  have hconnect : (MIPDServer.start oneInterface 0).handleEvent quietEnv (.appConnect 5)
      = .ok ({ MIPDServer.start oneInterface 0 with appSocket := (5 : ℕ) }, []) := rfl
  obtain ⟨s2, h2, hx2, ht2⟩ := exists_internal h1 hx1 hlocal1 hconnect
  have hlocal2 : (Event.rawFrame 3 (frameOf (arpResponse 20))).IsLocal
      { MIPDServer.start oneInterface 0 with appSocket := (5 : ℕ) } := by
    rw [Event.IsLocal, frameOf, receivedHeader_sendto]
    decide
  have harp : MIPDServer.handleEvent quietEnv
      { MIPDServer.start oneInterface 0 with appSocket := (5 : ℕ) }
      (.rawFrame 3 (frameOf (arpResponse 20))) = .ok (neighborServer, []) := by
    rw [MIPDServer.handleEvent_of_receive rfl (receivePackage_frameOf _ rfl)]
    rfl
  obtain ⟨s3, h3, hx3, ht3⟩ := exists_internal h2 hx2 hlocal2 harp
  obtain ⟨p, hc, hread⟩ := neighborServer_read hlen hm' ha
  have h4 := Reach.next h3 (NetStep.read hx3 (by decide) hread)
  have hempty : s3.traffic = MipNet.start.traffic := ht3.trans (ht2.trans ht1)
  have htraffic : (s3.after false neighborServer
      (s3.traffic.read (m.serialize.take MAX_MIPMESSAGE_DATA_SIZE)) s3.traffic.reads.length
      [.sendRaw 3 p]).traffic
      = ((MipNet.start.traffic).read (m.serialize.take MAX_MIPMESSAGE_DATA_SIZE)).transmit
        ⟨0, false, 3, p⟩ := by
    rw [MipNet.after, hempty]
    exact Traffic.recordAll_send hc.tra _ false 0 3
  refine ⟨_, h4, ?_⟩
  rw [htraffic]
  exact ⟨rfl, ⟨0, false, 3, p⟩, rfl, hc⟩

def shortMessage : MIPDMessage := ⟨20, List.replicate 13 7, by decide⟩

theorem forwarded_once_short : ∃ s : MipNet Bool, s.traffic.log 0 ≠ [] ∧
    ForwardedOnce pair.toNetwork s.traffic 0 shortMessage := by
  have hm' : MIPDMessage.deserialize (shortMessage.serialize.take MAX_MIPMESSAGE_DATA_SIZE)
      = some shortMessage := rfl
  obtain ⟨s, hr, hb, f, hlog, _⟩ := exists_sent (by decide) hm' rfl
  have hwhole : shortMessage.serialize.take MAX_MIPMESSAGE_DATA_SIZE <+: shortMessage.serialize ++ [] := by
    rw [List.append_nil]
    exact List.take_prefix _ _
  have hmissing : shortMessage.data.drop
      ((shortMessage.serialize.take MAX_MIPMESSAGE_DATA_SIZE).length - 3) = [] := rfl
  refine ⟨s, by simp [hlog], (forwarded_once_iff hr hb hwhole).mpr (Or.inr ?_)⟩
  rw [hmissing]
  exact fun b hb => absurd hb List.not_mem_nil

/-- **The longest message loses its end.**  The application writes a message of 1496 bytes at once,
`recv` returns all but its last three bytes, and the frame has zeros there. -/
theorem truncated_payload : ∃ (s : MipNet Bool) (m : MIPDMessage),
    s.Reachable pair.toUnicastNetwork ∧ m.data = List.replicate 1496 1 ∧
    s.traffic.reads[0]? = some (m.serialize.take MAX_MIPMESSAGE_DATA_SIZE) ∧
    ¬ ForwardedOnce pair.toNetwork s.traffic 0 m := by
  obtain ⟨m, ha, hdata⟩ : ∃ m : MIPDMessage, m.mipAddress = 20 ∧ m.data = List.replicate 1496 1 :=
    ⟨⟨20, List.replicate 1496 1, by rw [List.length_replicate]; exact le_rfl⟩, rfl, rfl⟩
  have hbytes : (m.serialize.take MAX_MIPMESSAGE_DATA_SIZE).length = 1496 := by
    rw [List.length_take, MIPDMessage.length_serialize, hdata, List.length_replicate]
    rfl
  have hprefix : m.serialize.take MAX_MIPMESSAGE_DATA_SIZE <+: m.serialize ++ [] := by
    rw [List.append_nil]
    exact List.take_prefix _ _
  obtain ⟨m', hm', ha', hd⟩ := MIPDMessage.deserialize_of_prefix m hprefix (by omega)
  have hlen : 13 ≤ m.data.length := by
    rw [hdata, List.length_replicate]
    omega
  obtain ⟨s, hr, hb, f, hlog, hc⟩ := exists_sent hlen hm' (ha'.trans ha)
  refine ⟨s, m, hr, hdata, hb, fun h => ?_⟩
  have hpayload : payload m'.data = payload m.data := by
    rw [← hc.payload]
    exact h.payload f (by simp [hlog])
  rw [hd, payload_cut_eq_iff, hbytes, hdata, List.drop_replicate] at hpayload
  exact absurd (hpayload 1 (by simp)) (by decide)

end MipStack
