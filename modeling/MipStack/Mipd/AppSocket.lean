import MipStack.Mipd.Server

/-!
# Messages of an application through its stream socket (`MIPDServer_run`, application event)

* `Reception`, `receive`       what the application event does with the bytes of one `recv`;
* `handleApplicationData_eq`   the event, by what `receive` gives;
* `AppStream`                  messages written one after the other, and a way of reading the stream;
* `ReadCarries bytes m`        16 bytes or more that begin with the message, or stop before its end
                               where only zeros are missing;
* `received_iff`               **the messages come out if and only if there is one read for each
                               message, and each read carries its message**;
* `pong_rejected`              the answer of the ping server is taken for corrupted.
-/

namespace MipStack
open Library

/-! ## one read -/

inductive Reception
  | disconnected
  /-- "Received invalid or corrupted message" -/
  | corrupted
  /-- the decoder returns `NULL`, which is then dereferenced -/
  | null
  /-- the message is passed to `handle_domain_socket_request` -/
  | handed (message : MIPDMessage)
  deriving DecidableEq

def receive (readBuffer : List UInt8) : Reception :=
  if readBuffer.length = 0 then .disconnected
  else if readBuffer.length < SIZEOF_MIPDMESSAGE then .corrupted
  else match MIPDMessage.deserialize readBuffer with
    | none => .null
    | some message => .handed message

namespace MIPDServer

/-- `handle_domain_socket_request`, and the forward request when the address is not a neighbour's -/
def handle (env : Env) (s : MIPDServer) (message : MIPDMessage) :
    Except Fault (MIPDServer × List Effect) :=
  match s.handleDomainSocketRequest message with
  | .error f => .error f
  | .ok (some sent) => .ok (s, sent)
  | .ok none =>
    match createQueueable env message with
    | none => .error .errorExit
    | some package => .ok (s.requestForwarding env package.mHeader.dstAddr package)

theorem handleApplicationData_eq (env : Env) (s : MIPDServer) (available : List UInt8) :
    s.handleApplicationData env available =
      match receive (available.take MAX_MIPMESSAGE_DATA_SIZE) with
      | .disconnected => .ok ({ s with appSocket := -1 }, [])
      | .corrupted => .ok (s, [])
      | .null => .error .nullDereference
      | .handed message => s.handle env message := by
  unfold handleApplicationData receive
  dsimp only
  split
  · rfl
  · split
    · rfl
    · cases MIPDMessage.deserialize (available.take MAX_MIPMESSAGE_DATA_SIZE) with
      | none => rfl
      | some message => rfl

end MIPDServer

/-! ## a message in the bytes of one read -/

def ReadCarries (bytes : List UInt8) (m : MIPDMessage) : Prop :=
  SIZEOF_MIPDMESSAGE ≤ bytes.length ∧
    (m.serialize <+: bytes ∨ (bytes <+: m.serialize ∧ ∀ b ∈ m.serialize.drop bytes.length, b = 0))

/-- the message is what the bytes begin with, zeros filling up what is missing -/
theorem takeD_eq_serialize_iff (bytes : List UInt8) (m : MIPDMessage) :
    bytes.takeD m.serialize.length 0 = m.serialize ↔
      m.serialize <+: bytes ∨
        (bytes <+: m.serialize ∧ ∀ b ∈ m.serialize.drop bytes.length, b = 0) := by
  generalize m.serialize = image
  constructor
  · intro h
    rcases Nat.le_total image.length bytes.length with hle | hge
    · rw [List.takeD_eq_take 0 hle] at h
      exact Or.inl (h ▸ List.take_prefix image.length bytes)
    · rw [takeD_eq_append 0 bytes hge] at h
      refine Or.inr ⟨⟨_, h⟩, fun b hb => ?_⟩
      rw [← h, List.drop_left] at hb
      exact List.eq_of_mem_replicate hb
  · intro h
    rcases h with ⟨rest, rfl⟩ | ⟨⟨rest, rfl⟩, hzero⟩
    · exact List.takeD_left image rest 0
    · rw [List.drop_left] at hzero
      have hrest := takeD_append 0 bytes [] rest.length
      rw [List.append_nil, List.takeD_nil, ← List.eq_replicate_of_mem hzero] at hrest
      rwa [List.length_append]

theorem deserialize_eq_some_iff {bytes : List UInt8} (m : MIPDMessage) (hlen : 3 ≤ bytes.length) :
    MIPDMessage.deserialize bytes = some m ↔ bytes.takeD m.serialize.length 0 = m.serialize := by
  obtain ⟨a, b1, b2, rest, rfl⟩ : ∃ a b1 b2 rest, bytes = a :: b1 :: b2 :: rest := by
    obtain ⟨a, t1, rfl⟩ := List.exists_cons_of_length_pos (by omega : 0 < bytes.length)
    rw [List.length_cons] at hlen
    obtain ⟨b1, t2, rfl⟩ := List.exists_cons_of_length_pos (by omega : 0 < t1.length)
    rw [List.length_cons] at hlen
    obtain ⟨b2, rest, rfl⟩ := List.exists_cons_of_length_pos (by omega : 0 < t2.length)
    exact ⟨a, b1, b2, rest, rfl⟩
  obtain ⟨address, data, size⟩ := m
  have hmax : MAX_MIPMESSAGE_DATA_SIZE = 1496 := rfl
  have hserialize : (MIPDMessage.mk address data size).serialize.length = data.length + 3 := by
    rw [MIPDMessage.length_serialize]
    exact Nat.add_comm _ _
  have htake : (a :: b1 :: b2 :: rest).takeD (data.length + 3) 0
      = a :: b1 :: b2 :: rest.takeD data.length 0 := rfl
  rw [hserialize, htake]
  show MIPDMessage.create a (ofLe [b1, b2]) (rest.takeD (ofLe [b1, b2]) 0) = _ ↔
    a :: b1 :: b2 :: _ = address :: (leBytes 2 data.length ++ data)
  have hbytes := leBytes_ofLe [b1, b2]
  constructor
  · intro h
    unfold MIPDMessage.create at h
    split at h
    · obtain ⟨rfl, hdata⟩ := MIPDMessage.mk.inj (Option.some.inj h)
      rw [takeD_takeD 0 rest le_rfl] at hdata
      have hn : data.length = ofLe [b1, b2] := by rw [← hdata, List.takeD_length]
      rw [hn, hdata]
      show a :: ([b1, b2] ++ data) = a :: (leBytes [b1, b2].length (ofLe [b1, b2]) ++ data)
      rw [hbytes]
    · cases h
  · intro h
    obtain ⟨rfl, htail⟩ := List.cons.inj h
    have hsplit : [b1, b2] ++ rest.takeD data.length 0 = leBytes 2 data.length ++ data := htail
    obtain ⟨hsize, hdata⟩ := List.append_inj hsplit (by simp)
    have hn : ofLe [b1, b2] = data.length := by
      rw [hsize, ofLe_leBytes]
      exact Nat.mod_eq_of_lt (by omega)
    rw [hn, MIPDMessage.create, dif_pos size]
    congr 2
    rw [takeD_takeD 0 rest le_rfl, hdata]

/-- **When one read hands over a message.** -/
theorem receive_eq_handed_iff (bytes : List UInt8) (m : MIPDMessage) :
    receive bytes = .handed m ↔ ReadCarries bytes m := by
  rw [ReadCarries, ← takeD_eq_serialize_iff]
  by_cases hlen : SIZEOF_MIPDMESSAGE ≤ bytes.length
  · have h16 : 16 ≤ bytes.length := hlen
    rw [and_iff_right hlen, ← deserialize_eq_some_iff m (by omega), receive, if_neg (by omega),
      if_neg (Nat.not_lt.mpr hlen)]
    cases MIPDMessage.deserialize bytes with
    | none => simp
    | some message => simp
  · refine iff_of_false (fun h => ?_) fun h => hlen h.1
    rw [receive, if_pos (Nat.lt_of_not_le hlen)] at h
    split at h <;> cases h

/-! ## a stream -/

/-- what an application has written, and the bytes of each `recv`; the kernel may cut the stream
anywhere, into reads of at most as many bytes as are asked for -/
structure AppStream where
  messages : List MIPDMessage
  reads : List (List UInt8)
  whole : reads.flatten = messages.flatMap MIPDMessage.serialize
  bounded : ∀ bytes ∈ reads, bytes ≠ [] ∧ bytes.length ≤ MAX_MIPMESSAGE_DATA_SIZE

theorem map_receive_eq_iff (reads : List (List UInt8)) (messages : List MIPDMessage) :
    reads.map receive = messages.map .handed ↔ List.Forall₂ ReadCarries reads messages := by
  induction reads generalizing messages with
  | nil =>
    cases messages with
    | nil => exact iff_of_true rfl List.Forall₂.nil
    | cons m messages => exact iff_of_false (fun h => nomatch h) fun h => nomatch h
  | cons bytes reads ih =>
    cases messages with
    | nil => exact iff_of_false (fun h => nomatch h) fun h => nomatch h
    | cons m messages =>
      rw [List.map_cons, List.map_cons, List.cons.injEq, List.forall₂_cons, ih,
        receive_eq_handed_iff]

/-- **When the application socket preserves messages**: there are as many reads as messages, and
each read carries its own. -/
theorem received_iff (w : AppStream) :
    w.reads.map receive = w.messages.map .handed ↔ List.Forall₂ ReadCarries w.reads w.messages :=
  map_receive_eq_iff w.reads w.messages

/-- a message read on its own must have 13 bytes of data -/
theorem readCarries_serialize_iff (m : MIPDMessage) : ReadCarries m.serialize m ↔ 13 ≤ m.data.length := by
  rw [ReadCarries, and_iff_left (Or.inl (List.prefix_refl _)), m.length_serialize]
  show 16 ≤ 3 + m.data.length ↔ _
  omega

/-- the answer "PONG" of the ping server to address 10, read on its own -/
def pong : AppStream where
  messages := [⟨10, [80, 79, 78, 71], by decide⟩]
  reads := [[10, 4, 0, 80, 79, 78, 71]]
  whole := rfl
  bounded := by decide

/-- **A short message is taken for corrupted**, however it is read. -/
theorem pong_rejected :
    pong.reads.map receive = [.corrupted] ∧
      ¬ ∀ w : AppStream, w.reads.map receive = w.messages.map .handed :=
  ⟨rfl, fun hall => absurd (hall pong) (by decide)⟩

end MipStack
