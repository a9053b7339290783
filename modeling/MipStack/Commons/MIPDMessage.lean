import MipStack.Commons.Definitions
import MipStack.Library.Bytes

/-!
# Messages between mipd and its applications (`mipd_message.c`)

* `MIPDMessage`      an address and at most 1496 bytes of data, the bound that
                     `MIPDMessage_create` checks;
* `.serialize`       address, data size in two bytes (the host is little-endian), data;
* `.serializeInto`   what `MIPDMessage_serialize` returns, and the buffer after it;
* `.deserialize`     reads a message from a buffer; a read past the end of the buffer gives zeros;
* `deserialize_prefix`      the first bytes of a buffer decide what is read from it;
* `deserialize_of_prefix`   a part of a stream that begins with a message gives that message, with
                            zeros for the bytes that are missing;
* `message_coding`          **messages and their encodings are in bijection**.
-/

namespace MipStack
open Library

def MAX_MIPMESSAGE_DATA_SIZE : ℕ := 1496
def MAX_MIPMESSAGE_SIZE : ℕ := 1500

/-- `sizeof(MIPDMessage)`: a byte, a `uint16_t` and a pointer, aligned -/
def SIZEOF_MIPDMESSAGE : ℕ := 16

structure MIPDMessage where
  mipAddress : MIPAddress
  data : List UInt8
  size : data.length ≤ MAX_MIPMESSAGE_DATA_SIZE
  deriving DecidableEq, Repr

namespace MIPDMessage

def create (address : MIPAddress) (dataSize : ℕ) (data : List UInt8) : Option MIPDMessage :=
  if h : dataSize ≤ MAX_MIPMESSAGE_DATA_SIZE then
    some ⟨address, data.takeD dataSize 0, by rw [List.takeD_length]; exact h⟩
  else none

/-- the size check of `MIPDMessage_serialize` holds of every message -/
def serialize (m : MIPDMessage) : List UInt8 := m.mipAddress :: leBytes 2 m.data.length ++ m.data

/-- the sum is computed in 16 bits -/
def calcSerializedMessageSize (m : MIPDMessage) : UInt16 := 1 + 2 + UInt16.ofNat m.data.length

/-- the return value and the buffer -/
def serializeInto (m : MIPDMessage) (buffer : List UInt8) : Except Fault (ℤ × List UInt8) :=
  if m.calcSerializedMessageSize.toNat ≤ MAX_MIPMESSAGE_SIZE then
    if m.serialize.length ≤ buffer.length then
      .ok (m.calcSerializedMessageSize.toNat, m.serialize ++ buffer.drop m.serialize.length)
    else .error .outOfBounds
  else .ok (-1, buffer)

def serializedGetAddress (buffer : List UInt8) : MIPAddress := buffer.headD 0

def serializedGetDataSize (buffer : List UInt8) : ℕ := ofLe ((buffer.drop 1).takeD 2 0)

def serializedGetData (buffer : List UInt8) : List UInt8 :=
  (buffer.drop 3).takeD (serializedGetDataSize buffer) 0

def deserialize (buffer : List UInt8) : Option MIPDMessage :=
  create (serializedGetAddress buffer) (serializedGetDataSize buffer) (serializedGetData buffer)

theorem length_serialize (m : MIPDMessage) : m.serialize.length = 3 + m.data.length := by
  simp only [serialize, List.cons_append, List.length_cons, List.length_append, length_leBytes]
  omega

theorem create_eq_some (address : MIPAddress) {n : ℕ} (data : List UInt8)
    (h : n ≤ MAX_MIPMESSAGE_DATA_SIZE) :
    ∃ m, create address n data = some m ∧ m.mipAddress = address ∧ m.data = data.takeD n 0 :=
  ⟨_, dif_pos h, rfl, rfl⟩

theorem deserialize_isSome (buffer : List UInt8) :
    (deserialize buffer).isSome ↔ serializedGetDataSize buffer ≤ MAX_MIPMESSAGE_DATA_SIZE := by
  unfold deserialize create
  split <;> rename_i h
  · exact iff_of_true rfl h
  · exact iff_of_false (by simp) h

/-- the first bytes of the buffer decide the message, zeros filling up what is missing -/
theorem deserialize_prefix (m : MIPDMessage) (buffer : List UInt8)
    (hhead : buffer.take 3 = m.serialize.take 3) :
    ∃ m', deserialize buffer = some m' ∧ m'.mipAddress = m.mipAddress ∧
      m'.data = (buffer.drop 3).takeD m.data.length 0 := by
  obtain ⟨b1, b2, hb⟩ : ∃ b1 b2, leBytes 2 m.data.length = [b1, b2] := ⟨_, _, rfl⟩
  have hser : m.serialize.take 3 = [m.mipAddress, b1, b2] := by
    rw [serialize, hb]
    rfl
  rw [hser] at hhead
  obtain ⟨rest, rfl⟩ : ∃ rest, buffer = m.mipAddress :: b1 :: b2 :: rest := by
    refine ⟨buffer.drop 3, ?_⟩
    conv_lhs => rw [← List.take_append_drop 3 buffer, hhead]
    rfl
  have hsize : serializedGetDataSize (m.mipAddress :: b1 :: b2 :: rest) = m.data.length := by
    show ofLe [b1, b2] = m.data.length
    rw [← hb, ofLe_leBytes]
    have := m.size
    have hmax : MAX_MIPMESSAGE_DATA_SIZE = 1496 := rfl
    exact Nat.mod_eq_of_lt (by omega)
  obtain ⟨m', hm', ha, hd⟩ := create_eq_some m.mipAddress
    (serializedGetData (m.mipAddress :: b1 :: b2 :: rest)) m.size
  refine ⟨m', ?_, ha, ?_⟩
  · rw [deserialize, hsize]
    exact hm'
  · rw [hd, serializedGetData, hsize]
    show (rest.takeD m.data.length 0).takeD m.data.length 0 = rest.takeD m.data.length 0
    rw [List.takeD_eq_take]
    · exact List.take_of_length_le (by rw [List.takeD_length])
    · rw [List.takeD_length]

/-- **Reading the beginning of a stream.**  The bytes behind the first message do not matter, those
that are missing are read as zeros. -/
theorem deserialize_of_prefix (m : MIPDMessage) {bytes rest : List UInt8}
    (h : bytes <+: m.serialize ++ rest) (hlen : 3 ≤ bytes.length) :
    ∃ m', deserialize bytes = some m' ∧ m'.mipAddress = m.mipAddress ∧
      m'.data = (m.data.take (bytes.length - 3)).takeD m.data.length 0 := by
  have hbytes : bytes = (m.serialize ++ rest).take bytes.length := List.prefix_iff_eq_take.mp h
  have hhead : bytes.take 3 = m.serialize.take 3 := by
    rw [hbytes, List.take_take, Nat.min_eq_left hlen, List.take_append_of_le_length]
    rw [length_serialize]
    omega
  have hdrop : bytes.drop 3 = (m.data ++ rest).take (bytes.length - 3) := by
    conv_lhs => rw [hbytes]
    rw [List.drop_take]
    rfl
  obtain ⟨m', hm', ha, hd⟩ := deserialize_prefix m bytes hhead
  refine ⟨m', hm', ha, ?_⟩
  rw [hd, hdrop, ← takeD_take, ← takeD_take 0 (m.data.take _), List.take_take, List.take_take,
    List.take_append_of_le_length (Nat.min_le_left _ _)]

/-! ## both directions -/

theorem calcSerializedMessageSize_toNat (m : MIPDMessage) :
    m.calcSerializedMessageSize.toNat = 3 + m.data.length := by
  have hsize : m.data.length ≤ 1496 := m.size
  have hthree : (1 + 2 : UInt16).toNat = 3 := rfl
  rw [calcSerializedMessageSize, UInt16.toNat_add, UInt16.toNat_ofNat', hthree]
  show (3 + m.data.length % 65536) % 65536 = _
  omega

/-- as many bytes are written as are returned, and the others stay -/
theorem serializeInto_eq (m : MIPDMessage) {buffer : List UInt8}
    (h : 3 + m.data.length ≤ buffer.length) :
    m.serializeInto buffer = .ok (((3 + m.data.length : ℕ) : ℤ),
      m.serialize ++ buffer.drop (3 + m.data.length)) := by
  have hsize : m.data.length ≤ 1496 := m.size
  have hmax : m.calcSerializedMessageSize.toNat ≤ MAX_MIPMESSAGE_SIZE := by
    rw [calcSerializedMessageSize_toNat]
    show _ ≤ 1500
    omega
  have hfits : m.serialize.length ≤ buffer.length := by
    rw [length_serialize]
    exact h
  rw [serializeInto, if_pos hmax, if_pos hfits, calcSerializedMessageSize_toNat, length_serialize]

theorem deserialize_serialize (m : MIPDMessage) (rest : List UInt8) :
    deserialize (m.serialize ++ rest) = some m := by
  have hhead : (m.serialize ++ rest).take 3 = m.serialize.take 3 := by
    apply List.take_append_of_le_length
    rw [length_serialize]
    omega
  obtain ⟨m', hm', ha, hd⟩ := deserialize_prefix m (m.serialize ++ rest) hhead
  have hdata : m'.data = m.data := by
    rw [hd]
    show (m.data ++ rest).takeD m.data.length 0 = m.data
    have happend := takeD_append 0 m.data rest 0
    rw [Nat.add_zero] at happend
    rw [happend]
    exact List.append_nil m.data
  obtain ⟨address, data, size⟩ := m
  obtain ⟨address', data', size'⟩ := m'
  obtain rfl : address' = address := ha
  obtain rfl : data' = data := hdata
  exact hm'

/-- a buffer that is long enough begins with the encoding of what is read from it -/
theorem serialize_deserialize {buffer : List UInt8} {m : MIPDMessage}
    (h : 3 + serializedGetDataSize buffer ≤ buffer.length) (hm : deserialize buffer = some m) :
    m.serialize = buffer.take (3 + serializedGetDataSize buffer) := by
  obtain ⟨a, b1, b2, rest, rfl⟩ : ∃ a b1 b2 rest, buffer = a :: b1 :: b2 :: rest := by
    rcases buffer with _ | ⟨a, _ | ⟨b1, _ | ⟨b2, rest⟩⟩⟩
    · exact absurd h (by simp)
    · exact absurd h (by simp; omega)
    · exact absurd h (by simp; omega)
    · exact ⟨a, b1, b2, rest, rfl⟩
  obtain ⟨n, hn⟩ : ∃ n, n = ofLe [b1, b2] := ⟨_, rfl⟩
  have hsize : serializedGetDataSize (a :: b1 :: b2 :: rest) = n := hn.symm
  have hbytes : leBytes 2 n = [b1, b2] := by
    rw [hn]
    exact leBytes_ofLe [b1, b2]
  rw [hsize] at h ⊢
  have hlen : n ≤ rest.length := by
    rw [List.length_cons, List.length_cons, List.length_cons] at h
    omega
  have hle : n ≤ MAX_MIPMESSAGE_DATA_SIZE :=
    hsize ▸ (deserialize_isSome _).mp (Option.isSome_iff_exists.mpr ⟨m, hm⟩)
  obtain ⟨m', hm', ha, hd⟩ := create_eq_some a
    (serializedGetData (a :: b1 :: b2 :: rest)) hle
  rw [deserialize, hsize] at hm
  obtain rfl := Option.some.inj (hm'.symm.trans hm)
  have hdata : m'.data = rest.take n := by
    rw [hd, serializedGetData, hsize, takeD_takeD 0 _ le_rfl]
    exact List.takeD_eq_take 0 hlen
  rw [serialize, ha, hdata, List.length_take, Nat.min_eq_left hlen, hbytes, Nat.add_comm 3 n]
  rfl

/-- **Messages and their encodings.**  A message is written in `3 + n` bytes, at most 1500, and read
back from them whatever follows; a buffer that holds the bytes it declares begins with the encoding
of the message read from it, if the size is at most 1496, and is refused otherwise. -/
theorem message_coding (m : MIPDMessage) {out : List UInt8} (hout : 3 + m.data.length ≤ out.length)
    {buffer : List UInt8} (hbuffer : 3 + serializedGetDataSize buffer ≤ buffer.length) :
    (m.serializeInto out = .ok (((3 + m.data.length : ℕ) : ℤ),
        m.serialize ++ out.drop (3 + m.data.length)) ∧
      m.serialize.length = 3 + m.data.length ∧ 3 + m.data.length ≤ 1500) ∧
    (∀ rest, deserialize (m.serialize ++ rest) = some m) ∧
    (serializedGetDataSize buffer ≤ 1496 → ∃ m', deserialize buffer = some m' ∧
      m'.serialize = buffer.take (3 + serializedGetDataSize buffer)) ∧
    (1496 < serializedGetDataSize buffer → deserialize buffer = none) := by
  have hsize : m.data.length ≤ 1496 := m.size
  refine ⟨⟨m.serializeInto_eq hout, m.length_serialize, by omega⟩, m.deserialize_serialize,
    fun hle => ?_, fun hlt => ?_⟩
  · obtain ⟨m', hm'⟩ := Option.isSome_iff_exists.mp ((deserialize_isSome buffer).mpr hle)
    exact ⟨m', hm', serialize_deserialize hbuffer hm'⟩
  · by_contra hne
    have hle : serializedGetDataSize buffer ≤ 1496 :=
      (deserialize_isSome buffer).mp (Option.ne_none_iff_isSome.mp hne)
    omega

/-- a message of two bytes into a buffer of eight, and a buffer that declares 1497 bytes -/
theorem message_coding_refused :
    deserialize (7 :: 217 :: 5 :: List.replicate 1497 0) = none := by
  have hout : 3 + [72, 105].length ≤ (List.replicate 8 (0 : UInt8)).length := by decide
  have hsize : serializedGetDataSize (7 :: 217 :: 5 :: List.replicate 1497 0) = 1497 := rfl
  have hbuffer : 3 + serializedGetDataSize (7 :: 217 :: 5 :: List.replicate 1497 0)
      ≤ (7 :: 217 :: 5 :: List.replicate 1497 (0 : UInt8)).length := by
    rw [hsize, List.length_cons, List.length_cons, List.length_cons, List.length_replicate]
  exact (message_coding ⟨5, [72, 105], by decide⟩ hout hbuffer).2.2.2 (by rw [hsize]; decide)

end MIPDMessage

end MipStack
