import MipStack.Miptpd.Package
import MipStack.Mipd.Packaging

/-!
# MIPTP packages as bytes (`miptp_package.c`)

* `MIPTPPackage.serialize`     what is written, and the size that is returned;
* `MIPTPPackage.deserialize`   the size of the data is that of the package less the header: neither
                               the two bytes in front of the data nor `PL` are looked at;
* `afterPadding`               a package sent through two mipds, which carry whole words;
* `afterPadding_eq`            **what arrives**: the two bytes, the data without its last two, zeros;
* `not_roundTrips`             two bytes more are written than returned, and the data comes back only
                               where it repeats its own size.
-/

namespace MipStack
open Library

def MAX_MIPTP_PACKAGE_SIZE : ℕ := 1496

/-- the bit fields fill two bytes, the padding length in the lowest bits -/
def MIPTPHeader.toBytes (h : MIPTPHeader) : List UInt8 :=
  leBytes 2 (h.PL.toNat + 4 * h.port.toNat) ++ leBytes 2 h.PSN.toNat

def MIPTPHeader.ofBytes (bytes : List UInt8) : MIPTPHeader :=
  let bits := ofLe (bytes.take 2)
  ⟨BitVec.ofNat 2 bits, BitVec.ofNat 14 (bits / 4), UInt16.ofNat (ofLe ((bytes.drop 2).take 2))⟩

namespace MIPTPPackage

/-- the bytes written and the return value, where -1 is 65535 -/
def serialize (p : MIPTPPackage) : List UInt8 × UInt16 :=
  let packageSize := 4 + UInt16.ofNat p.data.length
  if packageSize.toNat ≤ MAX_MIPTP_PACKAGE_SIZE then
    (p.miptpHeader.toBytes ++ (leBytes 2 p.data.length ++ p.data), packageSize)
  else ([], 65535)

def deserialize (buffer : List UInt8) (packageSize : UInt16) : Except Fault MIPTPPackage :=
  let dataSize := (packageSize - 4).toNat
  if 4 + dataSize ≤ buffer.length then
    .ok ⟨MIPTPHeader.ofBytes buffer, (buffer.drop 4).take dataSize⟩
  else .error .outOfBounds

theorem deserialize_eq_error {buffer : List UInt8} {packageSize : UInt16} {f : Fault}
    (h : deserialize buffer packageSize = .error f) : f = .outOfBounds := by
  simp only [deserialize] at h
  split at h
  · cases h
  · exact (Except.error.inj h).symm

theorem exists_deserialize_iff (buffer : List UInt8) (packageSize : UInt16) :
    (∃ p, deserialize buffer packageSize = .ok p) ↔ 4 + (packageSize - 4).toNat ≤ buffer.length := by
  simp only [deserialize]
  split
  · rename_i hfits
    exact iff_of_true ⟨_, rfl⟩ hfits
  · rename_i hfits
    exact iff_of_false (fun h => nomatch h.choose_spec) hfits

/-- `MIPTPPackage_deserialize` of the bytes that were sent, padded by mipd to whole words -/
def afterPadding (p : MIPTPPackage) : Except Fault MIPTPPackage :=
  let padded := payload (p.serialize.1.take p.serialize.2.toNat)
  deserialize padded (UInt16.ofNat padded.length)

def RoundTrips (p : MIPTPPackage) : Prop :=
  p.serialize.1.length = p.serialize.2.toNat ∧ p.serialize.2.toNat ≤ MAX_MIPTP_PACKAGE_SIZE ∧
    p.afterPadding = .ok p

end MIPTPPackage

theorem MIPTPHeader.ofBytes_toBytes (h : MIPTPHeader) (rest : List UInt8) :
    MIPTPHeader.ofBytes (h.toBytes ++ rest) = h := by
  obtain ⟨PL, port, PSN⟩ := h
  have hPL := PL.isLt
  have hport := port.isLt
  have hPSN := PSN.toNat_lt
  have htake : (MIPTPHeader.toBytes ⟨PL, port, PSN⟩ ++ rest).take 2
      = leBytes 2 (PL.toNat + 4 * port.toNat) := rfl
  have hdrop : ((MIPTPHeader.toBytes ⟨PL, port, PSN⟩ ++ rest).drop 2).take 2
      = leBytes 2 PSN.toNat := rfl
  have hbits : ofLe (leBytes 2 (PL.toNat + 4 * port.toNat)) = PL.toNat + 4 * port.toNat := by
    rw [ofLe_leBytes]
    exact Nat.mod_eq_of_lt (by omega)
  have hseq : UInt16.ofNat (ofLe (leBytes 2 PSN.toNat)) = PSN := by
    rw [ofLe_leBytes, Nat.mod_eq_of_lt (by omega)]
    exact UInt16.ofNat_toNat
  have h1 : BitVec.ofNat 2 (PL.toNat + 4 * port.toNat) = PL := bitField_eq (by omega)
  have h2 : BitVec.ofNat 14 ((PL.toNat + 4 * port.toNat) / 4) = port := bitField_eq (by omega)
  rw [MIPTPHeader.ofBytes, htake, hdrop, hbits, hseq, h1, h2]

namespace MIPTPPackage

theorem create_eq_some {port : BitVec 14} {PSN : UInt16} {data : List UInt8} {p : MIPTPPackage}
    (h : create port PSN (some data) data.length = some p) :
    data.length ≤ 1492 ∧ p = ⟨⟨BitVec.ofNat 2 (calcPl data.length), port, PSN⟩, data⟩ := by
  unfold create at h
  split at h
  · rename_i hlen
    dsimp only at h
    rw [takeD_length_self] at h
    exact ⟨hlen, (Option.some.inj h).symm⟩
  · cases h

/-- the returned size leaves out the two bytes of the data size -/
theorem serialize_eq {p : MIPTPPackage} (h : p.data.length ≤ 1492) :
    p.serialize.1 = p.miptpHeader.toBytes ++ (leBytes 2 p.data.length ++ p.data) ∧
      p.serialize.2.toNat = 4 + p.data.length := by
  have hsize : (4 + UInt16.ofNat p.data.length).toNat = 4 + p.data.length := by
    rw [UInt16.toNat_add, UInt16.toNat_ofNat']
    show (4 + p.data.length % 65536) % 65536 = _
    omega
  have hfits : (4 + UInt16.ofNat p.data.length).toNat ≤ MAX_MIPTP_PACKAGE_SIZE := by
    show _ ≤ 1496
    omega
  simp only [serialize]
  rw [if_pos hfits]
  exact ⟨rfl, hsize⟩

/-- **What arrives.** -/
theorem afterPadding_eq {p : MIPTPPackage} (h : p.data.length ≤ 1492) :
    p.afterPadding = .ok ⟨p.miptpHeader, ((leBytes 2 p.data.length ++ p.data).take p.data.length).takeD
      (calculateMipPayloadWords p.data.length * 4) 0⟩ := by
  obtain ⟨hbytes, hsize⟩ := serialize_eq h
  have hheader : p.miptpHeader.toBytes.length = 4 := rfl
  have hwords : calculateMipPayloadWords (4 + p.data.length) * MIP_PAYLOAD_WORD
      = 4 + calculateMipPayloadWords p.data.length * 4 := by
    unfold calculateMipPayloadWords MIP_PAYLOAD_WORD
    dsimp only
    split <;> split <;> omega
  have hle := calculateMipPayloadWords_le (Nat.le_trans h (by decide))
  have hsent : p.serialize.1.take p.serialize.2.toNat = p.miptpHeader.toBytes ++
      (leBytes 2 p.data.length ++ p.data).take p.data.length := by
    rw [hbytes, hsize, ← hheader, List.take_length_add_append]
  have hsentlen : (p.serialize.1.take p.serialize.2.toNat).length = 4 + p.data.length := by
    rw [List.length_take, hbytes, hsize, List.length_append, List.length_append, hheader,
      length_leBytes]
    omega
  have hpadded : payload (p.serialize.1.take p.serialize.2.toNat) = p.miptpHeader.toBytes ++
      ((leBytes 2 p.data.length ++ p.data).take p.data.length).takeD
        (calculateMipPayloadWords p.data.length * 4) 0 := by
    rw [payload, hsentlen, hwords, hsent]
    exact takeD_append 0 p.miptpHeader.toBytes _ _
  have hlen : (payload (p.serialize.1.take p.serialize.2.toNat)).length
      = 4 + calculateMipPayloadWords p.data.length * 4 := by
    rw [hpadded, List.length_append, hheader, List.takeD_length]
  have hdata : (UInt16.ofNat (4 + calculateMipPayloadWords p.data.length * 4) - 4).toNat
      = calculateMipPayloadWords p.data.length * 4 := by
    rw [UInt16.toNat_sub, UInt16.toNat_ofNat']
    show (65536 - 4 + (4 + calculateMipPayloadWords p.data.length * 4) % 65536) % 65536 = _
    omega
  simp only [afterPadding, deserialize]
  rw [hlen, hdata, if_pos le_rfl, hpadded, MIPTPHeader.ofBytes_toBytes, List.drop_left' hheader,
    List.take_of_length_le (by rw [List.takeD_length])]

/-- **No package makes the round trip**: two bytes more are written than returned.  What arrives is
the package only where the data has whole words and goes on repeating its own size. -/
theorem not_roundTrips {port : BitVec 14} {PSN : UInt16} {data : List UInt8} {p : MIPTPPackage}
    (h : create port PSN (some data) data.length = some p) :
    ¬ p.RoundTrips ∧ (p.afterPadding = .ok p ↔
      data.length % 4 = 0 ∧ (leBytes 2 data.length ++ data).take data.length = data) := by
  obtain ⟨hlen, rfl⟩ := create_eq_some h
  constructor
  · intro hround
    obtain ⟨hwritten, _, _⟩ := hround
    obtain ⟨hbytes, hsize⟩ :=
      serialize_eq (p := ⟨⟨BitVec.ofNat 2 (calcPl data.length), port, PSN⟩, data⟩) hlen
    have hheader : (MIPTPHeader.toBytes ⟨BitVec.ofNat 2 (calcPl data.length), port, PSN⟩).length
        = 4 := rfl
    rw [hbytes, hsize, List.length_append, List.length_append, hheader, length_leBytes] at hwritten
    dsimp only at hwritten
    omega
  · rw [afterPadding_eq hlen]
    dsimp only
    have htake : ((leBytes 2 data.length ++ data).take data.length).length = data.length := by
      rw [List.length_take, List.length_append]
      omega
    generalize (leBytes 2 data.length ++ data).take data.length = arrived at htake
    have hwhole : calculateMipPayloadWords data.length * 4 = data.length ↔ data.length % 4 = 0 := by
      unfold calculateMipPayloadWords MIP_PAYLOAD_WORD
      dsimp only
      split <;> omega
    constructor
    · intro hok
      have hdata : arrived.takeD (calculateMipPayloadWords data.length * 4) 0 = data :=
        congrArg MIPTPPackage.data (Except.ok.inj hok)
      have hwords := congrArg List.length hdata
      rw [List.takeD_length] at hwords
      rw [hwords, ← htake, takeD_length_self] at hdata
      exact ⟨hwhole.mp hwords, hdata⟩
    · intro hwords
      rw [hwhole.mpr hwords.1, ← htake, takeD_length_self, hwords.2]

/-- the package of the tests: what arrives has eight bytes of data, the first two being the size -/
theorem not_roundTrips_hello : ∃ p,
    create 16383 1 (some [72, 101, 108, 108, 111]) 5 = some p ∧ ¬ p.RoundTrips ∧
      (p.afterPadding = .ok p ↔ 5 % 4 = 0 ∧
        (leBytes 2 5 ++ [72, 101, 108, 108, 111]).take 5 = [72, 101, 108, 108, 111]) :=
  have hcreate : create 16383 1 (some [72, 101, 108, 108, 111])
      [72, 101, 108, 108, 111].length = some ⟨⟨3, 16383, 1⟩, [72, 101, 108, 108, 111]⟩ := rfl
  ⟨_, hcreate, not_roundTrips hcreate⟩

/-- **Hello does not arrive**: the test compares no data, and no padding is added in it. -/
theorem hello_not_roundTrips :
    ¬ ∀ (port : BitVec 14) (PSN : UInt16) (data : List UInt8) (p : MIPTPPackage),
      create port PSN (some data) data.length = some p → p.RoundTrips := by
  intro hall
  have hround := hall 16383 1 [72, 101, 108, 108, 111] ⟨⟨3, 16383, 1⟩, [72, 101, 108, 108, 111]⟩ rfl
  exact absurd hround.1 (by decide)

end MIPTPPackage

end MipStack
