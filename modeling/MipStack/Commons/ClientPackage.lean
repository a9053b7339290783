import MipStack.Commons.Definitions
import MipStack.Library.Bytes

/-!
# Packages between miptpd and its clients (`client_package.c`)

* `JobData`         what a client hands over in one package: at most 65535 bytes;
* `ClientPackage`   the package, `ClientPackage.create` cannot fail for data of that size;
* `ClientPackage.serialize`     what is written, and the size that is returned: that of the structure
                                with its padding, in 16 bits;
* `ClientPackage.deserialize`   reads a package from a buffer: as many bytes of data as the package
                                declares, wherever they end;
* `deserialize_serialize`       all that is written gives the package back;
* `coding_iff`                  **the size returned is never that of what is written**; the bytes up to
                                it give the package back exactly for data of at most 65519 bytes.
-/

namespace MipStack
open Library

def MAX_DATA_SIZE_BYTES : ℕ := 65535

/-- bytes whose number fits in `data_size` -/
abbrev JobData := { data : List UInt8 // data.length ≤ MAX_DATA_SIZE_BYTES }

def JobData.empty : JobData := ⟨[], Nat.zero_le _⟩

/-- `other` is a value that the enumeration does not name -/
inductive MIPTPClientType
  | MIPTP_SENDER
  | MIPTP_RECEIVER
  | other (value : UInt32)
  deriving DecidableEq, Repr

def MIPTPClientType.ofValue (value : UInt32) : MIPTPClientType :=
  if value = 1 then .MIPTP_SENDER else if value = 2 then .MIPTP_RECEIVER else .other value

/-- the four bytes of the enumeration -/
def MIPTPClientType.value : MIPTPClientType → UInt32
  | .MIPTP_SENDER => 1
  | .MIPTP_RECEIVER => 2
  | .other value => value

theorem MIPTPClientType.ofValue_value (v : UInt32) : ofValue (ofValue v).value = ofValue v := by
  unfold ofValue
  split
  · rfl
  · split
    · rfl
    · rename_i h1 h2
      exact (if_neg h1).trans (if_neg h2)

structure ClientPackage where
  port : UInt16
  destination : MIPAddress
  type : MIPTPClientType
  data : JobData
  deriving DecidableEq

def ClientPackage.create (port : UInt16) (destination : MIPAddress) (type : MIPTPClientType)
    (data : JobData) : ClientPackage := ⟨port, destination, type, data⟩

namespace ClientPackage

/-- `sizeof(ClientPackage)`: with three bytes of padding in front of the type, six bytes in front of the
pointer -/
def SIZEOF_CLIENTPACKAGE : ℕ := 24

/-- the structure without its pointer, and the data -/
def calcSerializedPackageSize (p : ClientPackage) : UInt16 :=
  UInt16.ofNat (SIZEOF_CLIENTPACKAGE - 8) + UInt16.ofNat p.data.1.length

/-- the bytes written and the return value -/
def serialize (p : ClientPackage) : List UInt8 × UInt16 :=
  (leBytes 2 p.port.toNat ++ (p.destination :: (leBytes 4 p.type.value.toNat ++
    (leBytes 2 p.data.1.length ++ p.data.1))), p.calcSerializedPackageSize)

def serializedGetPort (sPackage : List UInt8) : UInt16 := UInt16.ofNat (ofLe (sPackage.take 2))

def serializedGetDestination (sPackage : List UInt8) : MIPAddress := (sPackage.drop 2).headD 0

def serializedGetType (sPackage : List UInt8) : MIPTPClientType :=
  .ofValue (UInt32.ofNat (ofLe ((sPackage.drop 3).take 4)))

def serializedGetDataSize (sPackage : List UInt8) : UInt16 :=
  UInt16.ofNat (ofLe ((sPackage.drop 7).take 2))

/-- the data of the declared size, behind the nine bytes of the header -/
def serializedGetData (sPackage : List UInt8) : JobData :=
  ⟨(sPackage.drop 9).take (serializedGetDataSize sPackage).toNat, by
    have := (serializedGetDataSize sPackage).toNat_lt
    rw [List.length_take]
    show min _ _ ≤ 65535
    omega⟩

def deserialize (serializedPackage : List UInt8) : Except Fault ClientPackage :=
  if 9 + (serializedGetDataSize serializedPackage).toNat ≤ serializedPackage.length then
    .ok (create (serializedGetPort serializedPackage) (serializedGetDestination serializedPackage)
      (serializedGetType serializedPackage) (serializedGetData serializedPackage))
  else .error .outOfBounds

/-! ## coding -/

theorem length_serialize (p : ClientPackage) : p.serialize.1.length = 9 + p.data.1.length := by
  simp only [serialize, List.length_append, List.length_cons, length_leBytes]
  omega

theorem calcSerializedPackageSize_toNat (p : ClientPackage) :
    p.calcSerializedPackageSize.toNat = (16 + p.data.1.length) % 65536 := by
  have hlen : p.data.1.length ≤ 65535 := p.data.2
  rw [calcSerializedPackageSize, UInt16.toNat_add, UInt16.toNat_ofNat', UInt16.toNat_ofNat']
  show (16 % 65536 + p.data.1.length % 65536) % 65536 = _
  omega

theorem getDataSize_serialize (p : ClientPackage) (rest : List UInt8) :
    (serializedGetDataSize (p.serialize.1 ++ rest)).toNat = p.data.1.length := by
  have hlen : p.data.1.length ≤ 65535 := p.data.2
  have hslice : ((p.serialize.1 ++ rest).drop 7).take 2 = leBytes 2 p.data.1.length := rfl
  rw [serializedGetDataSize, hslice, ofLe_leBytes, UInt16.toNat_ofNat']
  show p.data.1.length % 65536 % 65536 = _
  omega

/-- **All that is written gives the package back**, whatever follows. -/
theorem deserialize_serialize (port : UInt16) (destination : MIPAddress) (value : UInt32)
    (data : JobData) (rest : List UInt8) :
    deserialize ((create port destination (.ofValue value) data).serialize.1 ++ rest)
      = .ok (create port destination (.ofValue value) data) := by
  generalize hp : create port destination (.ofValue value) data = p
  have hsize := p.getDataSize_serialize rest
  have hport : serializedGetPort (p.serialize.1 ++ rest) = p.port := by
    have hslice : (p.serialize.1 ++ rest).take 2 = leBytes 2 p.port.toNat := rfl
    have hmod : p.port.toNat % 256 ^ 2 = p.port.toNat := Nat.mod_eq_of_lt p.port.toNat_lt
    rw [serializedGetPort, hslice, ofLe_leBytes, hmod]
    exact UInt16.ofNat_toNat
  have htype : serializedGetType (p.serialize.1 ++ rest) = p.type := by
    have hslice : ((p.serialize.1 ++ rest).drop 3).take 4 = leBytes 4 p.type.value.toNat := rfl
    have hmod : p.type.value.toNat % 256 ^ 4 = p.type.value.toNat :=
      Nat.mod_eq_of_lt p.type.value.toNat_lt
    rw [serializedGetType, hslice, ofLe_leBytes, hmod, UInt32.ofNat_toNat, ← hp]
    exact MIPTPClientType.ofValue_value value
  have hdata : serializedGetData (p.serialize.1 ++ rest) = p.data := by
    apply Subtype.ext
    show ((p.serialize.1 ++ rest).drop 9).take _ = p.data.1
    rw [hsize]
    exact List.take_left
  have hfits : 9 + (serializedGetDataSize (p.serialize.1 ++ rest)).toNat
      ≤ (p.serialize.1 ++ rest).length := by
    rw [hsize, List.length_append, length_serialize]
    omega
  rw [deserialize, if_pos hfits, hport, htype, hdata]
  rfl

/-- what is decoded lies in the buffer -/
theorem length_of_deserialize {buffer : List UInt8} {p : ClientPackage}
    (h : deserialize buffer = .ok p) : 9 + p.data.1.length ≤ buffer.length := by
  unfold deserialize at h
  split at h
  · rename_i hfits
    obtain rfl := Except.ok.inj h
    have hle : (serializedGetData buffer).1.length ≤ (serializedGetDataSize buffer).toNat :=
      List.length_take_le _ _
    exact (Nat.add_le_add_left hle 9).trans hfits
  · cases h

/-- **Exact coding**: the size returned is that of what is written, nine bytes and the data, and the
bytes up to it, `rest` being what stands behind in the buffer, give the package back. -/
structure Exact (p : ClientPackage) (rest : List UInt8) : Prop where
  written : p.serialize.1.length = 9 + p.data.1.length
  returned : p.serialize.2.toNat = 9 + p.data.1.length
  decoded : deserialize ((p.serialize.1 ++ rest).take p.serialize.2.toNat) = .ok p

/-- **No package is coded exactly.**  The size returned is seven too many, or in 16 bits far too few;
the bytes up to it give the package back if and only if its data has at most 65519 bytes. -/
theorem coding_iff (port : UInt16) (destination : MIPAddress) (value : UInt32) (data : JobData)
    (rest : List UInt8) :
    let p := create port destination (.ofValue value) data
    ¬ p.Exact rest ∧ p.serialize.1.length = 9 + data.1.length ∧
      (deserialize ((p.serialize.1 ++ rest).take p.serialize.2.toNat) = .ok p ↔
        data.1.length ≤ 65519) := by
  intro p
  have hlen : data.1.length ≤ 65535 := data.2
  have hreturned : p.serialize.2.toNat = (16 + data.1.length) % 65536 :=
    p.calcSerializedPackageSize_toNat
  have hwritten : p.serialize.1.length = 9 + data.1.length := p.length_serialize
  refine ⟨fun h => ?_, hwritten, fun h => ?_, fun h => ?_⟩
  · have hexact : p.serialize.2.toNat = 9 + data.1.length := h.returned
    omega
  · have hfits := length_of_deserialize h
    have hcut : ((p.serialize.1 ++ rest).take p.serialize.2.toNat).length ≤ p.serialize.2.toNat :=
      List.length_take_le _ _
    have hdata : 9 + data.1.length ≤ p.serialize.2.toNat := hfits.trans hcut
    omega
  · have hall : p.serialize.1.length ≤ p.serialize.2.toNat := by omega
    rw [List.take_append, List.take_of_length_le hall]
    exact deserialize_serialize port destination value data _

/-- **Five bytes of data** are written in 14 bytes, and 21 is returned. -/
theorem coding_not_exact :
    ¬ ∀ (port : UInt16) (destination : MIPAddress) (value : UInt32) (data : JobData)
      (rest : List UInt8), (create port destination (.ofValue value) data).Exact rest := by
  intro h
  have hreturned := (h 10 110 1 ⟨[104, 101, 108, 108, 111], by decide⟩ []).returned
  exact absurd hreturned (by decide)

end ClientPackage

end MipStack
