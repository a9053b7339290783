import MipStack.Commons.Definitions

/-!
# MIPTP packages (`miptp_package.c`)

* `MIPTPHeader`, `MIPTPPackage`   padding length, port and sequence number, and the data;
* `MIPTPPackage.create`           `none` for more than 1492 bytes, and for a `NULL` data pointer;
* `MIPTPPackage.IsAck`            a package without data: it confirms all packages up to its number.
-/

namespace MipStack

def MAX_MIPTP_PACKAGE_DATA_SIZE : ℕ := 1492

structure MIPTPHeader where
  PL : BitVec 2
  port : BitVec 14
  PSN : UInt16
  deriving DecidableEq, Repr

/-- `data_size` is the length of `data` -/
structure MIPTPPackage where
  miptpHeader : MIPTPHeader
  data : List UInt8
  deriving DecidableEq, Repr

def calcPl (dataSize : ℕ) : ℕ := if dataSize % 4 ≠ 0 then 4 - dataSize % 4 else 0

/-- `none` in `data` is `NULL`: what is checked after the allocation is the argument -/
def MIPTPPackage.create (port : BitVec 14) (PSN : UInt16) (data : Option (List UInt8))
    (dataSize : ℕ) : Option MIPTPPackage :=
  if dataSize ≤ MAX_MIPTP_PACKAGE_DATA_SIZE then
    match data with
    | none => none
    | some data => some ⟨⟨BitVec.ofNat 2 (calcPl dataSize), port, PSN⟩, data.takeD dataSize 0⟩
  else none

theorem MIPTPPackage.length_of_create {port : BitVec 14} {PSN : UInt16} {data : Option (List UInt8)}
    {n : ℕ} {p : MIPTPPackage} (h : create port PSN data n = some p) :
    p.data.length = n ∧ n ≤ MAX_MIPTP_PACKAGE_DATA_SIZE := by
  unfold create at h
  split at h
  · rename_i hn
    cases data with
    | none => cases h
    | some data =>
      obtain rfl := Option.some.inj h
      exact ⟨by rw [List.takeD_length], hn⟩
  · cases h

def MIPTPPackage.IsAck (p : MIPTPPackage) : Prop := p.data = []

instance (p : MIPTPPackage) : Decidable p.IsAck := inferInstanceAs (Decidable (p.data = []))

end MipStack
