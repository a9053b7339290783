import MipStack.Mipd.Link
import MipStack.Mipd.Forwarding

/-!
# Frames of any length and content (`recv_raw_mip_package`)

* `receivedLength`      how many bytes arrive; the receive buffer is zero behind them;
* `recvReads`, `recvWrites`   the positions of the receive buffer that are read, and those of the
                        message buffer that are written;
* `consumerReads`       the positions of the message buffer that are read when the package is handed
                        on: the payload for the application or the next hop, a whole route table for
                        routerd;
* `FromFrame`           a position of the message buffer that holds a byte of the frame;
* `StaysInBounds`       all three stay where they should;
* `hostile_frame_iff`   **exactly the frames that hold their payload within 188 bytes, and are no
                        route tables for a connected routerd**; these are read as they are;
* `hostile_frame_overread`   60 bytes that claim a payload of 2044.
-/

namespace MipStack
open Library

/-! ## positions -/

/-- the return value of `recv` -/
def receivedLength (frame : List UInt8) : ℕ := min frame.length MIP_PACKAGE_MAX_SIZE

def payloadLenInBytes (header : MipHeader) : ℕ := header.payloadLen.toNat * MIP_PAYLOAD_WORD

/-- the packed struct, then the payload behind it -/
def recvReads (frame : List UInt8) : List ℕ :=
  List.range SIZEOF_MIPPACKAGE ++
    List.range' SIZEOF_MIPPACKAGE (payloadLenInBytes (receivedHeader frame))

def recvWrites (frame : List UInt8) : List ℕ :=
  List.range (payloadLenInBytes (receivedHeader frame))

/-- what `parse_broadcasted_table`, `handle_MIPPackage_for_application` or, for another host, the
later `sendto_raw_mip_package` copies out of the message buffer -/
def consumerReads (s : MIPDServer) (header : MipHeader) : List ℕ :=
  if header.tra = 2 then
    if s.routeSocket = -1 then [] else List.range SIZEOF_MIPROUTETABLEPACKAGE
  else if header.tra = 3 then
    if (getInterfacePosForMipAddress s.iTable header.dstAddr).isSome then
      if s.appSocket = -1 then [] else List.range (payloadLenInBytes header)
    else if header.ttl = 0 then [] else List.range (payloadLenInBytes header)
  else []

/-- position `k` was copied from byte `26 + k` of the frame -/
def FromFrame (frame : List UInt8) (k : ℕ) : Prop :=
  k ∈ recvWrites frame ∧ SIZEOF_MIPPACKAGE + k < receivedLength frame

/-- the message buffer of `MIPPackage_create_empty` has 1496 bytes -/
structure StaysInBounds (s : MIPDServer) (frame : List UInt8) : Prop where
  reads : ∀ k ∈ recvReads frame, k < receivedLength frame
  writes : ∀ k ∈ recvWrites frame, k < 1496
  consumers : ∀ k ∈ consumerReads s (receivedHeader frame), FromFrame frame k

/-- the frame holds the payload that its header claims -/
def HoldsPayload (frame : List UInt8) : Prop :=
  SIZEOF_MIPPACKAGE + payloadLenInBytes (receivedHeader frame) ≤ receivedLength frame

instance (frame : List UInt8) : Decidable (HoldsPayload frame) := inferInstanceAs (Decidable (_ ≤ _))

/-! ## what is read -/

theorem reads_iff (frame : List UInt8) :
    (∀ k ∈ recvReads frame, k < receivedLength frame) ↔ HoldsPayload frame := by
  have hmem : ∀ k, k ∈ recvReads frame ↔
      k < SIZEOF_MIPPACKAGE + payloadLenInBytes (receivedHeader frame) := by
    intro k
    rw [recvReads, List.mem_append, List.mem_range, List.mem_range'_1]
    omega
  rw [HoldsPayload]
  constructor
  · intro hall
    by_contra hlong
    have hlast := hall (receivedLength frame) ((hmem _).mpr (by omega))
    omega
  · intro hfits k hk
    have := (hmem k).mp hk
    omega

/-- at most 162 bytes of payload are received -/
theorem HoldsPayload.le {frame : List UInt8} (h : HoldsPayload frame) :
    payloadLenInBytes (receivedHeader frame) ≤ 162 := by
  have hmax : receivedLength frame ≤ 188 := Nat.min_le_right _ _
  have hfits : 26 + payloadLenInBytes (receivedHeader frame) ≤ receivedLength frame := h
  omega

theorem HoldsPayload.fromFrame {frame : List UInt8} (h : HoldsPayload frame) (k : ℕ) :
    FromFrame frame k ↔ k < payloadLenInBytes (receivedHeader frame) := by
  have hfits : 26 + payloadLenInBytes (receivedHeader frame) ≤ receivedLength frame := h
  rw [FromFrame, recvWrites, List.mem_range, SIZEOF_MIPPACKAGE]
  omega

/-- a consumer of the payload stays in it; a whole route table is never received -/
theorem HoldsPayload.consumers_iff {frame : List UInt8} (h : HoldsPayload frame) (s : MIPDServer) :
    (∀ k ∈ consumerReads s (receivedHeader frame), FromFrame frame k) ↔
      ¬ ((receivedHeader frame).tra = 2 ∧ s.routeSocket ≠ -1) := by
  have hle := h.le
  have hpayload : ∀ k ∈ List.range (payloadLenInBytes (receivedHeader frame)), FromFrame frame k :=
    fun k hk => (h.fromFrame k).mpr (List.mem_range.mp hk)
  have hempty : ∀ k ∈ ([] : List ℕ), FromFrame frame k := fun k hk => by cases hk
  unfold consumerReads
  by_cases htable : (receivedHeader frame).tra = 2
  · rw [if_pos htable]
    by_cases hr : s.routeSocket = -1
    · rw [if_pos hr]
      exact iff_of_true hempty fun hboth => hboth.2 hr
    · rw [if_neg hr]
      refine iff_of_false (fun hall => ?_) (not_not_intro ⟨htable, hr⟩)
      have hlast := (h.fromFrame 513).mp (hall 513 (List.mem_range.mpr (by decide)))
      omega
  · rw [if_neg htable]
    refine iff_of_true ?_ fun hboth => htable hboth.1
    split
    · split
      · split
        · exact hempty
        · exact hpayload
      · split
        · exact hempty
        · exact hpayload
    · exact hempty

/-- **A frame that holds its payload is read as it is.** -/
theorem HoldsPayload.recv {frame : List UInt8} (h : HoldsPayload frame) {package : MIPPackage}
    (he : MIPPackage.createEmpty = some package) :
    ∃ q, recvRawMipPackage frame package = .ok q ∧ q.mHeader = receivedHeader frame ∧
      q.message.take q.payloadBytes = (frame.drop SIZEOF_MIPPACKAGE).take q.payloadBytes := by
  have hfits : 26 + payloadLenInBytes (receivedHeader frame) ≤ min frame.length 188 := h
  have hbytes : (((frame.take 188).takeD 188 0).drop 26).take (payloadLenInBytes (receivedHeader frame))
      = (frame.drop 26).take (payloadLenInBytes (receivedHeader frame)) := by
    have hlen : (frame.take 188).length = min 188 frame.length := List.length_take
    rw [takeD_eq_append 0 _ (by omega), List.drop_append_of_le_length (by omega),
      List.take_append_of_le_length (by rw [List.length_drop]; omega), List.drop_take,
      List.take_take, Nat.min_eq_left (by omega)]
  have hok : SIZEOF_MIPPACKAGE + payloadLenInBytes (receivedHeader frame)
      ≤ (receiveBuffer frame).length ∧
      payloadLenInBytes (receivedHeader frame) ≤ package.message.length := by
    have hempty := MIPPackage.createEmpty_eq he
    rw [hempty, List.length_replicate, length_receiveBuffer]
    exact ⟨by show 26 + _ ≤ 188; omega, by omega⟩
  refine ⟨_, if_pos hok, rfl, ?_⟩
  have hread : (((frame.take 188).takeD 188 0).drop 26 |>.take
      (payloadLenInBytes (receivedHeader frame))).length
        = payloadLenInBytes (receivedHeader frame) := by
    rw [List.length_take, List.length_drop, List.takeD_length]
    omega
  exact (List.take_left' hread).trans hbytes

/-- **Exactly the frames that hold their payload within 188 bytes stay in bounds**, unless they carry
a route table for a connected routerd; such a frame is read as it is. -/
theorem hostile_frame_iff (s : MIPDServer) (frame : List UInt8) :
    (StaysInBounds s frame ↔
      HoldsPayload frame ∧ ¬ ((receivedHeader frame).tra = 2 ∧ s.routeSocket ≠ -1)) ∧
    (HoldsPayload frame → ∀ package, MIPPackage.createEmpty = some package →
      ∃ q, recvRawMipPackage frame package = .ok q ∧ q.mHeader = receivedHeader frame ∧
        q.message.take q.payloadBytes = (frame.drop SIZEOF_MIPPACKAGE).take q.payloadBytes) := by
  refine ⟨⟨fun h => ?_, fun h => ?_⟩, fun h package => h.recv⟩
  · have hholds := (reads_iff frame).mp h.reads
    exact ⟨hholds, (hholds.consumers_iff s).mp h.consumers⟩
  · refine ⟨(reads_iff frame).mpr h.1, fun k hk => ?_, (h.1.consumers_iff s).mpr h.2⟩
    have hle := h.1.le
    have := List.mem_range.mp hk
    omega

/-- a transport frame of 60 bytes whose header claims 511 words -/
def hostileFrame : List UInt8 :=
  List.replicate 12 1 ++ [0x88, 0xB5, 0xFB, 0xFF, 10, 20] ++ List.replicate 42 0

/-- **A frame of 60 bytes is read past its end.** -/
theorem hostile_frame_overread : ¬ ∀ (s : MIPDServer) (frame : List UInt8), StaysInBounds s frame := by
  intro hall
  have hholds := (reads_iff hostileFrame).mp (hall (MIPDServer.create []) hostileFrame).reads
  exact absurd hholds (by decide)

end MipStack
