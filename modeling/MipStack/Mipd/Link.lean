import MipStack.Mipd.Packaging
import Mathlib.Data.List.GetD
import Mathlib.Tactic.FinCases

/-!
# Packages on the wire (`link.c`)

`struct MIPPackage` is packed: 14 bytes of Ethernet frame, 4 of MIP header and the 8 of the pointer
`message`, which are sent with it.

* `EtherFrame.toBytes`, `MipHeader.toBytes`   the two structs as bytes, and `ofBytes` back;
* `sendtoRawMipPackage`      the bytes handed to `sendto`;
* `recvRawMipPackage`        at most 188 bytes are received; `outOfBounds` where the payload is read
                             behind them;
* `recvRawMipPackageIn behind`   the same in the memory of the daemon, where the bytes `behind` the
                             receive buffer are read, and a write behind the message buffer is
                             `outOfBounds`;
* `receivePackage`           the package that `handle_raw_socket_frame` works on;
* `MIPPackage.wire`, `.received`   the payload that is sent, the message buffer after it was received;
* `recv_sendto`              a frame of at most 40 words is received as it was sent, a longer one is
                             read out of bounds;
* `receivePackage_isOk_iff`, `receivePackage_inv`   **a frame is received if and only if it announces
                             at most 374 words**, with the header that it has;
* `link_faithful_iff`        **exactly the messages of at most 160 bytes come through**.
-/

namespace MipStack
open Library

/-! ## the packed structs -/

def EtherFrame.toBytes (f : EtherFrame) : List UInt8 :=
  List.ofFn f.dstAddr ++ List.ofFn f.srcAddr ++ [f.ethProto.1, f.ethProto.2]

def EtherFrame.ofBytes (bytes : List UInt8) : EtherFrame :=
  ⟨fun j => bytes.getD j 0, fun j => bytes.getD (6 + j) 0, (bytes.getD 12 0, bytes.getD 13 0)⟩

/-- the bit fields fill two bytes, the first field in the lowest bits -/
def MipHeader.toBytes (h : MipHeader) : List UInt8 :=
  leBytes 2 (h.tra.toNat + 8 * h.ttl.toNat + 128 * h.payloadLen.toNat) ++ [h.dstAddr, h.srcAddr]

def MipHeader.ofBytes (bytes : List UInt8) : MipHeader :=
  let bits := ofLe (bytes.take 2)
  ⟨BitVec.ofNat 3 bits, BitVec.ofNat 4 (bits / 8), BitVec.ofNat 9 (bits / 128), bytes.getD 2 0,
    bytes.getD 3 0⟩

theorem EtherFrame.length_toBytes (f : EtherFrame) : f.toBytes.length = 14 := by
  simp [toBytes]

theorem EtherFrame.ofBytes_toBytes (f : EtherFrame) (rest : List UInt8) :
    EtherFrame.ofBytes (f.toBytes ++ rest) = f := by
  obtain ⟨dst, src, proto⟩ := f
  have hdst : (fun j : Fin 6 => (EtherFrame.toBytes ⟨dst, src, proto⟩ ++ rest).getD j 0) = dst := by
    funext j
    fin_cases j <;> rfl
  have hsrc : (fun j : Fin 6 => (EtherFrame.toBytes ⟨dst, src, proto⟩ ++ rest).getD (6 + j) 0)
      = src := by
    funext j
    fin_cases j <;> rfl
  rw [EtherFrame.ofBytes, hdst, hsrc]
  rfl

theorem MipHeader.length_toBytes (h : MipHeader) : h.toBytes.length = 4 := rfl

theorem MipHeader.ofBytes_toBytes (h : MipHeader) (rest : List UInt8) :
    MipHeader.ofBytes (h.toBytes ++ rest) = h := by
  obtain ⟨tra, ttl, payloadLen, dst, src⟩ := h
  have htra := tra.isLt
  have httl := ttl.isLt
  have hlen := payloadLen.isLt
  have htake : (MipHeader.toBytes ⟨tra, ttl, payloadLen, dst, src⟩ ++ rest).take 2
      = leBytes 2 (tra.toNat + 8 * ttl.toNat + 128 * payloadLen.toNat) := rfl
  have hbits : ofLe (leBytes 2 (tra.toNat + 8 * ttl.toNat + 128 * payloadLen.toNat))
      = tra.toNat + 8 * ttl.toNat + 128 * payloadLen.toNat := by
    rw [ofLe_leBytes]
    exact Nat.mod_eq_of_lt (by omega)
  have h1 : BitVec.ofNat 3 (tra.toNat + 8 * ttl.toNat + 128 * payloadLen.toNat) = tra :=
    bitField_eq (by omega)
  have h2 : BitVec.ofNat 4 ((tra.toNat + 8 * ttl.toNat + 128 * payloadLen.toNat) / 8) = ttl :=
    bitField_eq (by omega)
  have h3 : BitVec.ofNat 9 ((tra.toNat + 8 * ttl.toNat + 128 * payloadLen.toNat) / 128)
      = payloadLen := bitField_eq (by omega)
  rw [MipHeader.ofBytes, htake, hbits, h1, h2, h3]
  rfl

/-! ## sending and receiving -/

def MIP_PACKAGE_MAX_SIZE : ℕ := 188
def SIZEOF_MIPPACKAGE : ℕ := 26

/-- `pointer` is the value of `package->message` -/
def sendtoRawMipPackage (pointer : Fin 8 → UInt8) (package : MIPPackage) : List UInt8 :=
  package.eFrame.toBytes ++ (package.mHeader.toBytes ++ (List.ofFn pointer ++
    package.message.takeD package.payloadBytes 0))

/-- what the receive buffer holds of a frame, and zeros behind it -/
def receiveBuffer (frame : List UInt8) : List UInt8 :=
  (frame.take MIP_PACKAGE_MAX_SIZE).takeD MIP_PACKAGE_MAX_SIZE 0

def receivedHeader (frame : List UInt8) : MipHeader := MipHeader.ofBytes ((receiveBuffer frame).drop 14)

/-- `rawPackage` is what can be read from the beginning of the receive buffer on; the payload is
copied into the message buffer of `package` -/
def parseRawPackage (rawPackage : List UInt8) (package : MIPPackage) : Except Fault MIPPackage :=
  let mHeader := MipHeader.ofBytes (rawPackage.drop 14)
  let payloadLenInBytes := mHeader.payloadLen.toNat * MIP_PAYLOAD_WORD
  if SIZEOF_MIPPACKAGE + payloadLenInBytes ≤ rawPackage.length ∧
      payloadLenInBytes ≤ package.message.length then
    .ok ⟨EtherFrame.ofBytes rawPackage, mHeader,
      (rawPackage.drop SIZEOF_MIPPACKAGE).take payloadLenInBytes ++
        package.message.drop payloadLenInBytes⟩
  else .error .outOfBounds

/-- the `frame` that waits on the socket, read into `package`, where only the receive buffer may be
read -/
def recvRawMipPackage (frame : List UInt8) (package : MIPPackage) : Except Fault MIPPackage :=
  parseRawPackage (receiveBuffer frame) package

/-- the heap behind the receive buffer -/
abbrev Behind := ℕ → UInt8

/-- as far as 1496 bytes of payload reach -/
def overread (behind : Behind) : List UInt8 := (List.range 1334).map behind

/-- the same where the heap goes on behind the receive buffer, with bytes that are not of the frame -/
def recvRawMipPackageIn (behind : Behind) (frame : List UInt8) (package : MIPPackage) :
    Except Fault MIPPackage := parseRawPackage (receiveBuffer frame ++ overread behind) package

def MIPPackage.createEmpty : Option MIPPackage :=
  MIPPackage.create ⟨fun _ => 0, fun _ => 0, (0, 0)⟩ ⟨0, 0, 0, 0, 0⟩
    (List.replicate (PAYLOAD_MAX_WORD_NUM * MIP_PAYLOAD_WORD) 0)

/-- a frame is received into the package of `MIPPackage_create_empty` -/
def receivePackage (behind : Behind) (frame : List UInt8) : Except Fault MIPPackage :=
  MIPPackage.createEmpty.elim (.error .errorExit) (recvRawMipPackageIn behind frame)

/-- what `sendto_raw_mip_package` puts into a frame: as many payload bytes as the header says -/
def MIPPackage.wire (p : MIPPackage) : MIPPackage :=
  { p with message := p.message.takeD p.payloadBytes 0 }

/-- the package made from a frame, whose message buffer is that of `MIPPackage_create_empty` -/
def MIPPackage.received (p : MIPPackage) : MIPPackage :=
  { p with message := p.message.takeD (PAYLOAD_MAX_WORD_NUM * MIP_PAYLOAD_WORD) 0 }

/-! ## what comes through -/

theorem MIPPackage.createEmpty_eq {package : MIPPackage}
    (h : MIPPackage.createEmpty = some package) : package.message = List.replicate 1496 0 := by
  have hsize : PAYLOAD_MAX_WORD_NUM * MIP_PAYLOAD_WORD = 1496 := rfl
  have hwords : calculateMipPayloadWords 1496 * MIP_PAYLOAD_WORD = 1496 := rfl
  have hlen : (List.replicate 1496 (0 : UInt8)).length = 1496 := List.length_replicate
  rw [createEmpty, hsize, MIPPackage.create_eq_some _ _ hlen.le] at h
  obtain rfl := Option.some.inj h
  have hself := takeD_length_self 0 (List.replicate 1496 (0 : UInt8))
  rw [hlen] at hself
  dsimp only
  rw [payload, hlen, hwords, hself]

theorem MIPPackage.exists_createEmpty : ∃ package, MIPPackage.createEmpty = some package :=
  ⟨_, MIPPackage.create_eq_some _ _ (by rw [List.length_replicate]; decide)⟩

-- its 1496 zeros are not to be computed
attribute [irreducible] MIPPackage.createEmpty

theorem takeD_sendto (pointer : Fin 8 → UInt8) (p : MIPPackage) (n : ℕ) :
    (sendtoRawMipPackage pointer p).takeD (26 + n) 0 =
      p.eFrame.toBytes ++ (p.mHeader.toBytes ++ (List.ofFn pointer ++
        (p.message.takeD p.payloadBytes 0).takeD n 0)) := by
  have hframe := p.eFrame.length_toBytes
  have hheader := p.mHeader.length_toBytes
  have hpointer : (List.ofFn pointer).length = 8 := List.length_ofFn
  have hsum : 26 + n = p.eFrame.toBytes.length + (p.mHeader.toBytes.length +
      ((List.ofFn pointer).length + n)) := by omega
  rw [hsum, sendtoRawMipPackage, takeD_append, takeD_append, takeD_append]

theorem length_receiveBuffer (frame : List UInt8) : (receiveBuffer frame).length = 188 :=
  List.takeD_length _ _ _

theorem receiveBuffer_sendto (pointer : Fin 8 → UInt8) (p : MIPPackage) :
    receiveBuffer (sendtoRawMipPackage pointer p) = p.eFrame.toBytes ++ (p.mHeader.toBytes ++
      (List.ofFn pointer ++ (p.message.takeD p.payloadBytes 0).takeD 162 0)) := by
  rw [receiveBuffer, takeD_take]
  exact takeD_sendto pointer p 162

/-- the header that was sent is received, whatever follows it -/
theorem receivedHeader_sendto (pointer : Fin 8 → UInt8) (p : MIPPackage) :
    receivedHeader (sendtoRawMipPackage pointer p) = p.mHeader := by
  rw [receivedHeader, receiveBuffer_sendto, List.drop_left' p.eFrame.length_toBytes,
    MipHeader.ofBytes_toBytes]

/-- **A frame of at most 40 words is received as it was sent**; the payload of a longer one is read
behind the 188 bytes that were received. -/
theorem recv_sendto (pointer : Fin 8 → UInt8) (p : MIPPackage) {package : MIPPackage}
    (he : MIPPackage.createEmpty = some package) :
    recvRawMipPackage (sendtoRawMipPackage pointer p) package =
      if p.payloadBytes ≤ 160 then .ok p.wire.received else .error .outOfBounds := by
  have hframe := p.eFrame.length_toBytes
  have hheader := p.mHeader.length_toBytes
  have hpointer : (List.ofFn pointer).length = 8 := List.length_ofFn
  have hraw := receiveBuffer_sendto pointer p
  have hempty := MIPPackage.createEmpty_eq he
  have hwords : p.payloadBytes = p.mHeader.payloadLen.toNat * 4 := rfl
  have hsize : (p.message.takeD p.payloadBytes 0).length = p.payloadBytes := List.takeD_length _ _ _
  rw [recvRawMipPackage, parseRawPackage, length_receiveBuffer, hraw, List.drop_left' hframe,
    MipHeader.ofBytes_toBytes, EtherFrame.ofBytes_toBytes, hempty, List.length_replicate]
  show (if 26 + p.payloadBytes ≤ 188 ∧ p.payloadBytes ≤ 1496 then _ else _) = _
  by_cases hfit : p.payloadBytes ≤ 160
  · rw [if_pos ⟨by omega, by omega⟩, if_pos hfit]
    have hdrop : (p.eFrame.toBytes ++ (p.mHeader.toBytes ++ (List.ofFn pointer ++
        (p.message.takeD p.payloadBytes 0).takeD 162 0))).drop SIZEOF_MIPPACKAGE
        = (p.message.takeD p.payloadBytes 0).takeD 162 0 := by
      rw [← List.append_assoc, ← List.append_assoc]
      exact List.drop_left' (by simp only [List.length_append, hframe, hheader, hpointer]; rfl)
    show Except.ok (MIPPackage.mk _ _
        (List.take p.payloadBytes _ ++ (List.replicate 1496 0).drop p.payloadBytes))
      = Except.ok (MIPPackage.mk _ _ ((p.message.takeD p.payloadBytes 0).takeD 1496 0))
    rw [hdrop, takeD_eq_append 0 _ (by omega : _ ≤ 162), takeD_eq_append 0 _ (by omega : _ ≤ 1496),
      hsize, List.take_left' hsize, List.drop_replicate]
    rfl
  · rw [if_neg (by omega), if_neg hfit]

/-! ## what is received in the memory of the daemon -/

theorem EtherFrame.ofBytes_append {bytes : List UInt8} (h : 14 ≤ bytes.length) (more : List UInt8) :
    EtherFrame.ofBytes (bytes ++ more) = EtherFrame.ofBytes bytes := by
  have hget : ∀ k < 14, (bytes ++ more).getD k 0 = bytes.getD k 0 := fun k hk =>
    List.getD_append _ _ _ _ (by omega)
  have hdst : ∀ j : Fin 6, (bytes ++ more).getD j 0 = bytes.getD j 0 := fun j => hget _ (by omega)
  have hsrc : ∀ j : Fin 6, (bytes ++ more).getD (6 + j) 0 = bytes.getD (6 + j) 0 :=
    fun j => hget _ (by omega)
  rw [EtherFrame.ofBytes, EtherFrame.ofBytes, hget 12 (by omega), hget 13 (by omega), funext hdst,
    funext hsrc]

theorem MipHeader.ofBytes_append {bytes : List UInt8} (h : 4 ≤ bytes.length) (more : List UInt8) :
    MipHeader.ofBytes (bytes ++ more) = MipHeader.ofBytes bytes := by
  rw [MipHeader.ofBytes, MipHeader.ofBytes, List.take_append_of_le_length (by omega),
    List.getD_append _ _ _ _ (by omega), List.getD_append _ _ _ _ (by omega)]

/-- what is behind the bytes that are read does not matter -/
theorem parseRawPackage_append {rawPackage : List UInt8} {package q : MIPPackage}
    (h : parseRawPackage rawPackage package = .ok q) (more : List UInt8) :
    parseRawPackage (rawPackage ++ more) package = .ok q := by
  unfold parseRawPackage at h
  dsimp only at h
  split at h
  · rename_i hfits
    obtain rfl := Except.ok.inj h
    have hlen : 26 + (MipHeader.ofBytes (rawPackage.drop 14)).payloadLen.toNat * MIP_PAYLOAD_WORD
        ≤ rawPackage.length := hfits.1
    have hheader : MipHeader.ofBytes ((rawPackage ++ more).drop 14)
        = MipHeader.ofBytes (rawPackage.drop 14) := by
      rw [List.drop_append_of_le_length (by omega),
        MipHeader.ofBytes_append (by rw [List.length_drop]; omega)]
    rw [parseRawPackage, hheader, EtherFrame.ofBytes_append (by omega), List.length_append,
      if_pos ⟨hfits.1.trans (Nat.le_add_right _ _), hfits.2⟩,
      List.drop_append_of_le_length ((Nat.le_add_right _ _).trans hfits.1),
      List.take_append_of_le_length (by rw [List.length_drop]; exact Nat.le_sub_of_add_le' hfits.1)]
  · cases h

theorem recvRawMipPackageIn_of_recv {frame : List UInt8} {package q : MIPPackage}
    (h : recvRawMipPackage frame package = .ok q) (behind : Behind) :
    recvRawMipPackageIn behind frame package = .ok q := parseRawPackage_append h _

/-- **A frame is received with its header** and the payload that is announced there, if these are
at most 374 words; otherwise the message buffer is too small. -/
theorem receivePackage_eq (behind : Behind) (frame : List UInt8) :
    receivePackage behind frame =
      if (receivedHeader frame).payloadLen.toNat ≤ PAYLOAD_MAX_WORD_NUM then
        .ok ⟨EtherFrame.ofBytes (receiveBuffer frame), receivedHeader frame,
          ((receiveBuffer frame ++ overread behind).drop SIZEOF_MIPPACKAGE).take
              ((receivedHeader frame).payloadLen.toNat * MIP_PAYLOAD_WORD) ++
            (List.replicate 1496 0).drop ((receivedHeader frame).payloadLen.toNat * MIP_PAYLOAD_WORD)⟩
      else .error .outOfBounds := by
  obtain ⟨package, hcreate⟩ := MIPPackage.exists_createEmpty
  have hempty := MIPPackage.createEmpty_eq hcreate
  have hlen := length_receiveBuffer frame
  have hheader : MipHeader.ofBytes ((receiveBuffer frame ++ overread behind).drop 14)
      = receivedHeader frame := by
    rw [List.drop_append_of_le_length (by omega),
      MipHeader.ofBytes_append (by rw [List.length_drop]; omega)]
    rfl
  have htotal : (receiveBuffer frame ++ overread behind).length = 1522 := by
    rw [List.length_append, overread, List.length_map, List.length_range, hlen]
  rw [receivePackage, hcreate, Option.elim_some, recvRawMipPackageIn, parseRawPackage, hheader,
    htotal, EtherFrame.ofBytes_append (by omega), hempty, List.length_replicate]
  have hfits : (SIZEOF_MIPPACKAGE + (receivedHeader frame).payloadLen.toNat * MIP_PAYLOAD_WORD ≤ 1522 ∧
      (receivedHeader frame).payloadLen.toNat * MIP_PAYLOAD_WORD ≤ 1496) ↔
      (receivedHeader frame).payloadLen.toNat ≤ PAYLOAD_MAX_WORD_NUM := by
    show (26 + _ * 4 ≤ 1522 ∧ _ * 4 ≤ 1496) ↔ _ ≤ 374
    omega
  exact if_congr hfits rfl rfl

theorem receivePackage_isOk_iff (behind : Behind) (frame : List UInt8) :
    (∃ p, receivePackage behind frame = .ok p) ↔
      (receivedHeader frame).payloadLen.toNat ≤ PAYLOAD_MAX_WORD_NUM := by
  rw [receivePackage_eq]
  split
  · exact iff_of_true ⟨_, rfl⟩ ‹_›
  · exact iff_of_false (fun h => nomatch h.choose_spec) ‹_›

theorem receivePackage_inv {behind : Behind} {frame : List UInt8} {p : MIPPackage}
    (h : receivePackage behind frame = .ok p) :
    p.eFrame = EtherFrame.ofBytes (receiveBuffer frame) ∧ p.mHeader = receivedHeader frame ∧
      (receivedHeader frame).payloadLen.toNat ≤ PAYLOAD_MAX_WORD_NUM := by
  have hfits := (receivePackage_isOk_iff behind frame).mp ⟨p, h⟩
  rw [receivePackage_eq, if_pos hfits] at h
  obtain rfl := Except.ok.inj h
  exact ⟨rfl, rfl, hfits⟩

/-- what was sent in at most 40 words is received, whatever is behind the receive buffer -/
theorem receivePackage_sendto (behind : Behind) (pointer : Fin 8 → UInt8) {p : MIPPackage}
    (h : p.payloadBytes ≤ 160) :
    receivePackage behind (sendtoRawMipPackage pointer p) = .ok p.wire.received := by
  obtain ⟨package, hcreate⟩ := MIPPackage.exists_createEmpty
  rw [receivePackage, hcreate, Option.elim_some]
  exact recvRawMipPackageIn_of_recv (by rw [recv_sendto pointer p hcreate, if_pos h]) behind

/-- **What is behind the receive buffer may happen to be what was sent**, so that a frame of up to
374 words is received intact. -/
theorem exists_receivePackage (pointer : Fin 8 → UInt8) {p : MIPPackage}
    (h : p.mHeader.payloadLen.toNat ≤ PAYLOAD_MAX_WORD_NUM) :
    ∃ behind, receivePackage behind (sendtoRawMipPackage pointer p) = .ok p.wire.received := by
  have hframe := p.eFrame.length_toBytes
  have hheader := p.mHeader.length_toBytes
  have hpointer : (List.ofFn pointer).length = 8 := List.length_ofFn
  have hsize : p.wire.message.length = p.payloadBytes := List.takeD_length _ _ _
  have hle : p.payloadBytes ≤ 1496 := Nat.mul_le_mul_right 4 h
  refine ⟨fun k => p.wire.message.getD (162 + k) 0, ?_⟩
  have hpayload : (receiveBuffer (sendtoRawMipPackage pointer p) ++
      overread fun k => p.wire.message.getD (162 + k) 0).drop SIZEOF_MIPPACKAGE
      = p.wire.message.takeD 1496 0 := by
    rw [receiveBuffer_sendto, ← takeD_append_range 0 p.wire.message 162 1334]
    simp only [← List.append_assoc]
    rw [List.append_assoc _ _ (overread _)]
    exact List.drop_left' (by simp only [List.length_append, hframe, hheader, hpointer]; rfl)
  rw [receivePackage_eq, receivedHeader_sendto, if_pos h, hpayload, receiveBuffer_sendto,
    EtherFrame.ofBytes_toBytes]
  show Except.ok (MIPPackage.mk _ _ ((p.wire.message.takeD 1496 0).take p.payloadBytes ++
      (List.replicate 1496 0).drop p.payloadBytes))
    = Except.ok (MIPPackage.mk _ _ (p.wire.message.takeD 1496 0))
  rw [takeD_eq_append 0 _ (hsize.trans_le hle), hsize, List.take_left' hsize, List.drop_replicate]
  rfl

theorem MIPPackage.create_inv {eFrame : EtherFrame} {mHeader : MipHeader} {message : List UInt8}
    {p : MIPPackage} (h : MIPPackage.create eFrame mHeader message = some p) :
    message.length ≤ 1496 ∧ p.message = payload message ∧
      p.payloadBytes = calculateMipPayloadWords message.length * 4 := by
  have hlen : message.length ≤ 1496 := by
    by_contra hlong
    have hwords : ¬ calculateMipPayloadWords message.length ≤ PAYLOAD_MAX_WORD_NUM := by
      unfold calculateMipPayloadWords MIP_PAYLOAD_WORD PAYLOAD_MAX_WORD_NUM
      dsimp only
      split <;> omega
    rw [MIPPackage.create, if_pos (by omega), createPayload] at h
    dsimp only at h
    rw [if_neg hwords] at h
    cases h
  rw [MIPPackage.create_eq_some _ _ hlen] at h
  obtain rfl := Option.some.inj h
  refine ⟨hlen, rfl, ?_⟩
  have hwords := calculateMipPayloadWords_le hlen
  show (BitVec.ofNat 9 _).toNat * 4 = _
  rw [BitVec.toNat_ofNat, Nat.mod_eq_of_lt (by omega)]

/-- **Exactly the messages of at most 160 bytes come through** with frame, header and payload. -/
theorem link_faithful_iff (pointer : Fin 8 → UInt8) {eFrame : EtherFrame} {mHeader : MipHeader}
    {message : List UInt8} {p package : MIPPackage}
    (h : MIPPackage.create eFrame mHeader message = some p)
    (he : MIPPackage.createEmpty = some package) :
    (∃ q, recvRawMipPackage (sendtoRawMipPackage pointer p) package = .ok q ∧
      q.eFrame = p.eFrame ∧ q.mHeader = p.mHeader ∧ q.message.take q.payloadBytes = payload message) ↔
      message.length ≤ 160 := by
  obtain ⟨hlen, hmessage, hbytes⟩ := MIPPackage.create_inv h
  have hfits : p.payloadBytes ≤ 160 ↔ message.length ≤ 160 := by
    rw [hbytes]
    unfold calculateMipPayloadWords MIP_PAYLOAD_WORD
    dsimp only
    split <;> omega
  have hpayload : (payload message).length = p.payloadBytes := by
    rw [hbytes]
    exact List.takeD_length _ _ _
  rw [recv_sendto pointer p he, ← hfits]
  constructor
  · intro hok
    obtain ⟨q, hq, _⟩ := hok
    by_contra hlong
    rw [if_neg hlong] at hq
    cases hq
  · intro hfit
    refine ⟨p.wire.received, if_pos hfit, rfl, rfl, ?_⟩
    have hsent : p.message.takeD p.payloadBytes 0 = payload message := by
      rw [hmessage, ← hpayload]
      exact takeD_length_self 0 _
    show ((p.message.takeD p.payloadBytes 0).takeD _ 0).take p.payloadBytes = _
    rw [hsent, takeD_eq_append 0 _ (by rw [hpayload]; exact hfit.trans (by decide)), ← hpayload]
    exact List.take_left' rfl

/-- a ping of four bytes -/
theorem link_faithful_ping : ∃ p package,
    MIPPackage.create ⟨ETH_BROADCAST_ADDR, fun _ => 1, (0x88, 0xB5)⟩ (createTransportMipHeader 10 20)
        [80, 73, 78, 71] = some p ∧ MIPPackage.createEmpty = some package ∧
    ∃ q, recvRawMipPackage (sendtoRawMipPackage (fun _ => 7) p) package = .ok q ∧
      q.eFrame = p.eFrame ∧ q.mHeader = p.mHeader ∧
        q.message.take q.payloadBytes = payload [80, 73, 78, 71] := by
  obtain ⟨package, hempty⟩ := MIPPackage.exists_createEmpty
  have hping : MIPPackage.create ⟨ETH_BROADCAST_ADDR, fun _ => 1, (0x88, 0xB5)⟩
      (createTransportMipHeader 10 20) [80, 73, 78, 71] = some _ :=
    MIPPackage.create_eq_some _ _ (by decide)
  exact ⟨_, _, hping, hempty, (link_faithful_iff (fun _ => 7) hping hempty).mpr (by decide)⟩

/-- **A route table does not come through**: its 514 bytes are more than a mipd receives. -/
theorem route_table_not_received :
    ¬ ∀ (pointer : Fin 8 → UInt8) (eFrame : EtherFrame) (mHeader : MipHeader) (message : List UInt8)
      (p package : MIPPackage), MIPPackage.create eFrame mHeader message = some p →
      MIPPackage.createEmpty = some package →
      ∃ q, recvRawMipPackage (sendtoRawMipPackage pointer p) package = .ok q ∧
        q.eFrame = p.eFrame ∧ q.mHeader = p.mHeader ∧
          q.message.take q.payloadBytes = payload message := by
  intro hall
  obtain ⟨package, hempty⟩ := MIPPackage.exists_createEmpty
  have hlen : (List.replicate 514 (0 : UInt8)).length ≤ 1496 := by
    rw [List.length_replicate]
    decide
  have htable := MIPPackage.create_eq_some ⟨ETH_BROADCAST_ADDR, fun _ => 1, (0x88, 0xB5)⟩
    { createTransportMipHeader 10 255 with tra := 2 } hlen
  obtain ⟨q, hq, _⟩ := hall (fun _ => 0) _ _ _ _ _ htable hempty
  rw [recv_sendto _ _ hempty, if_neg ?_] at hq
  · cases hq
  · rw [(MIPPackage.create_inv htable).2.2, List.length_replicate]
    decide

end MipStack
