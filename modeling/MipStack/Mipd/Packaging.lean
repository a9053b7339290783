import MipStack.Commons.Definitions
import MipStack.Library.Bytes

/-!
# Ethernet frames, MIP headers and MIP packages (`ether_frame.c`, `mip_header.c`, `mip_package.c`)

* `MipHeader`       the bit fields have 3, 4 and 9 bits;
* `MIPPackage`      frame, header and the bytes behind the `message` pointer (none for `NULL`);
* `Layout`          where the MAC addresses that are passed as pointers lie in memory: the first six
                    bytes of the pointer, which `create_transport_ethernet_frame` copies instead of
                    the address itself;
* `MIPPackage.create`, `.createRaw`   the constructors, `none` for a payload above 374 words.
-/

namespace MipStack
open Library

abbrev MacAddress := Fin 6 → UInt8

def ETH_BROADCAST_ADDR : MacAddress := fun _ => 0xff

/-- the MAC addresses handed to `MIPPackage_create_raw` by pointer -/
inductive MacObject
  /-- the `interface` field of the record at this position of the interface table -/
  | interface (pos : ℕ)
  /-- the local array `ether_broadcast_address` -/
  | etherBroadcast
  /-- the source address in the received package -/
  | receivedSource
  /-- the local array `default_mac` -/
  | defaultMac
  deriving DecidableEq, Repr

/-- the first six bytes of the pointer to each object -/
abbrev Layout := MacObject → MacAddress

structure EtherFrame where
  dstAddr : MacAddress
  srcAddr : MacAddress
  ethProto : UInt8 × UInt8
  deriving DecidableEq

structure MipHeader where
  tra : BitVec 3
  ttl : BitVec 4
  payloadLen : BitVec 9
  dstAddr : MIPAddress
  srcAddr : MIPAddress
  deriving DecidableEq

structure MIPPackage where
  eFrame : EtherFrame
  mHeader : MipHeader
  message : List UInt8
  deriving DecidableEq

def PAYLOAD_MAX_WORD_NUM : ℕ := 374
def MIP_PAYLOAD_WORD : ℕ := 4

/-! ## constructors -/

/-- copies the two pointers, not what they point to -/
def createTransportEthernetFrame (layout : Layout) (src dest : MacObject) : EtherFrame :=
  ⟨layout dest, layout src, (0x88, 0xB5)⟩

def createEthernetFrame (dest soName : MacAddress) : EtherFrame := ⟨dest, soName, (0x88, 0xB5)⟩

def createEthernetArpFrameFromMacAddrs (macAddress : MacAddress) : EtherFrame :=
  ⟨ETH_BROADCAST_ADDR, macAddress, (0x88, 0xB5)⟩

def createArpRequestMipHeader (srcAddr : MIPAddress) : MipHeader := ⟨1, 15, 0, 255, srcAddr⟩

def createTransportMipHeader (srcAddr destAddr : MIPAddress) : MipHeader :=
  { createArpRequestMipHeader srcAddr with tra := 3, dstAddr := destAddr }

def calculateMipPayloadWords (messageSize : ℕ) : ℕ :=
  let numberOfWords := messageSize / MIP_PAYLOAD_WORD
  if messageSize % MIP_PAYLOAD_WORD ≠ 0 then numberOfWords + 1 else numberOfWords

/-- the message followed by zeros up to a whole number of words -/
def payload (message : List UInt8) : List UInt8 :=
  message.takeD (calculateMipPayloadWords message.length * MIP_PAYLOAD_WORD) 0

def createPayload (package : MIPPackage) (message : List UInt8) : Option MIPPackage :=
  let words := calculateMipPayloadWords message.length
  if words ≤ PAYLOAD_MAX_WORD_NUM then
    some { package with
      message := payload message
      mHeader := { package.mHeader with payloadLen := BitVec.ofNat 9 words } }
  else none

def MIPPackage.create (eFrame : EtherFrame) (mHeader : MipHeader) (message : List UInt8) :
    Option MIPPackage :=
  let newPackage : MIPPackage := ⟨eFrame, { mHeader with payloadLen := 0 }, []⟩
  if message.length > 0 then createPayload newPackage message else some newPackage

def MIPPackage.createRaw (layout : Layout) (srcMip : MIPAddress) (srcMac : MacObject)
    (dstMip : MIPAddress) (dstMac : MacObject) (message : List UInt8) (tra : UInt8) :
    Option MIPPackage :=
  if tra < 5 then
    MIPPackage.create (createTransportEthernetFrame layout srcMac dstMac)
      { createTransportMipHeader srcMip dstMip with tra := BitVec.ofNat 3 tra.toNat } message
  else none

def MIPPackage.createMipArpRequestPacket (srcMip : MIPAddress) (srcMac : MacAddress) :
    Option MIPPackage :=
  MIPPackage.create (createEthernetArpFrameFromMacAddrs srcMac) (createArpRequestMipHeader srcMip) []

def MIPPackage.payloadBytes (p : MIPPackage) : ℕ := p.mHeader.payloadLen.toNat * MIP_PAYLOAD_WORD

/-- a transport package with all its hops ahead -/
def MIPPackage.transport (eFrame : EtherFrame) (srcAddr dstAddr : MIPAddress)
    (message : List UInt8) : MIPPackage :=
  ⟨eFrame, ⟨3, 15, BitVec.ofNat 9 (calculateMipPayloadWords message.length), dstAddr, srcAddr⟩,
    payload message⟩

/-! ## one lemma for each constructor -/

theorem calculateMipPayloadWords_le {n : ℕ} (h : n ≤ 1496) : calculateMipPayloadWords n ≤ 374 := by
  unfold calculateMipPayloadWords MIP_PAYLOAD_WORD
  dsimp only
  split <;> omega

theorem takeD_payload (message : List UInt8) :
    (payload message).takeD message.length 0 = message := by
  have hle : message.length ≤ calculateMipPayloadWords message.length * MIP_PAYLOAD_WORD := by
    unfold calculateMipPayloadWords MIP_PAYLOAD_WORD
    dsimp only
    split <;> omega
  rw [payload, takeD_takeD 0 message hle, takeD_length_self]

theorem payload_inj {message message' : List UInt8} (hlen : message.length = message'.length) :
    payload message = payload message' ↔ message = message' := by
  refine ⟨fun h => ?_, fun h => h ▸ rfl⟩
  rw [← takeD_payload message, h, hlen, takeD_payload]

/-- **A package of at most 1496 bytes can be made**: it has the given frame and header, up to the
payload length, and the message padded with zeros. -/
theorem MIPPackage.create_eq_some (eFrame : EtherFrame) (mHeader : MipHeader)
    {message : List UInt8} (h : message.length ≤ 1496) :
    MIPPackage.create eFrame mHeader message = some ⟨eFrame,
      { mHeader with payloadLen := BitVec.ofNat 9 (calculateMipPayloadWords message.length) },
      payload message⟩ := by
  unfold MIPPackage.create
  split
  · have hw : calculateMipPayloadWords message.length ≤ PAYLOAD_MAX_WORD_NUM :=
      calculateMipPayloadWords_le h
    simp only [createPayload]
    rw [if_pos hw]
  · have h0 : message = [] := List.eq_nil_of_length_eq_zero (by omega)
    subst h0
    rfl

theorem MIPPackage.create_transport (eFrame : EtherFrame) (srcAddr dstAddr : MIPAddress)
    {message : List UInt8} (h : message.length ≤ 1496) :
    MIPPackage.create eFrame (createTransportMipHeader srcAddr dstAddr) message
      = some (MIPPackage.transport eFrame srcAddr dstAddr message) :=
  MIPPackage.create_eq_some _ _ h

theorem MIPPackage.createRaw_eq_some (layout : Layout) (srcMip : MIPAddress) (srcMac : MacObject)
    (dstMip : MIPAddress) (dstMac : MacObject) {message : List UInt8} {tra : UInt8} (ht : tra < 5)
    (h : message.length ≤ 1496) :
    MIPPackage.createRaw layout srcMip srcMac dstMip dstMac message tra = some
      ⟨createTransportEthernetFrame layout srcMac dstMac,
        ⟨BitVec.ofNat 3 tra.toNat, 15, BitVec.ofNat 9 (calculateMipPayloadWords message.length),
          dstMip, srcMip⟩, payload message⟩ := by
  rw [MIPPackage.createRaw, if_pos ht]
  exact MIPPackage.create_eq_some _ _ h

end MipStack
