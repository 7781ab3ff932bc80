import OpenRdma.Rtl.Headers

/-!
# Descriptors of the meta report queue

What the card writes into the meta report ring: the headers of received packets, and
acknowledgements with their bitmaps. A descriptor is a record of its fields; reserved fields and the
valid bit, which is always set, are left out.
-/

namespace OpenRdma.Rtl

open BitVec

/-! ## Acknowledgement headers -/

/-- The header of acknowledgements, with two bitmaps. -/
structure Aeth where
  preBitmap : BitVec 128
  newBitmap : BitVec 128
  isPacketLost : Bool
  isWindowSlided : Bool
  isSendByDriver : Bool
  preBitmapPsn : BitVec 24
  deriving DecidableEq

namespace Aeth

def pack (h : Aeth) : BitVec 288 :=
  h.preBitmap ++ (h.newBitmap ++ (BitVec.ofBool h.isPacketLost ++ (BitVec.ofBool h.isWindowSlided ++
    (BitVec.ofBool h.isSendByDriver ++ (0#5 ++ h.preBitmapPsn)))))

def unpack (b : BitVec 288) : Aeth where
  preBitmap := b.extractLsb' 160 128
  newBitmap := b.extractLsb' 32 128
  isPacketLost := b.getLsbD 31
  isWindowSlided := b.getLsbD 30
  isSendByDriver := b.getLsbD 29
  preBitmapPsn := b.extractLsb' 0 24

theorem unpack_pack (h : Aeth) : unpack h.pack = h := by
  unfold unpack pack
  congr 1
  · rw [extractLsb'_append_eq_of_le (by decide)]
    exact extractLsb'_eq_self
  · rw [extractLsb'_append_eq_of_add_le (by decide), extractLsb'_append_eq_of_le (by decide)]
    exact extractLsb'_eq_self
  · simp only [getLsbD_append]
    simp
  · simp only [getLsbD_append]
    simp
  · simp only [getLsbD_append]
    simp
  · repeat rw [extractLsb'_append_eq_of_add_le (by decide)]
    exact extractLsb'_eq_self

end Aeth

/-- The buffer of extended headers with the header in its highest bits. -/
def buildRdmaExtendHeaderBuffer (header : BitVec 288) : RdmaExtendHeaderBuffer := header ++ 0#48

def extractAETH (extendHeaderBuffer : RdmaExtendHeaderBuffer) : Aeth :=
  .unpack (extendHeaderBuffer.extractLsb' 48 288)

theorem extractAETH_build (h : Aeth) : extractAETH (buildRdmaExtendHeaderBuffer h.pack) = h := by
  rw [extractAETH, buildRdmaExtendHeaderBuffer, extractLsb'_append_eq_of_le le_rfl, Nat.sub_self,
    extractLsb'_eq_self, Aeth.unpack_pack]

def extractImmDt (extendHeaderBuffer : RdmaExtendHeaderBuffer) (transType : TransType) :
    BitVec 32 :=
  match transType with
  | .xrc => extendHeaderBuffer.extractLsb' 144 32
  | _ => extendHeaderBuffer.extractLsb' 176 32

/-! ## Descriptors -/

structure RingbufDescCommonHead where
  hasNextFrag : Bool
  trans : TransType
  opcode : RdmaOpCode
  deriving DecidableEq

/-- The header of a received packet. -/
structure MetaReportQueuePacketBasicInfoDesc where
  commonHeader : RingbufDescCommonHead
  msn : BitVec 16
  psn : BitVec 24
  ecnMarked : Bool
  solicited : Bool
  ackReq : Bool
  isRetry : Bool
  dqpn : BitVec 24
  totalLen : BitVec 32
  raddr : BitVec 64
  rkey : BitVec 32
  immData : BitVec 32
  deriving DecidableEq

/-- The second part of a read request. -/
structure MetaReportQueueReadReqExtendInfoDesc where
  commonHeader : RingbufDescCommonHead
  totalLen : BitVec 32
  laddr : BitVec 64
  lkey : BitVec 32
  deriving DecidableEq

/-- The first descriptor of an acknowledgement. -/
structure MetaReportQueueAckDesc where
  commonHeader : RingbufDescCommonHead
  isSendByLocalHw : Bool
  isSendByDriver : Bool
  isWindowSlided : Bool
  isPacketLost : Bool
  psnBeforeSlide : BitVec 24
  psnNow : BitVec 24
  qpn : BitVec 24
  msn : BitVec 16
  nowBitmap : BitVec 128
  deriving DecidableEq

/-- The second part of an acknowledgement. -/
structure MetaReportQueueAckExtraDesc where
  commonHeader : RingbufDescCommonHead
  preBitmap : BitVec 128
  deriving DecidableEq

/-- A descriptor in the ring. -/
inductive RingbufRawDescriptor
  | packetBasicInfo (desc : MetaReportQueuePacketBasicInfoDesc)
  | readReqExtendInfo (desc : MetaReportQueueReadReqExtendInfoDesc)
  | ack (desc : MetaReportQueueAckDesc)
  | ackExtra (desc : MetaReportQueueAckExtraDesc)
  deriving DecidableEq

/-- The number of a queue pair of its index and key. -/
def genQPN (qpIndex : BitVec 10) (qpKey : BitVec 8) : BitVec 24 := (qpIndex ++ qpKey).setWidth 24

/-- The sequence number of the first packet of a stride. -/
def stridePsn (leftBound : BitVec 20) : BitVec 24 := leftBound ++ 0#4

/-! ## The report of a received packet -/

namespace RdmaRecvPacketMeta

/-- The head of the descriptors of a packet. -/
def commonHeader (m : RdmaRecvPacketMeta) : RingbufDescCommonHead where
  hasNextFrag := false
  trans := m.bth.trans
  opcode := m.bth.opcode

/-- The header of the packet as a descriptor. The source leaves `ecnMarked` open. -/
def basicInfoDesc (ecnMarked : Bool) (m : RdmaRecvPacketMeta) :
    MetaReportQueuePacketBasicInfoDesc where
  commonHeader := m.commonHeader
  msn := m.bth.msn
  psn := m.bth.psn
  ecnMarked := ecnMarked
  solicited := m.bth.solicited
  ackReq := m.bth.ackReq
  isRetry := m.bth.isRetry
  dqpn := m.bth.dqpn
  totalLen := m.reth.dlen
  raddr := m.reth.va
  rkey := m.reth.rkey
  immData := extractImmDt m.rdmaExtendHeaderBuf m.bth.trans

/-- The second descriptor of a read request. -/
def readReqExtendInfoDesc (m : RdmaRecvPacketMeta) : MetaReportQueueReadReqExtendInfoDesc :=
  let rreth := extractRRETH m.rdmaExtendHeaderBuf m.bth.trans m.bth.opcode
  { commonHeader := m.commonHeader
    totalLen := m.reth.dlen
    laddr := rreth.va
    lkey := rreth.lkey }

/-- The acknowledgement of the peer as a descriptor. -/
def ackDesc (m : RdmaRecvPacketMeta) : MetaReportQueueAckDesc :=
  let aeth := extractAETH m.rdmaExtendHeaderBuf
  { commonHeader := { m.commonHeader with hasNextFrag := aeth.isWindowSlided }
    isSendByLocalHw := false
    isSendByDriver := aeth.isSendByDriver
    isWindowSlided := aeth.isWindowSlided
    isPacketLost := aeth.isPacketLost
    psnBeforeSlide := aeth.preBitmapPsn
    psnNow := m.bth.psn
    qpn := m.bth.dqpn
    msn := m.bth.msn
    nowBitmap := aeth.newBitmap }

/-- The descriptors of a packet; `none` if it is not supported. Of packets in the middle of a
message only those sent again are reported. -/
def genDescVector (ecnMarked : Bool) (m : RdmaRecvPacketMeta) :
    Option (List RingbufRawDescriptor) :=
  match m.bth.trans, m.bth.opcode with
  | .rc, .sendFirst | .rc, .sendLast | .rc, .sendLastWithImmediate | .rc, .sendOnly
  | .rc, .sendOnlyWithImmediate | .rc, .rdmaWriteFirst | .rc, .rdmaWriteLast
  | .rc, .rdmaWriteLastWithImmediate | .rc, .rdmaWriteOnly | .rc, .rdmaWriteOnlyWithImmediate
  | .rc, .rdmaReadResponseFirst | .rc, .rdmaReadResponseLast | .rc, .rdmaReadResponseOnly =>
    some [.packetBasicInfo (m.basicInfoDesc ecnMarked)]
  | .rc, .rdmaReadRequest =>
    some [.packetBasicInfo
      { m.basicInfoDesc ecnMarked with
        commonHeader := { m.commonHeader with hasNextFrag := true } },
      .readReqExtendInfo m.readReqExtendInfoDesc]
  | .rc, .sendMiddle | .rc, .rdmaWriteMiddle | .rc, .rdmaReadResponseMiddle =>
    if m.bth.isRetry then some [.packetBasicInfo (m.basicInfoDesc ecnMarked)] else some []
  | .rc, .acknowledge =>
    if (extractAETH m.rdmaExtendHeaderBuf).isWindowSlided then
      some [.ack m.ackDesc,
        .ackExtra ⟨m.commonHeader, (extractAETH m.rdmaExtendHeaderBuf).preBitmap⟩]
    else some [.ack m.ackDesc]
  | _, _ => none

end RdmaRecvPacketMeta

end OpenRdma.Rtl
