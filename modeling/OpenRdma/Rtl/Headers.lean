import Mathlib.Data.BitVec

/-!
# Packet headers and table entries

The header fields the receive path reads, the classifications of operation codes, and the entries of
the tables of queue pair contexts and memory regions. Fields have the widths of the hardware.
-/

namespace OpenRdma.Rtl

/-! ## Operation codes -/

inductive TransType
  | rc | uc | rd | ud | cnp | xrc | dtldExtended
  | undefined
  deriving DecidableEq

def TransType.unpack (b : BitVec 3) : TransType :=
  [rc, uc, rd, ud, cnp, xrc, dtldExtended].getD b.toNat undefined

/-- The operations of the base transport header. -/
inductive RdmaOpCode
  | sendFirst | sendMiddle | sendLast | sendLastWithImmediate | sendOnly | sendOnlyWithImmediate
  | rdmaWriteFirst | rdmaWriteMiddle | rdmaWriteLast | rdmaWriteLastWithImmediate | rdmaWriteOnly
  | rdmaWriteOnlyWithImmediate | rdmaReadRequest | rdmaReadResponseFirst | rdmaReadResponseMiddle
  | rdmaReadResponseLast | rdmaReadResponseOnly | acknowledge | atomicAcknowledge | compareSwap
  | fetchAdd | resync | sendLastWithInvalidate | sendOnlyWithInvalidate
  | undefined
  deriving DecidableEq

namespace RdmaOpCode

def unpack (b : BitVec 5) : RdmaOpCode :=
  [sendFirst, sendMiddle, sendLast, sendLastWithImmediate, sendOnly, sendOnlyWithImmediate,
    rdmaWriteFirst, rdmaWriteMiddle, rdmaWriteLast, rdmaWriteLastWithImmediate, rdmaWriteOnly,
    rdmaWriteOnlyWithImmediate, rdmaReadRequest, rdmaReadResponseFirst, rdmaReadResponseMiddle,
    rdmaReadResponseLast, rdmaReadResponseOnly, acknowledge, atomicAcknowledge, compareSwap,
    fetchAdd, resync, sendLastWithInvalidate, sendOnlyWithInvalidate].getD b.toNat undefined

/-- A response whose payload is written to memory. -/
def rdmaRespNeedDmaWrite : RdmaOpCode → Bool
  | rdmaReadResponseFirst | rdmaReadResponseMiddle | rdmaReadResponseLast | rdmaReadResponseOnly
  | atomicAcknowledge => true
  | _ => false

/-- A request whose payload is written to memory. -/
def rdmaReqNeedDmaWrite : RdmaOpCode → Bool
  | sendFirst | sendMiddle | sendLast | sendLastWithImmediate | sendOnly | sendOnlyWithImmediate
  | rdmaWriteFirst | rdmaWriteMiddle | rdmaWriteLast | rdmaWriteOnly | rdmaWriteLastWithImmediate
  | rdmaWriteOnlyWithImmediate => true
  | _ => false

def isSendReqRdmaOpCode : RdmaOpCode → Bool
  | sendFirst | sendMiddle | sendLast | sendLastWithImmediate | sendOnly | sendOnlyWithImmediate
  | sendLastWithInvalidate | sendOnlyWithInvalidate => true
  | _ => false

def isWriteReqRdmaOpCode : RdmaOpCode → Bool
  | rdmaWriteFirst | rdmaWriteMiddle | rdmaWriteLast | rdmaWriteLastWithImmediate | rdmaWriteOnly
  | rdmaWriteOnlyWithImmediate => true
  | _ => false

def isReadReqRdmaOpCode : RdmaOpCode → Bool
  | rdmaReadRequest => true
  | _ => false

def isAtomicReqRdmaOpCode : RdmaOpCode → Bool
  | compareSwap | fetchAdd => true
  | _ => false

def isReadRespRdmaOpCode : RdmaOpCode → Bool
  | rdmaReadResponseFirst | rdmaReadResponseMiddle | rdmaReadResponseLast | rdmaReadResponseOnly =>
    true
  | _ => false

/-- The first packet of several. -/
def isFirstRdmaOpCode : RdmaOpCode → Bool
  | sendFirst | rdmaWriteFirst | rdmaReadResponseFirst => true
  | _ => false

/-- The only packet of a message, with immediate data. -/
def isOnlyWithImm : RdmaOpCode → Bool
  | sendOnlyWithImmediate | rdmaWriteOnlyWithImmediate => true
  | _ => false

/-- The packet has a payload. -/
def rdmaOpCodeHasPayload : RdmaOpCode → Bool
  | sendFirst | sendMiddle | sendLast | sendOnly | sendLastWithImmediate | sendOnlyWithImmediate
  | sendLastWithInvalidate | sendOnlyWithInvalidate
  | rdmaWriteFirst | rdmaWriteMiddle | rdmaWriteLast | rdmaWriteOnly | rdmaWriteLastWithImmediate
  | rdmaWriteOnlyWithImmediate
  | rdmaReadResponseFirst | rdmaReadResponseMiddle | rdmaReadResponseLast | rdmaReadResponseOnly =>
    true
  | _ => false

end RdmaOpCode

/-! ## Headers -/

/-- The base transport header. -/
structure Bth where
  trans : TransType
  opcode : RdmaOpCode
  solicited : Bool
  isRetry : Bool
  msn : BitVec 16
  dqpn : BitVec 24
  ackReq : Bool
  psn : BitVec 24
  deriving DecidableEq

def Bth.unpack (b : BitVec 96) : Bth where
  trans := .unpack (b.extractLsb' 93 3)
  opcode := .unpack (b.extractLsb' 88 5)
  solicited := b.getLsbD 87
  isRetry := b.getLsbD 86
  msn := b.extractLsb' 64 16
  dqpn := b.extractLsb' 32 24
  ackReq := b.getLsbD 31
  psn := b.extractLsb' 0 24

/-- The extended header of a request: where the payload goes. -/
structure Reth where
  va : BitVec 64
  rkey : BitVec 32
  dlen : BitVec 32
  deriving DecidableEq

def Reth.unpack (b : BitVec 128) : Reth where
  va := b.extractLsb' 64 64
  rkey := b.extractLsb' 32 32
  dlen := b.extractLsb' 0 32

/-- The second extended header of a read request: where the response goes. -/
structure Rreth where
  va : BitVec 64
  lkey : BitVec 32
  deriving DecidableEq

abbrev RdmaExtendHeaderBuffer := BitVec 336

/-- The first extended header. That of the `xrc` transport comes after another header. -/
def extractPriRETH (extendHeaderBuffer : RdmaExtendHeaderBuffer) (transType : TransType) : Reth :=
  match transType with
  | .xrc => .unpack (extendHeaderBuffer.extractLsb' 176 128)
  | _ => .unpack (extendHeaderBuffer.extractLsb' 208 128)

def extractRRETH (extendHeaderBuffer : RdmaExtendHeaderBuffer) (transType : TransType)
    (opcode : RdmaOpCode) : Rreth :=
  match transType, opcode with
  | .xrc, _ => ⟨extendHeaderBuffer.extractLsb' 112 64, extendHeaderBuffer.extractLsb' 80 32⟩
  | _, .rdmaReadRequest =>
    ⟨extendHeaderBuffer.extractLsb' 144 64, extendHeaderBuffer.extractLsb' 112 32⟩
  | _, _ => ⟨0, 0⟩

/-- The headers of a received packet. -/
structure RdmaRecvPacketMeta where
  bth : Bth
  rdmaExtendHeaderBuf : RdmaExtendHeaderBuffer
  hasPayload : Bool
  isEcnMarked : Bool
  deriving DecidableEq

def RdmaRecvPacketMeta.reth (m : RdmaRecvPacketMeta) : Reth :=
  extractPriRETH m.rdmaExtendHeaderBuf m.bth.trans

/-! ## Tables -/

/-- What a queue pair or a memory region allows. -/
inductive MemAccessTypeFlag
  | localWrite | remoteWrite | remoteRead | remoteAtomic
  deriving DecidableEq

/-- The bit of a flag. -/
def MemAccessTypeFlag.pack : MemAccessTypeFlag → BitVec 8
  | localWrite => 1
  | remoteWrite => 2
  | remoteRead => 4
  | remoteAtomic => 8

def containAccessTypeFlag (flags : BitVec 8) (flag : MemAccessTypeFlag) : Bool :=
  flags &&& flag.pack ≠ 0

def maxQp : ℕ := 1024

def maxMr : ℕ := 8192

/-- The key part of a queue pair number. -/
def getKeyQP (qpn : BitVec 24) : BitVec 8 := qpn.setWidth 8

/-- The index part of a queue pair number. -/
def getQpnRawIndexPart (qpn : BitVec 24) : BitVec 16 := qpn.extractLsb' 8 16

/-- The index of a queue pair in its table. -/
def getIndexQP (qpn : BitVec 24) : BitVec 10 := (getQpnRawIndexPart qpn).setWidth 10

/-- The key part of a memory key. -/
def rkey2KeyPartMR (rkey : BitVec 32) : BitVec 8 := rkey.setWidth 8

/-- The index part of a memory key. -/
def getMrRawIndexPartFromRkey (rkey : BitVec 32) : BitVec 24 := rkey.extractLsb' 8 24

/-- The index of a memory region in its table. -/
def rkey2IndexMR (rkey : BitVec 32) : BitVec 13 := (getMrRawIndexPartFromRkey rkey).setWidth 13

/-- An entry of the table of memory regions. -/
structure MemRegionTableEntry where
  pgtOffset : BitVec 17
  baseVA : BitVec 64
  len : BitVec 32
  accFlags : BitVec 8
  keyPart : BitVec 8
  deriving DecidableEq, Inhabited

/-- An entry of the table of queue pairs. -/
structure EntryQPC where
  qpnKeyPart : BitVec 8
  rqAccessFlags : BitVec 8
  pmtu : BitVec 3
  peerQPN : BitVec 24
  peerMacAddr : BitVec 48
  peerIpAddr : BitVec 32
  localUdpPort : BitVec 16
  deriving DecidableEq, Inhabited

/-- The binary logarithm of the path MTU in bytes. -/
def getPmtuSizeByPmtuEnum (pmtu : BitVec 3) : BitVec 4 := pmtu.setWidth 4 + 7

/-- The tables of the card. -/
structure Tables where
  qpc : BitVec 10 → Option EntryQPC
  mr : BitVec 13 → Option MemRegionTableEntry

namespace Tables

/-- The answer to a query for a queue pair, with the key checked. -/
def queryQpc (t : Tables) (qpn : BitVec 24) : Option EntryQPC :=
  (t.qpc (getIndexQP qpn)).filter fun qpc => qpc.qpnKeyPart == getKeyQP qpn

end Tables

/-! ## The status of a packet -/

/-- The results of the checks. -/
inductive RdmaRecvPacketStatus
  | normal | invalidQpAccessFlag | invalidOpcode | invalidMrKey | memAccessOutOfBound
  | invalidMrAccessFlag | invalidHeader | invalidQpContext | corruptPktLength | qpIdxOverflow
  | mrIdxOverflow | unknown
  deriving DecidableEq

namespace RdmaRecvPacketStatus

def pack : RdmaRecvPacketStatus → BitVec 8
  | normal => 0
  | invalidQpAccessFlag => 128
  | invalidOpcode => 129
  | invalidMrKey => 130
  | memAccessOutOfBound => 131
  | invalidMrAccessFlag => 132
  | invalidHeader => 133
  | invalidQpContext => 134
  | corruptPktLength => 135
  | qpIdxOverflow => 136
  | mrIdxOverflow => 137
  | unknown => 255

/-- The highest bit of the code says that there is an error. -/
def isRecvPacketStatusNormal (status : RdmaRecvPacketStatus) : Bool := !status.pack.msb

theorem isRecvPacketStatusNormal_iff {status : RdmaRecvPacketStatus} :
    status.isRecvPacketStatusNormal ↔ status = normal := by
  cases status <;> decide

end RdmaRecvPacketStatus

end OpenRdma.Rtl
