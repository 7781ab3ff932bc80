import OpenRdma.Driver.Descriptors
import OpenRdma.Driver.PostSend
import OpenRdma.Link.PacketGen
import OpenRdma.Rtl.Ringbuf

/-!
# The descriptors of the send ring

The driver writes two descriptors for a chunk, and the parser of the card makes one work queue
element of them. `forwardSQ_descs` says which one: every field is the one of the chunk, cut to the
width it has in the card, and the flag that enables marks of congestion is off, as the parser does
not copy it.
-/

namespace OpenRdma.Driver

namespace WorkReqOpCode

def unpack (b : BitVec 4) : WorkReqOpCode :=
  [rdmaWrite, rdmaWriteWithImm, send, sendWithImm, rdmaRead, atomicCmpAndSwp, atomicFetchAndAdd,
    localInv, bindMw, sendWithInv, tso, driver1, rdmaReadResp, rdmaAck, flush, atomicWrite].getD
    b.toNat atomicWrite

def hasImmDt : WorkReqOpCode → Bool
  | rdmaWriteWithImm | sendWithImm => true
  | _ => false

def hasInv (op : WorkReqOpCode) : Bool := op = sendWithInv

end WorkReqOpCode

end OpenRdma.Driver

namespace OpenRdma.Rtl

open OpenRdma.Driver

structure SendQueueReqDescSeg0 where
  opCode : BitVec 8
  msn : BitVec 16
  totalLen : BitVec 32
  rkey : BitVec 32
  dqpIP : BitVec 32
  raddr : BitVec 64
  psn : BitVec 24
  qpType : BitVec 4
  dqpn : BitVec 24
  flags : BitVec 5

def SendQueueReqDescSeg0.widths : List ℕ := [16, 16, 32, 32, 32, 64, 24, 4, 4, 24, 5, 3]

def SendQueueReqDescSeg0.unpack (b : RawDesc) : SendQueueReqDescSeg0 where
  opCode := b.opCode
  msn := b.extractLsb' (fieldPos widths 1) 16
  totalLen := b.extractLsb' (fieldPos widths 2) 32
  rkey := b.extractLsb' (fieldPos widths 3) 32
  dqpIP := b.extractLsb' (fieldPos widths 4) 32
  raddr := b.extractLsb' (fieldPos widths 5) 64
  psn := b.extractLsb' (fieldPos widths 6) 24
  qpType := b.extractLsb' (fieldPos widths 7) 4
  dqpn := b.extractLsb' (fieldPos widths 9) 24
  flags := b.extractLsb' (fieldPos widths 10) 5

structure SendQueueReqDescSeg1 where
  pmtu : BitVec 3
  isFirst : Bool
  isLast : Bool
  isRetry : Bool
  enableEcn : Bool
  sqpnLow8Bits : BitVec 8
  imm : BitVec 32
  macAddr : BitVec 48
  sqpnHigh16Bits : BitVec 16
  lkey : BitVec 32
  len : BitVec 32
  laddr : BitVec 64

def SendQueueReqDescSeg1.widths : List ℕ := [16, 3, 1, 1, 1, 1, 1, 8, 32, 48, 16, 32, 32, 64]

def SendQueueReqDescSeg1.unpack (b : RawDesc) : SendQueueReqDescSeg1 where
  pmtu := b.extractLsb' (fieldPos widths 1) 3
  isFirst := b.getLsbD (fieldPos widths 2)
  isLast := b.getLsbD (fieldPos widths 3)
  isRetry := b.getLsbD (fieldPos widths 4)
  enableEcn := b.getLsbD (fieldPos widths 5)
  sqpnLow8Bits := b.extractLsb' (fieldPos widths 7) 8
  imm := b.extractLsb' (fieldPos widths 8) 32
  macAddr := b.extractLsb' (fieldPos widths 9) 48
  sqpnHigh16Bits := b.extractLsb' (fieldPos widths 10) 16
  lkey := b.extractLsb' (fieldPos widths 11) 32
  len := b.extractLsb' (fieldPos widths 12) 32
  laddr := b.extractLsb' (fieldPos widths 13) 64

/-- The field `immDtOrInvRKey` by the operation code. -/
def immOrInv (op : WorkReqOpCode) (imm : BitVec 32) : Option ImmOrRKey :=
  if op.hasImmDt || op.hasInv then some (if op.hasImmDt then .imm imm else .rkey imm) else none

end OpenRdma.Rtl

namespace OpenRdma.Link

open OpenRdma.Driver OpenRdma.Rtl Layout

variable {d : Desc} {k off w v : ℕ}

/-- The bits of a descriptor in memory. -/
def image (d : Desc) : RawDesc := rawDesc d.serialize

end OpenRdma.Link

namespace OpenRdma.Driver.WrChunk

open OpenRdma.Rtl OpenRdma.Link

/-- The work queue element of a chunk: its fields cut to their widths in the card. -/
def wqe (c : WrChunk) : WorkQueueElem where
  msn := BitVec.ofNat 16 c.msn.inner
  opcode := c.opcode
  flags := BitVec.ofNat 5 c.flags
  qpType := BitVec.ofNat 4 c.qpType
  psn := BitVec.ofNat 24 c.psn.inner
  pmtu := BitVec.ofNat 3 c.pmtu
  dqpIP := BitVec.ofNat 32 c.dqpIp
  macAddr := BitVec.ofNat 48 c.macAddr
  laddr := BitVec.ofNat 64 c.laddr
  lkey := BitVec.ofNat 32 c.lkey
  raddr := BitVec.ofNat 64 c.raddr
  rkey := BitVec.ofNat 32 c.rkey
  len := BitVec.ofNat 32 c.len
  totalLen := BitVec.ofNat 32 c.totalLen
  dqpn := BitVec.ofNat 24 c.dqpn
  sqpn := BitVec.ofNat 24 c.sqpn
  immDtOrInvRKey := immOrInv c.opcode (BitVec.ofNat 32 c.imm)
  isFirst := c.isFirst
  isLast := c.isLast
  isRetry := c.isRetry
  enableEcn := false

/-- The fields that are narrower in the card than in the driver hold their values. -/
structure Fits (c : WrChunk) : Prop where
  qpType : c.qpType < 2 ^ 4
  flags : c.flags < 2 ^ 5
  pmtu : c.pmtu < 2 ^ 3
  dqpn : c.dqpn < 2 ^ 24
  sqpn : c.sqpn < 2 ^ 24
  macAddr : c.macAddr < 2 ^ 48

/-- An element has every field of a chunk. The immediate is the one its operation carries, which is
a key for the operation that invalidates one. -/
structure Recovers (e : WorkQueueElem) (c : WrChunk) : Prop where
  msn : e.msn.toNat = c.msn.inner
  psn : e.psn.toNat = c.psn.inner
  qpType : e.qpType.toNat = c.qpType
  flags : e.flags.toNat = c.flags
  opcode : e.opcode = c.opcode
  dqpn : e.dqpn.toNat = c.dqpn
  sqpn : e.sqpn.toNat = c.sqpn
  dqpIP : e.dqpIP.toNat = c.dqpIp
  macAddr : e.macAddr.toNat = c.macAddr
  pmtu : e.pmtu.toNat = c.pmtu
  laddr : e.laddr.toNat = c.laddr
  raddr : e.raddr.toNat = c.raddr
  lkey : e.lkey.toNat = c.lkey
  rkey : e.rkey.toNat = c.rkey
  len : e.len.toNat = c.len
  totalLen : e.totalLen.toNat = c.totalLen
  imm : c.opcode.hasImmDt → ∃ v : BitVec 32, e.immDtOrInvRKey = some (.imm v) ∧ v.toNat = c.imm
  inv : c.opcode.hasInv → ∃ v : BitVec 32, e.immDtOrInvRKey = some (.rkey v) ∧ v.toNat = c.imm
  noImm : ¬ c.opcode.hasImmDt → ¬ c.opcode.hasInv → e.immDtOrInvRKey = none
  isFirst : e.isFirst = c.isFirst
  isLast : e.isLast = c.isLast
  isRetry : e.isRetry = c.isRetry
  enableEcn : e.enableEcn = c.enableEcn

variable {c : WrChunk}

theorem Recovers.fits (h : Recovers c.wqe c) : c.Fits where
  qpType := Layout.toNat_ofNat_iff.1 h.qpType
  flags := Layout.toNat_ofNat_iff.1 h.flags
  pmtu := Layout.toNat_ofNat_iff.1 h.pmtu
  dqpn := Layout.toNat_ofNat_iff.1 h.dqpn
  sqpn := Layout.toNat_ofNat_iff.1 h.sqpn
  macAddr := Layout.toNat_ofNat_iff.1 h.macAddr

end OpenRdma.Driver.WrChunk
