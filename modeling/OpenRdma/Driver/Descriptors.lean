import OpenRdma.Driver.Send
import OpenRdma.Foundations.Layout

/-!
# Descriptors the driver writes

A descriptor is four words of 64 bits, each a packed structure whose first field is in its lowest
bits, and is written to a ring as 32 bytes. The constructors mask what they are given to the width
of its field; `none` is a panic of a conversion that does not mask.
-/

namespace OpenRdma.Driver

open Layout

/-- A descriptor: the fields of its four words. -/
structure Desc where
  c0 : List Field
  c1 : List Field
  c2 : List Field
  c3 : List Field

namespace Desc

/-- The fields of a descriptor, from its lowest bit on. -/
def fields (d : Desc) : List Field := d.c0 ++ (d.c1 ++ (d.c2 ++ d.c3))

def serialize (d : Desc) : List ℕ :=
  leBytes 8 (pack d.c0) ++ (leBytes 8 (pack d.c1) ++
    (leBytes 8 (pack d.c2) ++ leBytes 8 (pack d.c3)))

end Desc

/-! ## Heads -/

def WorkReqOpCode.toU8 : WorkReqOpCode → ℕ
  | rdmaWrite => 0
  | rdmaWriteWithImm => 1
  | send => 2
  | sendWithImm => 3
  | rdmaRead => 4
  | atomicCmpAndSwp => 5
  | atomicFetchAndAdd => 6
  | localInv => 7
  | bindMw => 8
  | sendWithInv => 9
  | tso => 10
  | driver1 => 11
  | rdmaReadResp => 12
  | rdmaAck => 13
  | flush => 14
  | atomicWrite => 15

/-- `RingBufDescCommonHead::new_with_op_code`, with the flag `set_has_next` sets. -/
def ringBufDescCommonHead (opCode : ℕ) (hasNext : Bool) : List Field :=
  [⟨8, opCode⟩, .flag false, ⟨5, 0⟩, .flag hasNext, .flag true]

/-! ## Descriptors of the send ring -/

def sendQueueReqDescSeg0 (opCode : WorkReqOpCode) (msn : Msn) (psn : Psn)
    (qpType dqpn flags dqpIp raddr rkey totalLen : ℕ) : Desc where
  c0 := [⟨3, 0⟩, ⟨5, flags⟩, ⟨24, dqpn⟩, ⟨4, 0⟩, ⟨4, qpType⟩, ⟨24, psn.inner⟩]
  c1 := [⟨64, raddr⟩]
  c2 := [⟨32, dqpIp⟩, ⟨32, rkey⟩]
  c3 := ⟨32, totalLen⟩ :: ⟨16, msn.inner⟩ :: ringBufDescCommonHead opCode.toU8 true

def sendQueueReqDescSeg1 (opCode : WorkReqOpCode) (pmtu : ℕ)
    (isFirst isLast isRetry enableEcn : Bool) (sqpn imm macAddr lkey len laddr : ℕ) : Desc where
  c0 := [⟨64, laddr⟩]
  c1 := [⟨32, len⟩, ⟨32, lkey⟩]
  c2 := [⟨16, sqpn >>> 8⟩, ⟨48, macAddr⟩]
  c3 := ⟨32, imm⟩ :: ⟨8, sqpn⟩ :: ⟨1, 0⟩ :: .flag enableEcn :: .flag isRetry :: .flag isLast ::
    .flag isFirst :: ⟨3, pmtu⟩ :: ringBufDescCommonHead opCode.toU8 false

/-- The first descriptor `SendWorker::process` writes for a chunk. -/
def WrChunk.descSeg0 (wr : WrChunk) : Desc :=
  sendQueueReqDescSeg0 wr.opcode wr.msn wr.psn wr.qpType wr.dqpn wr.flags wr.dqpIp wr.raddr wr.rkey
    wr.totalLen

/-- The second descriptor `SendWorker::process` writes for a chunk. -/
def WrChunk.descSeg1 (wr : WrChunk) : Desc :=
  sendQueueReqDescSeg1 wr.opcode wr.pmtu wr.isFirst wr.isLast wr.isRetry wr.enableEcn wr.sqpn wr.imm
    wr.macAddr wr.lkey wr.len wr.laddr

/-- The two descriptors `SendWorker::process` writes for a chunk. -/
def WrChunk.descs (wr : WrChunk) : List Desc := [wr.descSeg0, wr.descSeg1]

inductive CmdQueueDescOperators
  | updateMrTable
  | updatePgt
  | manageQp
  | setNetworkParam
  | setRawPacketReceiveMeta
  deriving DecidableEq

def CmdQueueDescOperators.toU8 : CmdQueueDescOperators → ℕ
  | updateMrTable => 0
  | updatePgt => 1
  | manageQp => 2
  | setNetworkParam => 3
  | setRawPacketReceiveMeta => 4

/-- The two heads of a command, `CmdQueueReqDescHeaderChunk`. -/
def cmdQueueReqDescHeaderChunk (operator : CmdQueueDescOperators) (userData : ℕ) : List Field :=
  ⟨8, userData⟩ :: .flag false :: ⟨7, 0⟩ :: ringBufDescCommonHead operator.toU8 false

/-- `CmdQueueReqDescUpdateMrTable::new`. The offset into the page table is not masked. -/
def cmdQueueReqDescUpdateMrTable
    (userData mrBaseVa mrLength mrKey pdHandler accFlags pgtOffset : ℕ) : Option Desc :=
  if pgtOffset < 2 ^ 17 then
    some {
      c0 := [⟨7, 0⟩, ⟨17, pgtOffset⟩, ⟨8, accFlags⟩, ⟨32, pdHandler⟩]
      c1 := [⟨32, mrKey⟩, ⟨32, mrLength⟩]
      c2 := [⟨64, mrBaseVa⟩]
      c3 := ⟨32, 0⟩ :: cmdQueueReqDescHeaderChunk .updateMrTable userData }
  else none

def cmdQueueReqDescUpdatePgt (userData dmaAddr startIndex zeroBasedEntryCount : ℕ) : Desc where
  c0 := [⟨64, 0⟩]
  c1 := [⟨32, zeroBasedEntryCount⟩, ⟨32, startIndex⟩]
  c2 := [⟨64, dmaAddr⟩]
  c3 := ⟨32, 0⟩ :: cmdQueueReqDescHeaderChunk .updatePgt userData

def cmdQueueReqDescQpManagement (userData ipAddr qpn : ℕ) (isError isValid : Bool)
    (peerQpn rqAccessFlags qpType pmtu localUdpPort peerMacAddr : ℕ) : Desc where
  c0 := [⟨48, peerMacAddr⟩, ⟨16, localUdpPort⟩]
  c1 := [⟨16, 0⟩, ⟨5, 0⟩, ⟨3, pmtu⟩, ⟨4, 0⟩, ⟨4, qpType⟩, ⟨8, rqAccessFlags⟩, ⟨24, peerQpn⟩]
  c2 := [⟨32, 0⟩, ⟨24, qpn⟩, ⟨6, 0⟩, .flag isError, .flag isValid]
  c3 := ⟨32, ipAddr⟩ :: cmdQueueReqDescHeaderChunk .manageQp userData

def cmdQueueReqDescSetNetworkParam (userData gateway netmask ipAddr macAddr : ℕ) : Desc where
  c0 := [⟨16, 0⟩, ⟨48, macAddr⟩]
  c1 := [⟨32, 0⟩, ⟨32, ipAddr⟩]
  c2 := [⟨32, netmask⟩, ⟨32, gateway⟩]
  c3 := ⟨32, 0⟩ :: cmdQueueReqDescHeaderChunk .setNetworkParam userData

def cmdQueueReqDescSetRawPacketReceiveMeta (userData writeBaseAddr : ℕ) : Desc where
  c0 := [⟨64, 0⟩]
  c1 := [⟨64, 0⟩]
  c2 := [⟨64, writeBaseAddr⟩]
  c3 := ⟨32, 0⟩ :: cmdQueueReqDescHeaderChunk .setRawPacketReceiveMeta userData

end OpenRdma.Driver
