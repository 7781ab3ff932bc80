import OpenRdma.Driver.Psn
import OpenRdma.Foundations.Rust

/-!
# Work requests and the send context of a queue pair

The work requests a queue pair posts, and the chunks, or single packets, they are sent as. The
builder of chunks goes through its stages by filling in more of the chunk. A queue pair allocates
sequence numbers from the counters of its send context.
-/

namespace OpenRdma.Driver

open Word

inductive WorkReqOpCode
  | rdmaWrite
  | rdmaWriteWithImm
  | send
  | sendWithImm
  | rdmaRead
  | atomicCmpAndSwp
  | atomicFetchAndAdd
  | localInv
  | bindMw
  | sendWithInv
  | tso
  | driver1
  | rdmaReadResp
  | rdmaAck
  | flush
  | atomicWrite
  deriving DecidableEq, Inhabited

inductive ChunkPos
  | first
  | middle
  | last
  | only
  deriving DecidableEq, Inhabited

/-- `SendWrBase`, with the address and the length of the local buffer within their types. -/
structure SendWrBase where
  wrId : ℕ
  sendFlags : ℕ
  laddr : ℕ
  length : ℕ
  lkey : ℕ
  immData : ℕ
  opcode : WorkReqOpCode
  laddr_lt : laddr < 2 ^ 64
  length_lt : length < 2 ^ 32
  deriving DecidableEq

/-- A request with its remote address and key. -/
structure SendWrRdma where
  base : SendWrBase
  raddr : ℕ
  rkey : ℕ
  raddr_lt : raddr < 2 ^ 64
  deriving DecidableEq

theorem sampleAddr_lt : 0x1000 < 2 ^ 64 := by decide

theorem sampleRaddr_lt : 0x2000 < 2 ^ 64 := by decide

theorem sampleLength_lt : 256 < 2 ^ 32 := by decide

namespace SendWrRdma

def opcode (wr : SendWrRdma) : WorkReqOpCode := wr.base.opcode

def length (wr : SendWrRdma) : ℕ := wr.base.length

def laddr (wr : SendWrRdma) : ℕ := wr.base.laddr

def wrId (wr : SendWrRdma) : ℕ := wr.base.wrId

def signaled (wr : SendWrRdma) : Bool := wr.base.sendFlags &&& 2 != 0

theorem length_lt (wr : SendWrRdma) : wr.length < 2 ^ 32 := wr.base.length_lt

end SendWrRdma

structure QpParams where
  msn : Msn
  qpType : ℕ
  sqpn : ℕ
  macAddr : ℕ
  dqpn : ℕ
  dqpIp : ℕ
  pmtu : ℕ
  deriving DecidableEq

/-- A chunk, or a single packet, of a request. -/
structure WrChunk where
  opcode : WorkReqOpCode := .rdmaWrite
  qpType : ℕ := 0
  sqpn : ℕ := 0
  macAddr : ℕ := 0
  dqpn : ℕ := 0
  dqpIp : ℕ := 0
  pmtu : ℕ := 0
  flags : ℕ := 0
  raddr : ℕ := 0
  rkey : ℕ := 0
  totalLen : ℕ := 0
  lkey : ℕ := 0
  imm : ℕ := 0
  laddr : ℕ := 0
  len : ℕ := 0
  isFirst : Bool := false
  isLast : Bool := false
  msn : Msn := default
  psn : Psn := default
  isRetry : Bool := false
  enableEcn : Bool := false
  deriving DecidableEq

namespace WrChunk

def newWithOpcode (opcode : WorkReqOpCode) : WrChunk := { opcode := opcode }

def setQpParams (c : WrChunk) (qpParams : QpParams) : WrChunk :=
  { c with
    qpType := qpParams.qpType
    sqpn := qpParams.sqpn
    macAddr := qpParams.macAddr
    dqpn := qpParams.dqpn
    dqpIp := qpParams.dqpIp
    pmtu := qpParams.pmtu
    msn := qpParams.msn }

/-- `WrChunkBuilder::set_ibv_params`, with the parameters both callers take from the work
request. -/
def setIbvParams (c : WrChunk) (wr : SendWrRdma) : WrChunk :=
  { c with
    flags := wr.base.sendFlags % 2 ^ 8
    rkey := wr.rkey
    totalLen := wr.length
    lkey := wr.base.lkey
    imm := wr.base.immData }

def setChunkMeta (c : WrChunk) (psn : Psn) (laddr raddr len : ℕ) (pos : ChunkPos) : WrChunk :=
  { c with
    psn := psn
    laddr := laddr
    raddr := raddr
    len := len
    isFirst := if pos = .first ∨ pos = .only then true else c.isFirst
    isLast := if pos = .last ∨ pos = .only then true else c.isLast }

def setIsRetry (c : WrChunk) : WrChunk := { c with isRetry := true }

end WrChunk

/-! ## The send context -/

/-- The counters of a queue pair. -/
structure SendQueueContext where
  msn : Msn := default
  psn : Psn := default
  psnAcked : Psn := default
  msnAcked : Msn := default
  deriving DecidableEq, Inhabited

namespace SendQueueContext

/-- The numbers of the next request, if both windows have room. -/
def nextWr (ctx : SendQueueContext) (numPsn : ℕ) : Option ((Msn × Psn) × SendQueueContext) :=
  let outstandingNumPsn := ctx.psn - ctx.psnAcked
  let outstandingNumMsn := ctx.msn.distance ctx.msnAcked
  if (outstandingNumPsn + numPsn).inner > maxPsnWindow ∨ outstandingNumMsn ≥ maxSendWr then none
  else some ((ctx.msn, ctx.psn),
    { ctx with msn := ctx.msn.wrappingAdd 1, psn := ctx.psn + numPsn })

def updatePsnAcked (ctx : SendQueueContext) (psn : Psn) : SendQueueContext :=
  { ctx with psnAcked := psn }

def updateMsnAcked (ctx : SendQueueContext) (msn : Msn) : SendQueueContext :=
  { ctx with msnAcked := msn }

end SendQueueContext

def convertIbvMtuToU16 (ibvMtu : ℕ) : Option ℕ :=
  match ibvMtu with
  | 1 => some 256
  | 2 => some 512
  | 3 => some 1024
  | 4 => some 2048
  | 5 => some 4096
  | _ => none

theorem convertIbvMtuToU16_eq {ibvMtu p : ℕ} (h : convertIbvMtuToU16 ibvMtu = some p) :
    ∃ k, 8 ≤ k ∧ k ≤ 12 ∧ p = 2 ^ k := by
  unfold convertIbvMtuToU16 at h
  split at h <;> cases h
  · exact ⟨8, by decide⟩
  · exact ⟨9, by decide⟩
  · exact ⟨10, by decide⟩
  · exact ⟨11, by decide⟩
  · exact ⟨12, by decide⟩

/-- The number of packets a request is counted as. -/
def numPsn (pmtu addr length : ℕ) : Option ℕ :=
  (convertIbvMtuToU16 pmtu).bind fun pmtu =>
    let pmtuMask := pmtu - 1
    let nextAlignAddr := saturatingAdd 64 addr pmtuMask &&& compl 64 pmtuMask
    let gap := nextAlignAddr - addr
    let n := max (divCeil ((checkedSub length gap).getD length) pmtu) 1
    if n < 2 ^ 32 then some n else none

/-- The fields of `QpAttr` the workers use. -/
structure QpAttr where
  qpType : ℕ
  qpn : ℕ
  macAddr : ℕ
  dqpn : ℕ
  dqpIp : ℕ
  pmtu : ℕ
  sendCq : Option ℕ
  recvCq : Option ℕ
  deriving DecidableEq

/-! ## The tasks workers send to each other, for one queue pair -/

/-- A task of the write worker. -/
inductive RdmaWriteTask
  | write (wr : SendWrRdma)
  | ack (basePsn : Psn)
  | newComplete (msn : Msn)
  deriving DecidableEq

inductive AckTimeoutTask
  | newAckReq
  | recvMeta
  | ack
  deriving DecidableEq

inductive AckResponse
  | ack (msn : Msn) (lastPsn : Psn)
  | nak (basePsn ackReqPacketPsn : Psn)
  deriving DecidableEq

end OpenRdma.Driver
