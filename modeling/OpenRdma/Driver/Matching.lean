import OpenRdma.Driver.Send

/-!
# Send requests and the receives they wait for

`SendWr::new` checks a request of the verbs interface. Requests wait in a queue of their queue pair,
and `try_match_pendings` moves them on: a send and a write with immediate data each take a receive
the peer posted, the others take none. The function locks a queue for each access only, and two
threads run it: the one that posts and the one that takes receives from the peer. So a thread is
modelled between its accesses (`MatchPc`), and `MatchPc.step` is one access. `none` is a panic.
-/

namespace OpenRdma.Driver

/-- The variants of `RdmaError` used here, with their messages. -/
inductive RdmaError
  | invalidInput (msg : String)
  | unimplemented (msg : String)
  | resourceExhausted (msg : String)
  | notFound (msg : String)
  | qpError (msg : String)
  | memoryError (msg : String)
  | ioError (msg : String)
  deriving DecidableEq

/-! ## Requests -/

/-- The operation codes of `ibv_wr_opcode`. -/
inductive IbvWrOpcode
  | rdmaWrite
  | rdmaWriteWithImm
  | send
  | sendWithImm
  | rdmaRead
  | other (code : ℕ)
  deriving DecidableEq

def IbvWrOpcode.code : IbvWrOpcode → ℕ
  | rdmaWrite => 0
  | rdmaWriteWithImm => 1
  | send => 2
  | sendWithImm => 3
  | rdmaRead => 4
  | other code => code

/-- The fields of `ibv_send_wr` the driver reads, with the first element of its list of buffers. -/
structure IbvSendWr where
  wrId : ℕ
  numSge : ℤ
  sgeAddr : ℕ
  sgeLength : ℕ
  sgeLkey : ℕ
  opcode : IbvWrOpcode
  sendFlags : ℕ
  immData : ℕ
  remoteAddr : ℕ
  rkey : ℕ
  sgeAddr_lt : sgeAddr < 2 ^ 64
  sgeLength_lt : sgeLength < 2 ^ 32
  remoteAddr_lt : remoteAddr < 2 ^ 64

inductive SendWr
  | rdma (wr : SendWrRdma)
  | send (base : SendWrBase)
  deriving DecidableEq

namespace SendWr

/-- The operation code of a request that is supported. -/
def workReqOpCode : IbvWrOpcode → Except RdmaError WorkReqOpCode
  | .rdmaWrite => .ok .rdmaWrite
  | .rdmaWriteWithImm => .ok .rdmaWriteWithImm
  | .rdmaRead => .ok .rdmaRead
  | .send => .ok .send
  | .sendWithImm => .ok .sendWithImm
  | .other code => .error (.unimplemented ("Opcode " ++ toString code ++ " not supported"))

/-- The first part of a request. A request without a buffer has an empty one. -/
def baseOf (wr : IbvSendWr) (opcode : WorkReqOpCode) : SendWrBase where
  wrId := wr.wrId
  sendFlags := wr.sendFlags
  laddr := if wr.numSge = 1 then wr.sgeAddr else 0
  length := if wr.numSge = 1 then wr.sgeLength else 0
  lkey := if wr.numSge = 1 then wr.sgeLkey else 0
  immData := wr.immData
  opcode := opcode
  laddr_lt := by split; exacts [wr.sgeAddr_lt, by decide]
  length_lt := by split; exacts [wr.sgeLength_lt, by decide]

def new (wr : IbvSendWr) : Except RdmaError SendWr :=
  if wr.numSge < 0 then
    .error (.invalidInput "Invalid SGE count: out of range integral type conversion attempted")
  else if wr.numSge > 1 then
    .error (.unimplemented ("Only 0 or 1 SGE supported, got " ++ toString wr.numSge))
  else if wr.numSge = 0 ∧ wr.opcode ≠ .rdmaWriteWithImm ∧ wr.opcode ≠ .sendWithImm then
    .error (.invalidInput ("Only IBV_WR_RDMA_WRITE_WITH_IMM or IBV_WR_SEND_WITH_IMM  supported SGE == 0, "
      ++ "got " ++ toString wr.opcode.code))
  else
    (workReqOpCode wr.opcode).bind fun opcode =>
      let base := baseOf wr opcode
      match wr.opcode with
      | .rdmaWrite | .rdmaWriteWithImm | .rdmaRead =>
        .ok (.rdma ⟨base, wr.remoteAddr, wr.rkey, wr.remoteAddr_lt⟩)
      | .send | .sendWithImm => .ok (.send base)
      | .other _ => .error (.unimplemented "opcode not supported")

end SendWr

/-- `RecvWr`, with the address within its type. -/
@[ext]
structure RecvWr where
  wrId : ℕ
  addr : ℕ
  length : ℕ
  lkey : ℕ
  addr_lt : addr < 2 ^ 64

instance : DecidableEq RecvWr := fun _ _ => decidable_of_iff' _ RecvWr.ext_iff

/-- `SendWrRdma::new_from_base` with the buffer of a receive. -/
def SendWrRdma.newFromBase (base : SendWrBase) (recv : RecvWr) : SendWrRdma :=
  ⟨base, recv.addr, recv.lkey, recv.addr_lt⟩

/-! ## Matching -/

/-- The two queues of a queue pair. -/
structure MatchQueues where
  pendingSend : List SendWr := []
  recvWr : List RecvWr := []
  deriving DecidableEq

/-- Where a thread is in `try_match_pendings`: the next access to a queue, with what the thread
holds. -/
inductive MatchPc
  | peek
  | popRecv
  | popSend (recv : RecvWr)
  | popPlain
  | sendTask (task : SendWrRdma)
  | pushSend (base : SendWrBase) (recv : RecvWr)
  | pushRecv (base : SendWrBase) (recv : RecvWr)
  | done (result : Except RdmaError Unit)

/-- The request waits for a receive. -/
def SendWr.needsRecvWr : SendWr → Bool
  | .rdma wr => wr.opcode = .rdmaWriteWithImm
  | .send _ => true

/-- The error of a send and a receive of different lengths. -/
def lengthMismatch (qpn : ℕ) (base : SendWrBase) (recv : RecvWr) : RdmaError :=
  .invalidInput ("QP " ++ toString qpn ++ ": Send/Recv length mismatch (send=" ++
    toString base.length ++ ", recv=" ++ toString recv.length ++ ")")

namespace MatchPc

/-- What an access leads to: the next access, the queues and the tasks sent to the write worker. -/
abbrev Result := MatchPc × MatchQueues × List SendWrRdma

/-- The access of `try_match_pendings` for the queue pair `qpn` that comes next. -/
def step (qpn : ℕ) (q : MatchQueues) : MatchPc → Option Result
  | .peek =>
    match q.pendingSend with
    | [] => some (.done (.ok ()), q, [])
    | send :: _ => some (if send.needsRecvWr then .popRecv else .popPlain, q, [])
  | .popRecv =>
    match q.recvWr with
    | [] => some (.done (.ok ()), q, [])
    | recv :: recvs => some (.popSend recv, { q with recvWr := recvs }, [])
  | .popSend recv =>
    match q.pendingSend with
    | [] => none
    | send :: sends =>
      let q := { q with pendingSend := sends }
      match send with
      | .rdma wr => if wr.opcode = .rdmaWriteWithImm then some (.sendTask wr, q, []) else none
      | .send base =>
        if base.length ≠ recv.length then some (.pushSend base recv, q, [])
        else some (.sendTask (.newFromBase base recv), q, [])
  | .popPlain =>
    match q.pendingSend with
    | [] => none
    | .rdma wr :: sends => some (.sendTask wr, { q with pendingSend := sends }, [])
    | .send _ :: _ => none
  | .sendTask task => some (.peek, q, [task])
  | .pushSend base recv =>
    some (.pushRecv base recv, { q with pendingSend := .send base :: q.pendingSend }, [])
  | .pushRecv base recv =>
    some (.done (.error (lengthMismatch qpn base recv)), { q with recvWr := recv :: q.recvWr }, [])
  | .done _ => none

end MatchPc

/-! ## What is sent for a request -/

/-- The task is a send with the address and the key of a receive of its length. -/
structure SentInto (base : SendWrBase) (recv : RecvWr) (task : SendWrRdma) : Prop where
  base : task.base = base
  length : task.base.length = recv.length
  raddr : task.raddr = recv.addr
  rkey : task.rkey = recv.lkey

theorem sentInto_iff {base : SendWrBase} {recv : RecvWr} {task : SendWrRdma} :
    SentInto base recv task ↔ base.length = recv.length ∧ task = .newFromBase base recv := by
  constructor
  · intro h
    obtain ⟨_, _, _, _⟩ := task
    obtain ⟨rfl, hlen, rfl, rfl⟩ := h
    exact ⟨hlen, rfl⟩
  · rintro ⟨hlen, rfl⟩
    exact ⟨rfl, hlen, rfl, rfl⟩

/-- The task sent for a request: the request itself, or a send into a receive of its length. -/
def SendWr.IsTask : SendWr → SendWrRdma → Prop
  | .rdma wr, task => task = wr
  | .send base, task => ∃ recv, SentInto base recv task

end OpenRdma.Driver
