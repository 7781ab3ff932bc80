import OpenRdma.Driver.Completion
import OpenRdma.Driver.Retransmit

/-!
# The write worker

The worker that turns posted work requests into chunks. Its error results are dropped by `process`.
The functions are those of one queue pair; `none` is a panic. The worker sends a chunk before it
cuts the next one, so a call that panics at an address that overflows has sent the chunks before it
(`chunksSent`).
-/

namespace OpenRdma.Driver

/-- The kinds of `io::Error` the worker returns. -/
inductive IoErrorKind
  | invalidInput
  | unsupported
  deriving DecidableEq

/-- The tasks and chunks the worker sends. -/
structure RdmaOutput where
  completion : List CompletionTask := []
  timeout : List AckTimeoutTask := []
  retransmit : List PacketRetransmitTask := []
  chunks : List WrChunk := []
  deriving DecidableEq

/-- `QpParams::new` with the attributes of the queue pair. -/
def QpAttr.params (qp : QpAttr) (msn : Msn) : QpParams where
  msn := msn
  qpType := qp.qpType
  sqpn := qp.qpn
  macAddr := qp.macAddr
  dqpn := qp.dqpn
  dqpIp := qp.dqpIp
  pmtu := qp.pmtu

/-- What a step of the worker returns: the result, the context and what was sent. -/
abbrev RdmaResult := Except IoErrorKind Unit × SendQueueContext × RdmaOutput

namespace SendQueueContext

/-- The event of a signaled request, or the error the worker stops with. -/
def registerEvent (qp : QpAttr) (wr : SendWrRdma) (op : Option SendEventOp) (msn : Msn)
    (endPsn : Psn) : Except IoErrorKind (List CompletionTask) :=
  if wr.signaled then
    if qp.sendCq.isSome then
      match op with
      | some op => .ok [.register (.send ⟨op, ⟨msn, endPsn⟩, wr.wrId⟩)]
      | none => .error .unsupported
    else .error .invalidInput
  else .ok []

/-- The chunk of a read request, in `RdmaWriteWorker::rdma_read`. -/
def readChunk (wr : SendWrRdma) (qpParams : QpParams) (psn : Psn) : WrChunk :=
  (((WrChunk.newWithOpcode .rdmaRead).setQpParams qpParams).setIbvParams wr).setChunkMeta
    psn wr.laddr wr.raddr wr.length .only

/-- A read: one packet, with one number. -/
def rdmaRead (qp : QpAttr) (ctx : SendQueueContext) (wr : SendWrRdma) : RdmaResult :=
  (ctx.nextWr 1).elim (.error .invalidInput, ctx, {}) fun ((msn, psn), ctx) =>
    let qpParams := qp.params msn
    let chunk := readChunk wr qpParams psn
    match registerEvent qp wr (some .readSignaled) msn (psn + 1) with
    | .error e => (.error e, ctx, {})
    | .ok completion =>
      (.ok (), ctx,
        { completion := completion
          timeout := if wr.signaled then [.newAckReq] else []
          retransmit := [.newWr ⟨psn, wr, qpParams⟩]
          chunks := [chunk] })

/-- The kind of send event of a request, in `RdmaWriteWorker::write`. -/
def writeEventOp : WorkReqOpCode → Option SendEventOp
  | .rdmaWrite | .rdmaWriteWithImm => some .writeSignaled
  | .send | .sendWithImm => some .sendSignaled
  | _ => none

/-- What `RdmaWriteWorker::write` has done when it returns. -/
def write (qp : QpAttr) (ctx : SendQueueContext) (wr : SendWrRdma) : Option RdmaResult :=
  if wr.length = 0 ∧ wr.opcode = .rdmaWrite then none
  else
    (numPsn qp.pmtu wr.raddr wr.length).elim (some (.error .invalidInput, ctx, {})) fun numPsn =>
    (ctx.nextWr numPsn).elim (some (.error .invalidInput, ctx, {})) fun ((msn, psn), ctx) =>
    match registerEvent qp wr (writeEventOp wr.opcode) msn (psn + numPsn) with
    | .error e => some (.error e, ctx, {})
    | .ok completion =>
      let qpParams := qp.params msn
      (wrChunkFragmenter wr qpParams psn).map fun chunks =>
        (.ok (), ctx,
          { completion := completion
            timeout := if wr.signaled then [.newAckReq] else []
            retransmit := [.newWr ⟨psn, wr, qpParams⟩]
            chunks := chunks })

/-- The call `RdmaWriteWorker::process` makes for a `Write` task. -/
def post (qp : QpAttr) (ctx : SendQueueContext) (wr : SendWrRdma) : Option RdmaResult :=
  match wr.opcode with
  | .rdmaWrite | .rdmaWriteWithImm | .send | .sendWithImm | .rdmaReadResp => ctx.write qp wr
  | .rdmaRead => some (ctx.rdmaRead qp wr)
  | _ => none

/-- What a task makes the worker send; `none` is a panic. -/
def process (qp : QpAttr) (ctx : SendQueueContext) :
    RdmaWriteTask → Option (SendQueueContext × RdmaOutput)
  | .write wr => (ctx.post qp wr).map Prod.snd
  | .ack basePsn => some (ctx.updatePsnAcked basePsn, {})
  | .newComplete msn => some (ctx.updateMsnAcked msn, {})

/-! ## What is sent before a panic -/

/-- The chunks `RdmaWriteWorker::write` sends, whether it returns or panics at a later chunk. -/
def writeChunks (qp : QpAttr) (ctx : SendQueueContext) (wr : SendWrRdma) : List WrChunk :=
  if wr.length = 0 ∧ wr.opcode = .rdmaWrite then []
  else
    (numPsn qp.pmtu wr.raddr wr.length).elim [] fun numPsn =>
    (ctx.nextWr numPsn).elim [] fun ((msn, psn), _) =>
    match registerEvent qp wr (writeEventOp wr.opcode) msn (psn + numPsn) with
    | .error _ => []
    | .ok _ => wrChunksYielded wr (qp.params msn) psn

/-- The chunks the worker sends for a task, whether it returns or panics. -/
def chunksSent (qp : QpAttr) (ctx : SendQueueContext) : RdmaWriteTask → List WrChunk
  | .write wr =>
    match wr.opcode with
    | .rdmaWrite | .rdmaWriteWithImm | .send | .sendWithImm | .rdmaReadResp => ctx.writeChunks qp wr
    | .rdmaRead => (ctx.rdmaRead qp wr).2.2.chunks
    | _ => []
  | .ack _ | .newComplete _ => []

variable {qp : QpAttr} {ctx : SendQueueContext}

theorem writeChunks_eq {wr : SendWrRdma} {r : RdmaResult} (h : ctx.write qp wr = some r) :
    ctx.writeChunks qp wr = r.2.2.chunks := by
  unfold write at h
  unfold writeChunks
  split at h
  · cases h
  next hzero =>
    rw [if_neg hzero]
    cases hn : numPsn qp.pmtu wr.raddr wr.length with
    | none =>
      rw [hn] at h
      cases h
      rfl
    | some n =>
      rw [hn, Option.elim_some] at h
      rw [Option.elim_some]
      rcases hw : ctx.nextWr n with _ | ⟨⟨msn, psn⟩, ctx'⟩ <;> rw [hw] at h
      · cases h
        rfl
      · dsimp only [Option.elim_some] at h ⊢
        cases hreg : registerEvent qp wr (writeEventOp wr.opcode) msn (psn + n) <;> rw [hreg] at h
        case error e =>
          cases h
          rfl
        case ok completion =>
          obtain ⟨chunks, hchunks, rfl⟩ := Option.map_eq_some_iff.1 h
          exact wrChunksYielded_eq hchunks

/-- **A call that returns has sent the chunks of its output.** -/
theorem chunksSent_eq {task : RdmaWriteTask} {r : SendQueueContext × RdmaOutput}
    (h : ctx.process qp task = some r) : ctx.chunksSent qp task = r.2.chunks := by
  cases task with
  | write wr =>
    obtain ⟨x, hx, rfl⟩ := Option.map_eq_some_iff.1 h
    unfold post at hx
    rw [chunksSent]
    split at hx
    case h_6 =>
      cases hx
      rfl
    case h_7 => cases hx
    all_goals exact writeChunks_eq hx
  | ack | newComplete =>
    cases h
    rfl

end SendQueueContext

end OpenRdma.Driver
