import OpenRdma.Driver.MetaReport
import OpenRdma.Driver.Rdma

/-!
# The workers of a queue pair

The workers run in threads of their own and send each other tasks over unbounded first-in first-out
channels. `Workers` is the state of all of them for one queue pair, with the channels, the
completions polled so far and the chunks handed to the card. A `Label` is what happens next: a verb
of the user, a report of the card, a timeout, or a worker that takes its next task. A step is `none`
where the worker panics.
-/

namespace OpenRdma.Driver

/-- The workers of a queue pair and the channels between them. -/
structure Workers where
  ctx : SendQueueContext := {}
  handler : MetaHandler := {}
  sq : IbvSendQueue := {}
  tracker : QueuePairMessageTracker := {}
  rdmaWriteCh : List RdmaWriteTask := []
  retransmitCh : List PacketRetransmitTask := []
  completionCh : List CompletionTask := []
  ackCh : List AckResponse := []
  ackTimeoutCh : List AckTimeoutTask := []
  sendPolled : List (SendEvent × Completion) := []
  recvPolled : List (RecvEvent × Option Completion) := []
  sent : List WrChunk := []
  deriving DecidableEq, Inhabited

/-- The steps of the workers. -/
inductive Label
  | post (wr : SendWrRdma)
  | postRecv (wrId : ℕ)
  | report (m : ReportMeta)
  | timeout
  | runRdmaWrite
  | runRetransmit
  | runCompletion
  deriving DecidableEq

namespace Workers

/-- The handler took a report. -/
def afterReport (s : Workers) (handler : MetaHandler) (out : MetaOutput) : Workers :=
  { s with
    handler := handler
    rdmaWriteCh := s.rdmaWriteCh ++ out.rdmaWrite
    retransmitCh := s.retransmitCh ++ out.packetRetransmit
    completionCh := s.completionCh ++ out.completion
    ackCh := s.ackCh ++ out.ack
    ackTimeoutCh := s.ackTimeoutCh ++ out.ackTimeout }

/-- The write worker took a task and left the tasks `ch`. -/
def afterRdmaWrite (s : Workers) (ch : List RdmaWriteTask) (ctx : SendQueueContext)
    (out : RdmaOutput) : Workers :=
  { s with
    ctx := ctx
    rdmaWriteCh := ch
    retransmitCh := s.retransmitCh ++ out.retransmit
    completionCh := s.completionCh ++ out.completion
    ackTimeoutCh := s.ackTimeoutCh ++ out.timeout
    sent := s.sent ++ out.chunks }

/-- The retransmit worker took a task and left the tasks `ch`. -/
def afterRetransmit (s : Workers) (ch : List PacketRetransmitTask) (sq : IbvSendQueue)
    (packets : List WrChunk) : Workers :=
  { s with
    sq := sq
    retransmitCh := ch
    sent := s.sent ++ packets }

/-- The completion worker took a task and left the tasks `ch`. -/
def afterCompletion (s : Workers) (ch : List CompletionTask) (tracker : QueuePairMessageTracker)
    (out : CompletionOutput) : Workers :=
  { s with
    tracker := tracker
    completionCh := ch
    rdmaWriteCh := s.rdmaWriteCh ++ out.rdmaWrite
    ackCh := s.ackCh ++ out.ackResp
    ackTimeoutCh := s.ackTimeoutCh ++ out.ackTimeout
    sendPolled := s.sendPolled ++ out.send
    recvPolled := s.recvPolled ++ out.recv }

def nextRequest (s : Workers) : Option SendWrRdma :=
  match s.rdmaWriteCh with
  | .write wr :: _ => some wr
  | _ => none

/-- One step of the queue pair. A worker without tasks does nothing. -/
def step (qp : QpAttr) (s : Workers) : Label → Option Workers
  | .post wr => some { s with rdmaWriteCh := s.rdmaWriteCh ++ [.write wr] }
  | .postRecv wrId =>
    some { s with completionCh := s.completionCh ++ [.register (.postRecv ⟨wrId⟩)] }
  | .report m => (s.handler.handleMeta m).map fun r => s.afterReport r.1 r.2
  | .timeout => some { s with retransmitCh := s.retransmitCh ++ [.retransmitAll] }
  | .runRdmaWrite =>
    match s.rdmaWriteCh with
    | [] => some s
    | task :: ch => (s.ctx.process qp task).map fun r => s.afterRdmaWrite ch r.1 r.2
  | .runRetransmit =>
    match s.retransmitCh with
    | [] => some s
    | task :: ch => (s.sq.process task).map fun r => s.afterRetransmit ch r.1 r.2
  | .runCompletion =>
    match s.completionCh with
    | [] => some s
    | task :: ch => (s.tracker.process qp task).map fun r => s.afterCompletion ch r.1 r.2

variable {qp : QpAttr} {s s' : Workers}

/-- What a step does, one case for each task. -/
inductive Fires (qp : QpAttr) (s : Workers) : Label → Workers → Prop
  | post (wr) : Fires qp s (.post wr) { s with rdmaWriteCh := s.rdmaWriteCh ++ [.write wr] }
  | postRecv (wrId) : Fires qp s (.postRecv wrId)
      { s with completionCh := s.completionCh ++ [.register (.postRecv ⟨wrId⟩)] }
  | report {m r} (hr : s.handler.handleMeta m = some r) :
      Fires qp s (.report m) (s.afterReport r.1 r.2)
  | timeout : Fires qp s .timeout { s with retransmitCh := s.retransmitCh ++ [.retransmitAll] }
  | noRdmaWrite (hch : s.rdmaWriteCh = []) : Fires qp s .runRdmaWrite s
  | runRdmaWrite {task ch r} (hch : s.rdmaWriteCh = task :: ch)
      (hr : s.ctx.process qp task = some r) : Fires qp s .runRdmaWrite (s.afterRdmaWrite ch r.1 r.2)
  | noRetransmit : Fires qp s .runRetransmit s
  | runRetransmit {task ch r} (hch : s.retransmitCh = task :: ch)
      (hr : s.sq.process task = some r) : Fires qp s .runRetransmit (s.afterRetransmit ch r.1 r.2)
  | noCompletion : Fires qp s .runCompletion s
  | runCompletion {task ch r} (hch : s.completionCh = task :: ch)
      (hr : s.tracker.process qp task = some r) :
      Fires qp s .runCompletion (s.afterCompletion ch r.1 r.2)

theorem fires_of_step {l : Label} (hs : s.step qp l = some s') : Fires qp s l s' := by
  cases l with
  | post wr =>
    cases hs
    exact .post wr
  | postRecv wrId =>
    cases hs
    exact .postRecv wrId
  | report m =>
    obtain ⟨r, hr, rfl⟩ := Option.map_eq_some_iff.1 hs
    exact .report hr
  | timeout =>
    cases hs
    exact .timeout
  | runRdmaWrite =>
    rcases hch : s.rdmaWriteCh with _ | ⟨task, ch⟩ <;> rw [step, hch] at hs
    · cases hs
      exact .noRdmaWrite hch
    · obtain ⟨r, hr, rfl⟩ := Option.map_eq_some_iff.1 hs
      exact .runRdmaWrite hch hr
  | runRetransmit =>
    rcases hch : s.retransmitCh with _ | ⟨task, ch⟩ <;> rw [step, hch] at hs
    · cases hs
      exact .noRetransmit
    · obtain ⟨r, hr, rfl⟩ := Option.map_eq_some_iff.1 hs
      exact .runRetransmit hch hr
  | runCompletion =>
    rcases hch : s.completionCh with _ | ⟨task, ch⟩ <;> rw [step, hch] at hs
    · cases hs
      exact .noCompletion
    · obtain ⟨r, hr, rfl⟩ := Option.map_eq_some_iff.1 hs
      exact .runCompletion hch hr

def sendCq (s : Workers) : List Completion := s.sendPolled.map Prod.snd

def recvCq (s : Workers) : List Completion := s.recvPolled.filterMap Prod.snd

/-- Every worker has taken all its tasks. -/
def Quiescent (s : Workers) : Prop :=
  s.rdmaWriteCh = [] ∧ s.retransmitCh = [] ∧ s.completionCh = []

end Workers

end OpenRdma.Driver
