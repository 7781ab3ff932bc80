import OpenRdma.Driver.Send

/-!
# The completion worker

Events are registered when a work request is sent or the last packet of a message arrives, and turn
into completions when the acknowledged base passes their end. The functions are those of one queue
pair; `process` returns the tracker with what it sends, or `none` where the source panics.
-/

namespace OpenRdma.Driver

/-! ## Events -/

/-- The number of a message and of its last packet. -/
structure MessageMeta where
  msn : Msn
  endPsn : Psn
  deriving DecidableEq

inductive SendEventOp
  | writeSignaled
  | sendSignaled
  | readSignaled
  deriving DecidableEq

/-- A request whose completion is registered. -/
structure SendEvent where
  op : SendEventOp
  messageMeta : MessageMeta
  wrId : ℕ
  deriving DecidableEq

inductive RecvEventOp
  | write
  | writeWithImm (imm : ℕ)
  | recv
  | recvWithImm (imm : ℕ)
  | readResp
  | recvRead
  deriving DecidableEq

/-- A message or a read request that arrived. -/
structure RecvEvent where
  op : RecvEventOp
  messageMeta : MessageMeta
  ackReq : Bool
  deriving DecidableEq

structure PostRecvEvent where
  wrId : ℕ
  deriving DecidableEq

inductive Event
  | send (event : SendEvent)
  | recv (event : RecvEvent)
  | postRecv (event : PostRecvEvent)
  deriving DecidableEq

/-- A completion as it is polled. -/
inductive Completion
  | send (wrId : ℕ)
  | rdmaWrite (wrId : ℕ)
  | rdmaRead (wrId : ℕ)
  | recv (wrId : ℕ) (imm : Option ℕ)
  | recvRdmaWithImm (wrId imm : ℕ)
  deriving DecidableEq

/-- The completion of a send event, in `poll_send_completion`. -/
def SendEvent.completion (event : SendEvent) : Completion :=
  match event.op with
  | .writeSignaled => .rdmaWrite event.wrId
  | .sendSignaled => .send event.wrId
  | .readSignaled => .rdmaRead event.wrId

class EventMeta (E : Type) where
  /-- `EventMeta::meta`. -/
  messageMeta : E → MessageMeta

instance : EventMeta SendEvent := ⟨SendEvent.messageMeta⟩

instance : EventMeta RecvEvent := ⟨RecvEvent.messageMeta⟩

/-! ## The tracker of messages -/

/-- Events in order, and the base up to which they may be taken. -/
structure MessageTracker (E : Type) where
  inner : List E := []
  basePsn : Psn := default
  deriving DecidableEq, Inhabited

namespace MessageTracker

variable {E : Type} [EventMeta E]

open EventMeta

/-- The event is put in the order of message numbers, unless one has its number. -/
def append (t : MessageTracker E) (event : E) : MessageTracker E :=
  let pos := (t.inner.reverse.findIdx? fun e =>
    (messageMeta e).msn < (messageMeta event).msn).getD t.inner.length
  let index := t.inner.length - pos
  match t.inner[index]? with
  | some e =>
    if (messageMeta e).msn ≠ (messageMeta event).msn then
      { t with inner := t.inner.insertIdx index event }
    else t
  | none => { t with inner := t.inner.insertIdx index event }

def ack (t : MessageTracker E) (basePsn : Psn) : MessageTracker E := { t with basePsn := basePsn }

/-- The first event, if it does not end after the base. -/
def pop (t : MessageTracker E) : Option (E × MessageTracker E) :=
  match t.inner with
  | [] => none
  | front :: inner =>
    if (messageMeta front).endPsn ≤ t.basePsn then some (front, { t with inner := inner }) else none

/-- All events that can be popped, in order, and the events left. -/
def drain (basePsn : Psn) : List E → List E × List E
  | [] => ([], [])
  | front :: inner =>
    if (messageMeta front).endPsn ≤ basePsn then
      let (popped, left) := drain basePsn inner
      (front :: popped, left)
    else ([], front :: inner)

end MessageTracker

/-! ## Merging read responses -/

/-- Events to be polled; a signaled read waits for a read response. -/
structure MergeQueue where
  send : List SendEvent := []
  recv : List RecvEvent := []
  recvReadResp : List RecvEvent := []
  deriving DecidableEq, Inhabited

namespace MergeQueue

def pushSend (m : MergeQueue) (event : SendEvent) : MergeQueue :=
  { m with send := m.send ++ [event] }

def pushRecv (m : MergeQueue) (event : RecvEvent) : MergeQueue :=
  match event.op with
  | .readResp => { m with recvReadResp := m.recvReadResp ++ [event] }
  | _ => { m with recv := m.recv ++ [event] }

def popSend (m : MergeQueue) : Option SendEvent × MergeQueue :=
  match m.send with
  | [] => (none, m)
  | event :: send =>
    match event.op with
    | .writeSignaled | .sendSignaled => (some event, { m with send := send })
    | .readSignaled =>
      match m.recvReadResp with
      | [] => (none, m)
      | _ :: recvReadResp => (some event, { m with send := send, recvReadResp := recvReadResp })

def popRecv (m : MergeQueue) : Option RecvEvent × MergeQueue :=
  match m.recv with
  | [] => (none, m)
  | event :: recv => (some event, { m with recv := recv })

end MergeQueue

/-! ## The tracker of a queue pair -/

/-- `QueuePairMessageTracker`; its `read_resp_queue` is never used. -/
structure QueuePairMessageTracker where
  send : MessageTracker SendEvent := {}
  recv : MessageTracker RecvEvent := {}
  postRecvQueue : List PostRecvEvent := []
  merge : MergeQueue := {}
  deriving DecidableEq, Inhabited

namespace QueuePairMessageTracker

def append (t : QueuePairMessageTracker) : Event → QueuePairMessageTracker
  | .send x => { t with send := t.send.append x }
  | .recv x => { t with recv := t.recv.append x }
  | .postRecv x => { t with postRecvQueue := t.postRecvQueue ++ [x] }

def ackSend (t : QueuePairMessageTracker) (psn : Psn) : QueuePairMessageTracker :=
  let (popped, left) := MessageTracker.drain psn t.send.inner
  { t with
    send := { inner := left, basePsn := psn }
    merge := popped.foldl MergeQueue.pushSend t.merge }

def ackRecv (t : QueuePairMessageTracker) (psn : Psn) : QueuePairMessageTracker :=
  let (popped, left) := MessageTracker.drain psn t.recv.inner
  { t with
    recv := { inner := left, basePsn := psn }
    merge := popped.foldl MergeQueue.pushRecv t.merge }

/-- The next completion of the send side. -/
def pollSendCompletion (t : QueuePairMessageTracker) :
    Option (SendEvent × Completion) × QueuePairMessageTracker :=
  let (event, merge) := t.merge.popSend
  (event.map fun event => (event, event.completion), { t with merge := merge })

/-- The completion of an event that takes a posted receive, with the receive it takes. -/
def takePostRecv (t : QueuePairMessageTracker) (f : ℕ → Completion) :
    Option (Option Completion × QueuePairMessageTracker) :=
  match t.postRecvQueue with
  | [] => none
  | x :: postRecvQueue => some (some (f x.wrId), { t with postRecvQueue := postRecvQueue })

/-- The completion of a receive event, in `poll_recv_completion`; a read response never gets
there. -/
def completeRecv (t : QueuePairMessageTracker) (event : RecvEvent) :
    Option (Option Completion × QueuePairMessageTracker) :=
  match event.op with
  | .writeWithImm imm => t.takePostRecv fun wrId => .recvRdmaWithImm wrId imm
  | .recv => t.takePostRecv fun wrId => .recv wrId none
  | .recvWithImm imm => t.takePostRecv fun wrId => .recv wrId (some imm)
  | .readResp => none
  | .recvRead | .write => some (none, t)

/-- `QueuePairMessageTracker::poll_recv_completion`: `none` is a panic, `some (none, _)` the end. -/
def pollRecvCompletion (t : QueuePairMessageTracker) :
    Option (Option (RecvEvent × Option Completion) × QueuePairMessageTracker) :=
  match t.merge.popRecv with
  | (none, merge) => some (none, { t with merge := merge })
  | (some event, merge) =>
    (completeRecv { t with merge := merge } event).map fun (completion, t) =>
      (some (event, completion), t)

end QueuePairMessageTracker

/-! ## The worker -/

/-- `CompletionTask`, for one queue pair. -/
inductive CompletionTask
  | register (event : Event)
  | ackSend (basePsn : Psn)
  | ackRecv (basePsn : Psn)
  deriving DecidableEq

/-- What the worker polled while it processed a task: the send events with their completions, and
the receive events with the completions of those that have one. -/
structure CompletionOutput where
  send : List (SendEvent × Completion) := []
  recv : List (RecvEvent × Option Completion) := []
  deriving DecidableEq

namespace CompletionOutput

def sendCq (out : CompletionOutput) : List Completion := out.send.map Prod.snd

def recvCq (out : CompletionOutput) : List Completion := out.recv.filterMap Prod.snd

def rdmaWrite (out : CompletionOutput) : List RdmaWriteTask :=
  out.send.map fun x => .newComplete x.1.messageMeta.msn

def ackTimeout (out : CompletionOutput) : List AckTimeoutTask := out.send.map fun _ => .ack

def ackResp (out : CompletionOutput) : List AckResponse :=
  (out.recv.filter fun y => y.1.ackReq).map fun y =>
    .ack y.1.messageMeta.msn y.1.messageMeta.endPsn

end CompletionOutput

namespace QueuePairMessageTracker

/-- `while let Some(..) = tracker.poll_send_completion()`, for at most `n` rounds. -/
def pollSendLoop : ℕ → QueuePairMessageTracker → List (SendEvent × Completion) ×
    QueuePairMessageTracker
  | 0, t => ([], t)
  | n + 1, t =>
    match t.pollSendCompletion with
    | (none, t) => ([], t)
    | (some x, t) =>
      let (xs, t) := pollSendLoop n t
      (x :: xs, t)

/-- `while let Some(..) = tracker.poll_recv_completion()`, for at most `n` rounds. -/
def pollRecvLoop : ℕ → QueuePairMessageTracker →
    Option (List (RecvEvent × Option Completion) × QueuePairMessageTracker)
  | 0, t => some ([], t)
  | n + 1, t => t.pollRecvCompletion.bind fun
    | (none, t) => some ([], t)
    | (some x, t) => (pollRecvLoop n t).map fun (xs, t) => (x :: xs, t)

/-- What a task makes the worker send, and the tracker after it. -/
def process (qp : QpAttr) (t : QueuePairMessageTracker) :
    CompletionTask → Option (QueuePairMessageTracker × CompletionOutput)
  | .register event => some (t.append event, {})
  | .ackSend basePsn =>
    if qp.sendCq.isSome then
      let t := t.ackSend basePsn
      let (xs, t) := pollSendLoop t.merge.send.length t
      some (t, { send := xs })
    else none
  | .ackRecv basePsn =>
    if qp.sendCq.isSome ∧ qp.recvCq.isSome then
      let t := t.ackRecv basePsn
      let (xs, t) := pollSendLoop t.merge.send.length t
      (pollRecvLoop t.merge.recv.length t).map fun (ys, t) => (t, { send := xs, recv := ys })
    else none

end QueuePairMessageTracker

end OpenRdma.Driver
