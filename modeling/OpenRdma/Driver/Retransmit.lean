import OpenRdma.Driver.Fragmenter

/-!
# The retransmit worker

The send queue of a queue pair as the retransmit worker keeps it: the work requests that may have to
be sent again. The functions are those of one queue pair; `process` returns the queue and the
packets it sends, or `none` where the fragmentation traps.
-/

namespace OpenRdma.Driver

open List

/-- A request and its first number. -/
structure SendQueueElem where
  psn : Psn
  wr : SendWrRdma
  qpParam : QpParams
  deriving DecidableEq

/-- `PacketRetransmitTask`, for one queue pair. -/
inductive PacketRetransmitTask
  | newWr (wr : SendQueueElem)
  | retransmitRange (psnLow psnHigh : Psn)
  | retransmitAll
  | ack (psn : Psn)
  deriving DecidableEq

/-- The requests that may have to be sent again. -/
structure IbvSendQueue where
  inner : List SendQueueElem := []
  basePsn : Psn := default
  deriving DecidableEq, Inhabited

/-- `VecDeque::partition_point`, for a list whose elements that satisfy `p` come first. -/
def partitionPoint {α : Type*} (p : α → Bool) (l : List α) : ℕ := (l.takeWhile p).length

theorem drop_partitionPoint {α : Type*} (p : α → Bool) (l : List α) :
    l.drop (partitionPoint p l) = l.dropWhile p := by
  nth_rewrite 2 [← takeWhile_append_dropWhile (p := p) (l := l)]
  rw [partitionPoint, drop_left]

theorem take_partitionPoint {α : Type*} (p : α → Bool) (l : List α) :
    l.take (partitionPoint p l) = l.takeWhile p := by
  nth_rewrite 2 [← takeWhile_append_dropWhile (p := p) (l := l)]
  rw [partitionPoint, take_left]

theorem partitionPoint_map {α β : Type*} {f : α → β} {p : β → Bool} {q : α → Bool} {l : List α}
    (h : ∀ x ∈ l, p (f x) = q x) : partitionPoint p (l.map f) = partitionPoint q l := by
  unfold partitionPoint
  induction l with
  | nil => rfl
  | cons x l ih =>
    rw [forall_mem_cons] at h
    rw [map_cons, takeWhile_cons, takeWhile_cons, h.1]
    cases q x with
    | false => rfl
    | true => exact congrArg (· + 1) (ih h.2)

namespace IbvSendQueue

def push (sq : IbvSendQueue) (elem : SendQueueElem) : IbvSendQueue :=
  { sq with inner := sq.inner ++ [elem] }

/-- Without the requests before the last that starts before a number. -/
def popUntil (sq : IbvSendQueue) (psn : Psn) : IbvSendQueue :=
  let a := partitionPoint (fun x => x.psn < psn) sq.inner
  { inner := sq.inner.drop (a - 1), basePsn := psn }

/-- The requests that start in a range of numbers. -/
def range (sq : IbvSendQueue) (psnLow psnHigh : Psn) : List SendQueueElem :=
  let a := partitionPoint (fun x => x.psn < psnLow) sq.inner
  let b := partitionPoint (fun x => x.psn < psnHigh) sq.inner
  if a < b then (sq.inner.drop a).take (b - a) else []

end IbvSendQueue

/-- The packets of an element of the queue. -/
def SendQueueElem.packets (sqe : SendQueueElem) : Option (List WrChunk) :=
  wrPacketFragmenter sqe.wr sqe.qpParam sqe.psn

/-- The packets of some elements of the queue, one after the other. -/
def packetsOf : List SendQueueElem → Option (List WrChunk)
  | [] => some []
  | sqe :: sqes => sqe.packets.bind fun ps => (packetsOf sqes).map (ps ++ ·)

def IbvSendQueue.process (sq : IbvSendQueue) :
    PacketRetransmitTask → Option (IbvSendQueue × List WrChunk)
  | .newWr wr => some (sq.push wr, [])
  | .retransmitRange psnLow psnHigh =>
    (packetsOf (sq.range psnLow psnHigh)).map fun packets =>
      (sq, ((packets.dropWhile fun x => x.psn < psnLow).takeWhile fun x => x.psn < psnHigh).map
        WrChunk.setIsRetry)
  | .retransmitAll =>
    (packetsOf sq.inner).map fun packets =>
      (sq, (packets.dropWhile fun x => x.psn < sq.basePsn).map WrChunk.setIsRetry)
  | .ack psn => some (sq.popUntil psn, [])

end OpenRdma.Driver
