import OpenRdma.Driver.Events
import OpenRdma.Driver.Posting
import OpenRdma.Driver.Reports
import OpenRdma.Driver.System

/-!
# Posted receives complete in order

The completion worker keeps the receives that were posted in a queue and completes each message that
takes one with the first of them. So whatever the messages are, the receives posted are those
completed, those that wait, and those on their way to the worker, in this order (`Workers.Posted`).
-/

namespace OpenRdma.Driver

open List Option

/-! ## Identifiers -/

/-- The identifier of the request or receive that is completed. -/
def Completion.wrId : Completion → ℕ
  | .send wrId | .rdmaWrite wrId | .rdmaRead wrId | .recv wrId _ | .recvRdmaWithImm wrId _ => wrId

/-- The receives that tasks for the completion worker register. -/
def postRecvIds (ch : List CompletionTask) : List ℕ :=
  ch.filterMap fun
    | .register (.postRecv x) => some x.wrId
    | _ => none

theorem postRecvIds_append (ch ch' : List CompletionTask) :
    postRecvIds (ch ++ ch') = postRecvIds ch ++ postRecvIds ch' :=
  filterMap_append

theorem postRecvIds_eq_nil {ch : List CompletionTask}
    (h : ∀ t ∈ ch, ∀ x, t ≠ .register (.postRecv x)) : postRecvIds ch = [] := by
  refine filterMap_eq_nil_iff.2 fun t ht => ?_
  cases t with
  | register event =>
    cases event with
    | postRecv x => exact absurd rfl (h _ ht x)
    | send | recv => rfl
  | ackSend | ackRecv => rfl

/-! ## The completion worker -/

namespace QueuePairMessageTracker

def postRecvIds (t : QueuePairMessageTracker) : List ℕ := t.postRecvQueue.map (·.wrId)

variable {t t' : QueuePairMessageTracker}

theorem takePostRecv_ids {f : ℕ → Completion} (hf : ∀ wrId, (f wrId).wrId = wrId)
    {c : Option Completion} (h : t.takePostRecv f = some (c, t')) :
    t.postRecvIds = c.toList.map Completion.wrId ++ t'.postRecvIds := by
  unfold takePostRecv at h
  cases hq : t.postRecvQueue with
  | nil =>
    rw [hq] at h
    cases h
  | cons x xs =>
    rw [hq] at h
    cases h
    rw [postRecvIds, hq]
    simp [postRecvIds, hf]

theorem completeRecv_ids {event : RecvEvent} {c : Option Completion} (h : t.completeRecv event = some (c, t')) :
    t.postRecvIds = c.toList.map Completion.wrId ++ t'.postRecvIds := by
  obtain ⟨op, messageMeta, ackReq⟩ := event
  cases op with
  | writeWithImm imm =>
    exact takePostRecv_ids (f := fun wrId => .recvRdmaWithImm wrId imm) (fun _ => rfl) h
  | recv => exact takePostRecv_ids (f := fun wrId => .recv wrId none) (fun _ => rfl) h
  | recvWithImm imm => exact takePostRecv_ids (f := fun wrId => .recv wrId (some imm)) (fun _ => rfl) h
  | readResp => cases h
  | recvRead | write =>
    cases h
    rfl

theorem pollRecvLoop_ids {n : ℕ} {ys : List (RecvEvent × Option Completion)}
    (h : pollRecvLoop n t = some (ys, t')) :
    t.postRecvIds = (ys.filterMap Prod.snd).map Completion.wrId ++ t'.postRecvIds := by
  induction n generalizing t t' ys with
  | zero =>
    cases h
    rfl
  | succ n ih =>
    cases hrecv : t.merge.recv with
    | nil =>
      simp only [pollRecvLoop, pollRecvCompletion, MergeQueue.popRecv, hrecv] at h
      cases h
      rfl
    | cons e recv =>
      simp only [pollRecvLoop, pollRecvCompletion, MergeQueue.popRecv, hrecv, bind_map] at h
      obtain ⟨⟨c, u⟩, hc, h⟩ := bind_eq_some_iff.1 h
      obtain ⟨⟨zs, u'⟩, hloop, h⟩ := map_eq_some_iff.1 h
      cases h
      have hfirst := completeRecv_ids hc
      rw [ih hloop] at hfirst
      refine (show t.postRecvIds = _ from hfirst).trans ?_
      cases c <;> simp

theorem process_ids {qp : QpAttr} {task : CompletionTask} {out : CompletionOutput}
    (h : t.process qp task = some (t', out)) :
    t.postRecvIds ++ Driver.postRecvIds [task] = out.recvCq.map Completion.wrId ++
    t'.postRecvIds := by
  cases task with
  | register event =>
    cases h
    cases event with
    | postRecv x => simp [postRecvIds, Driver.postRecvIds, append, CompletionOutput.recvCq]
    | send | recv => simp [postRecvIds, Driver.postRecvIds, append, CompletionOutput.recvCq]
  | ackSend p =>
    obtain ⟨xs, u, hp, heq⟩ := process_ackSend h
    cases heq
    have hsame : t'.postRecvQueue = t.postRecvQueue := by
      rw [hp.frame]
      rfl
    simp [postRecvIds, Driver.postRecvIds, CompletionOutput.recvCq, hsame]
  | ackRecv p =>
    obtain ⟨-, h⟩ := ite_none_right_eq_some.1 h
    obtain ⟨⟨ys, u⟩, hloop, heq⟩ := map_eq_some_iff.1 h
    cases heq
    have hsame := (pollSendLoop_spec (le_refl (t.ackRecv p).merge.send.length)).frame
    have hids : t.postRecvIds = postRecvIds
        (pollSendLoop (t.ackRecv p).merge.send.length (t.ackRecv p)).2 := by
      rw [hsame]
      rfl
    rw [hids, pollRecvLoop_ids hloop]
    simp [Driver.postRecvIds, CompletionOutput.recvCq]

end QueuePairMessageTracker

/-! ## The workers -/

namespace Workers

/-- **Receives complete in the order they were posted**: those posted are completed, wait, or are on
their way to the completion worker. -/
def Posted (ids : List ℕ) (s : Workers) : Prop :=
  ids = s.recvCq.map Completion.wrId ++ s.tracker.postRecvIds ++ postRecvIds s.completionCh

variable {qp : QpAttr} {s s' : Workers} {ids : List ℕ}

theorem Posted.send (h : s.Posted ids) {ts : List CompletionTask}
    (hts : ∀ t ∈ ts, ∀ x, t ≠ .register (.postRecv x)) (htracker : s'.tracker = s.tracker)
    (hpolled : s'.recvPolled = s.recvPolled) (hch : s'.completionCh = s.completionCh ++ ts) :
    s'.Posted ids := by
  rw [Posted, recvCq, hpolled, htracker, hch, postRecvIds_append, postRecvIds_eq_nil hts,
    append_nil]
  exact h

theorem Posted.step (h : s.Posted ids) {l : Label} (hs : s.step qp l = some s') :
    s'.Posted (ids ++ match l with | .postRecv wrId => [wrId] | _ => []) := by
  cases fires_of_step hs with
  | postRecv wrId =>
    rw [Posted] at h ⊢
    rw [h]
    simp [recvCq, postRecvIds]
  | post | timeout | noRdmaWrite | noRetransmit | runRetransmit | noCompletion =>
    rw [append_nil]
    exact h
  | report hr =>
    rw [append_nil]
    refine h.send (fun t ht x => ?_) rfl rfl rfl
    rw [(MetaHandler.handleMeta_spec hr).completion] at ht
    rintro rfl
    simp at ht
  | runRdmaWrite _ hr =>
    rw [append_nil]
    refine h.send (fun t ht x => ?_) rfl rfl rfl
    obtain ⟨e, rfl⟩ := SendQueueContext.process_completion hr t ht
    simp
  | @runCompletion task ch r hch hr =>
    have hids := QueuePairMessageTracker.process_ids hr
    rw [Posted, hch, ← singleton_append, postRecvIds_append, append_assoc, ← append_assoc _ _
      (postRecvIds ch), hids] at h
    rw [Posted, h]
    simp [recvCq, afterCompletion, CompletionOutput.recvCq]

end Workers

end OpenRdma.Driver
