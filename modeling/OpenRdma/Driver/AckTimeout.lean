import OpenRdma.Driver.Events
import OpenRdma.Driver.SendSide
import OpenRdma.Foundations.Run

/-!
# The acknowledgement timer

`QpAckTimeoutWorker` counts the requests of a queue pair that wait for an acknowledgement and runs a
timer. An acknowledgement stops the timer when the count falls to zero, but every report of the card
starts it again.
-/

namespace OpenRdma.Driver

open Word List Option

/-! ## The timer -/

/-- A timer, with times in nanoseconds. -/
structure TransportTimer where
  timeoutInterval : Option ℕ
  lastStart : Option ℕ := none
  initRetryCounter : ℕ
  currentRetryCounter : ℕ

inductive TimerResult
  | ok
  | timeout
  | retryLimitExceeded

namespace TransportTimer

/-- `TransportTimer::new`, for a shift of less than 64 bits. -/
def new (localAckTimeout initRetryCounter : ℕ) : TransportTimer where
  timeoutInterval :=
    if localAckTimeout = 0 then none else some (4096 * 2 ^ localAckTimeout % 2 ^ 64)
  initRetryCounter := initRetryCounter
  currentRetryCounter := initRetryCounter

/-- What the timer says at this time, and the timer after it. -/
def checkTimeout (t : TransportTimer) (now : ℕ) : TimerResult × TransportTimer :=
  match t.timeoutInterval, t.lastStart with
  | some timeoutInterval, some startTime =>
    if now - startTime < timeoutInterval then (.ok, t)
    else if t.currentRetryCounter = 0 then (.retryLimitExceeded, t)
    else (.timeout, { t with currentRetryCounter := t.currentRetryCounter - 1, lastStart := some now })
  | _, _ => (.ok, t)

def stop (t : TransportTimer) : TransportTimer := { t with lastStart := none }

def restart (t : TransportTimer) (now : ℕ) : TransportTimer :=
  { t with currentRetryCounter := t.initRetryCounter, lastStart := some now }

end TransportTimer

/-- What a task does to `outstanding_ack_req_cnt`; `none` is an underflow. -/
def AckTimeoutTask.count (cnt : ℕ) : AckTimeoutTask → Option ℕ
  | .newAckReq => some (cnt + 1)
  | .recvMeta => some cnt
  | .ack => checkedSub cnt 1

/-- The worker's entries for one queue pair. -/
structure QpAckTimeoutWorker where
  timer : TransportTimer
  outstandingAckReqCnt : ℕ := 0

namespace QpAckTimeoutWorker

/-- The entries after a task; `none` is an underflow. -/
def process (w : QpAckTimeoutWorker) (now : ℕ) (task : AckTimeoutTask) : Option QpAckTimeoutWorker :=
  (task.count w.outstandingAckReqCnt).map fun cnt =>
    { outstandingAckReqCnt := cnt
      timer :=
        match task with
        | .newAckReq | .recvMeta => w.timer.restart now
        | .ack => if cnt = 0 then w.timer.stop else w.timer }

/-- The tasks for the retransmit worker; `none` is the `todo!` of a queue pair without retries
left. -/
def maintainance (w : QpAckTimeoutWorker) (now : ℕ) :
    Option (QpAckTimeoutWorker × List PacketRetransmitTask) :=
  match w.timer.checkTimeout now with
  | (.ok, timer) => some ({ w with timer := timer }, [])
  | (.timeout, timer) => some ({ w with timer := timer }, [.retransmitAll])
  | (.retryLimitExceeded, _) => none

/-- The worker takes a task at some time, or checks the timer. -/
def step (w : QpAckTimeoutWorker) : ℕ × Option AckTimeoutTask → Option QpAckTimeoutWorker
  | (now, some task) => w.process now task
  | (now, none) => (w.maintainance now).map Prod.fst

/-- With no request that waits, a check of the timer does nothing, at any time. -/
def Silent (w : QpAckTimeoutWorker) : Prop :=
  w.outstandingAckReqCnt = 0 → ∀ now, w.maintainance now = some (w, [])

/-- The task is not a report while no request waits, or the timer is disabled. -/
def ReportWaits (w : QpAckTimeoutWorker) (l : ℕ × Option AckTimeoutTask) : Prop :=
  l.2 = some .recvMeta → w.timer.timeoutInterval = none ∨ w.outstandingAckReqCnt ≠ 0

instance (w : QpAckTimeoutWorker) (l : ℕ × Option AckTimeoutTask) : Decidable (w.ReportWaits l) :=
  inferInstanceAs (Decidable (_ → _))

variable {w w' : QpAckTimeoutWorker} {l : ℕ × Option AckTimeoutTask}

/-- The timer does not run while no request waits. -/
theorem silent_iff : w.Silent ↔
    w.timer.timeoutInterval = none ∨ (w.outstandingAckReqCnt = 0 → w.timer.lastStart = none) := by
  unfold Silent maintainance TransportTimer.checkTimeout
  cases hi : w.timer.timeoutInterval with
  | none => simp
  | some interval =>
    cases hl : w.timer.lastStart with
    | none => simp
    | some start =>
      simp only [reduceCtorEq, false_or]
      refine ⟨fun h hcnt => ?_, fun h hcnt => absurd hcnt h⟩
      -- the timer expires an interval after its start
      have := h hcnt (start + interval)
      rw [Nat.add_sub_cancel_left, if_neg (lt_irrefl _)] at this
      split_ifs at this
      exact absurd (congrArg Prod.snd (some.inj this)) (cons_ne_nil _ _)

/-- A check starts the timer only if it was running. -/
theorem maintainance_eq {now : ℕ} {out : List PacketRetransmitTask} (h : w.maintainance now = some (w', out)) :
    w'.outstandingAckReqCnt = w.outstandingAckReqCnt ∧
      w'.timer.timeoutInterval = w.timer.timeoutInterval ∧
      (w.timer.lastStart = none → w'.timer.lastStart = none) := by
  unfold maintainance TransportTimer.checkTimeout at h
  cases hi : w.timer.timeoutInterval with
  | none =>
    rw [hi] at h
    cases h
    exact ⟨rfl, hi, id⟩
  | some interval =>
    cases hl : w.timer.lastStart with
    | none =>
      rw [hi, hl] at h
      cases h
      exact ⟨rfl, hi, fun _ => hl⟩
    | some start =>
      rw [hi, hl] at h
      dsimp only at h
      split_ifs at h <;> cases h
      · exact ⟨rfl, hi, nofun⟩
      · exact ⟨rfl, rfl, nofun⟩

theorem silent_iff_of_step (hw : w.Silent) (hs : w.step l = some w') :
    w'.Silent ↔ w.ReportWaits l := by
  rw [silent_iff] at hw ⊢
  obtain ⟨now, _ | task⟩ := l
  · obtain ⟨⟨_, out⟩, hm, rfl⟩ := map_eq_some_iff.1 hs
    obtain ⟨hcnt, hinterval, hstart⟩ := maintainance_eq hm
    rw [hcnt, hinterval]
    exact iff_of_true (hw.imp_right fun h h0 => hstart (h h0)) nofun
  · obtain ⟨cnt, hcnt, rfl⟩ := map_eq_some_iff.1 hs
    cases task with
    | newAckReq =>
      cases hcnt
      exact iff_of_true (.inr nofun) nofun
    | recvMeta =>
      cases hcnt
      simp [ReportWaits, TransportTimer.restart]
    | ack =>
      refine iff_of_true ?_ nofun
      by_cases h0 : cnt = 0
      · exact .inr fun _ => by simp [h0, TransportTimer.stop]
      · exact .inr fun h => absurd h h0

/-- **The timer of a queue pair without requests that wait** is silent along every run in which no
report comes while there are none, and ceases to be silent exactly at a report that does. -/
theorem silent_iff_of_run {localAckTimeout retries : ℕ} {ls : List (ℕ × Option AckTimeoutTask)}
    (h : Run step ReportWaits ⟨.new localAckTimeout retries, 0⟩ ls w) :
    w.Silent ∧ ∀ l w', w.step l = some w' → (w'.Silent ↔ w.ReportWaits l) := by
  have hw : w.Silent := h.invariant (I := fun _ w => w.Silent) (silent_iff.2 (.inr fun _ => rfl))
    fun _ _ _ _ hw hok hs => (silent_iff_of_step hw hs).2 hok
  exact ⟨hw, fun _ _ => silent_iff_of_step hw⟩

theorem silent_after_acknowledgement :
    Silent ⟨.stop (.restart (.new 50 5) 1), 0⟩ := by
  have h : Run step ReportWaits ⟨.new 50 5, 0⟩ [(1, some .newAckReq), (2, some .ack)]
      ⟨.stop (.restart (.new 50 5) 1), 0⟩ := .of_exec rfl
  exact (silent_iff_of_run h).1

/-- A report starts the timer of a fresh queue pair with the default configuration. It asks for
everything to be sent again five times, and then panics. -/
theorem timer_expires_without_requests :
    ∃ w, Run step (fun _ _ => True) ⟨.new 50 5, 0⟩ [(0, some .recvMeta)] w ∧
    w.outstandingAckReqCnt = 0 ∧
      (∃ w', w.maintainance (2 ^ 62) = some (w', [.retransmitAll])) ∧
      ∃ w', Run step (fun _ _ => True) w
          [(2 ^ 62, none), (2 ^ 63, none), (2 ^ 64, none), (2 ^ 65, none), (2 ^ 66, none)] w' ∧
        w'.outstandingAckReqCnt = 0 ∧ w'.maintainance (2 ^ 67) = none :=
  ⟨_, .of_exec rfl, rfl, ⟨_, rfl⟩, _, .of_exec rfl, rfl, rfl⟩

end QpAckTimeoutWorker

/-! ## The count -/

/-- What the tasks that wait make of the count. -/
def countAll (cnt : ℕ) (tasks : List AckTimeoutTask) : Option ℕ :=
  tasks.foldlM AckTimeoutTask.count cnt

theorem countAll_append (cnt : ℕ) (tasks tasks' : List AckTimeoutTask) :
    countAll cnt (tasks ++ tasks') = (countAll cnt tasks).bind (countAll · tasks') :=
  foldlM_append

theorem countAll_ack {α : Type} {xs : List α} {cnt : ℕ} (h : xs.length ≤ cnt) :
    countAll cnt (xs.map fun _ => .ack) = some (cnt - xs.length) := by
  induction xs generalizing cnt with
  | nil => rfl
  | cons x xs ih =>
    rw [length_cons] at h ⊢
    rw [add_comm, ← Nat.sub_sub, ← ih (by omega), countAll, map_cons, foldlM_cons,
      AckTimeoutTask.count, checkedSub, if_pos (by omega)]
    rfl

namespace SendQueueContext

variable {qp : QpAttr} {ctx : SendQueueContext} {wr : SendWrRdma}

/-- The task is a signaled request that the worker sends. -/
def sendsSignaled (qp : QpAttr) (ctx : SendQueueContext) : RdmaWriteTask → Bool
  | .write wr => wr.signaled && (ctx.post qp wr).any fun r => r.1.isOk
  | _ => false

/-- What the worker tells the other two about a request, by whether it is a signaled one that is
sent. -/
def Tells (signaled : Bool) (out : RdmaOutput) : Prop :=
  if signaled then (∃ e, out.completion = [.register (.send e)]) ∧ out.timeout = [.newAckReq]
  else out.completion = [] ∧ out.timeout = []

theorem tells_of_register {op : Option SendEventOp} {msn : Msn} {endPsn : Psn}
    {tasks : List CompletionTask} (h : registerEvent qp wr op msn endPsn = .ok tasks)
    {out : RdmaOutput} (hcompletion : out.completion = tasks) (htimeout : out.timeout =
    if wr.signaled then [.newAckReq] else []) : Tells wr.signaled out := by
  unfold registerEvent at h
  unfold Tells
  split_ifs at h htimeout ⊢ with hsignaled
  · split at h <;> cases h
    exact ⟨⟨_, hcompletion⟩, htimeout⟩
  · cases h
    exact ⟨hcompletion, htimeout⟩

theorem rdmaRead_tells :
    Tells (wr.signaled && (ctx.rdmaRead qp wr).1.isOk) (ctx.rdmaRead qp wr).2.2 := by
  unfold rdmaRead
  cases ctx.nextWr 1 with
  | none => simp [Tells, Except.isOk, Except.toBool]
  | some r =>
    dsimp only [elim_some]
    split
    · simp [Tells, Except.isOk, Except.toBool]
    · next hreg =>
      rw [show (wr.signaled && Except.isOk _) = wr.signaled from Bool.and_true _]
      exact tells_of_register hreg rfl rfl

theorem write_tells {r : RdmaResult} (hr : ctx.write qp wr = some r) :
    Tells (wr.signaled && r.1.isOk) r.2.2 := by
  have herror : ∀ e, Tells (wr.signaled && (Except.error e : Except IoErrorKind Unit).isOk) {} := by
    simp [Tells, Except.isOk, Except.toBool]
  obtain ⟨-, hr⟩ := ite_none_left_eq_some.1 hr
  cases hn : numPsn qp.pmtu wr.raddr wr.length with
  | none =>
    rw [hn] at hr
    cases hr
    exact herror _
  | some n =>
    rw [hn, elim_some] at hr
    cases hw : ctx.nextWr n with
    | none =>
      rw [hw] at hr
      cases hr
      exact herror _
    | some x =>
      rw [hw, elim_some] at hr
      dsimp only at hr
      split at hr
      · cases hr
        exact herror _
      · next hreg =>
        obtain ⟨chunks, -, rfl⟩ := map_eq_some_iff.1 hr
        rw [show (wr.signaled && Except.isOk _) = wr.signaled from Bool.and_true _]
        exact tells_of_register hreg rfl rfl

/-- **The write worker registers an event and announces the request exactly for signaled requests it
sends.** -/
theorem process_tells {task : RdmaWriteTask} {r : SendQueueContext × RdmaOutput}
    (hr : ctx.process qp task = some r) : Tells (sendsSignaled qp ctx task) r.2 := by
  cases task with
  | write wr =>
    obtain ⟨x, hx, rfl⟩ := map_eq_some_iff.1 hr
    rw [sendsSignaled, hx, any_some]
    unfold post at hx
    split at hx
    case h_6 =>
      cases hx
      exact rdmaRead_tells
    case h_7 => cases hx
    all_goals exact write_tells hx
  | ack | newComplete =>
    cases hr
    exact ⟨rfl, rfl⟩

end SendQueueContext

theorem MetaHandler.handleMeta_ackTimeout {h : MetaHandler} {m : ReportMeta}
    {r : MetaHandler × MetaOutput} (hr : h.handleMeta m = some r) :
    r.2.ackTimeout = [.recvMeta] := by
  have hrecv (o : Option Psn) : ((o.map receiverUpdates).getD {}).ackTimeout = [] := by
    cases o <;> rfl
  have hsend (o : Option Psn) : ((o.map senderUpdates).getD {}).ackTimeout = [] := by
    cases o <;> rfl
  cases m with
  | cnp => cases hr
  | headerWrite | headerRead =>
    cases hr
    rfl
  | ackLocalHw | nakLocalHw =>
    cases hr
    exact congrArg (_ :: ·) (hrecv _)
  | ackRemoteDriver | nakRemoteHw | nakRemoteDriver =>
    cases hr
    exact congrArg (_ :: ·) (hsend _)

/-! ### Events of requests -/

/-- The task registers the event of a request. -/
def CompletionTask.isRequest : CompletionTask → Bool
  | .register (.send _) => true
  | _ => false

/-- The first task acknowledges the end of the request that the second one registers. -/
def CompletionTask.Covers : CompletionTask → CompletionTask → Prop
  | .ackSend p, .register (.send e) => e.messageMeta.endPsn ≤ p
  | _, _ => False

instance (task task' : CompletionTask) : Decidable (task.Covers task') := by
  unfold CompletionTask.Covers
  split <;> infer_instance

theorem MessageTracker.mem_append_or {E : Type} [EventMeta E] (t : MessageTracker E) (event : E) :
    (t.append event).inner = t.inner ∨
      (t.append event).inner.length = t.inner.length + 1 ∧ event ∈ (t.append event).inner ∧
        t.inner ⊆ (t.append event).inner := by
  have hinsert : ∀ k ≤ t.inner.length, (t.inner.insertIdx k event).length = t.inner.length + 1 ∧
      event ∈ t.inner.insertIdx k event ∧ t.inner ⊆ t.inner.insertIdx k event := by
    intro k hk
    refine ⟨length_insertIdx_of_le_length hk event, (mem_insertIdx hk).2 (.inl rfl), fun e he => ?_⟩
    exact (mem_insertIdx hk).2 (.inr he)
  unfold append
  dsimp only
  split
  · split_ifs
    · exact .inr (hinsert _ (Nat.sub_le _ _))
    · exact .inl rfl
  · exact .inr (hinsert _ (Nat.sub_le _ _))

theorem MessageTracker.mem_drain {E : Type} [EventMeta E] {p : Psn} {es : List E} {e : E}
    (he : e ∈ es) (hp : ¬ (EventMeta.messageMeta e).endPsn ≤ p) : e ∈ (drain p es).2 := by
  induction es with
  | nil => cases he
  | cons x es ih =>
    rw [drain]
    split_ifs with hx
    · rcases mem_cons.1 he with rfl | he
      · exact absurd hx hp
      · exact ih he
    · exact he

namespace QueuePairMessageTracker

variable {qp : QpAttr} {t : QueuePairMessageTracker}
  {r : QueuePairMessageTracker × CompletionOutput}

/-- How many events of requests the tracker holds. -/
def requests (t : QueuePairMessageTracker) : ℕ := t.merge.send.length + t.send.inner.length

theorem PolledSend.requests_eq {xs : List (SendEvent × Completion)} {u : QueuePairMessageTracker}
    (h : t.PolledSend xs u) : xs.length + u.requests = t.requests ∧ u.send = t.send := by
  have hsend : u.send = t.send := by rw [h.frame]
  refine ⟨?_, hsend⟩
  rw [requests, requests, hsend, h.send, length_append, length_map, add_assoc]

theorem requests_ackSend (t : QueuePairMessageTracker) (p : Psn) :
    (t.ackSend p).requests = t.requests := by
  have := congrArg length (MessageTracker.drain_append p t.send.inner)
  rw [length_append] at this
  simp only [requests, ackSend, MergeQueue.foldl_pushSend, length_append]
  omega

theorem requests_ackRecv (t : QueuePairMessageTracker) (p : Psn) :
    (t.ackRecv p).requests = t.requests := by
  simp only [requests, ackRecv, MergeQueue.foldl_pushRecv]

/-- **The completion worker makes up no event of a request**, and keeps one until an acknowledgement
covers it. -/
theorem process_requests {task : CompletionTask} (hr : t.process qp task = some r) :
    r.2.send.length + r.1.requests ≤ t.requests + (if task.isRequest then 1 else 0) ∧
      (∀ e ∈ t.send.inner, ¬ task.Covers (.register (.send e)) → e ∈ r.1.send.inner) ∧
      ∀ e, task = .register (.send e) → e ∈ r.1.send.inner ∨ r.2.send.length + r.1.requests ≤
      t.requests := by
  cases task with
  | register event =>
    cases hr
    cases event with
    | send e =>
      have hsame : ({} : CompletionOutput).send.length + (t.append (.send e)).requests =
          t.merge.send.length + (t.send.append e).inner.length := Nat.zero_add _
      rw [hsame]
      obtain heq | ⟨hlen, hmem, hsub⟩ := t.send.mem_append_or e
      · rw [heq]
        refine ⟨Nat.le_succ _, fun x hx _ => heq ▸ hx, fun x _ => .inr le_rfl⟩
      · rw [hlen]
        refine ⟨le_rfl, fun x hx _ => hsub hx, ?_⟩
        rintro x ⟨⟩
        exact .inl hmem
    | recv | postRecv => exact ⟨(Nat.zero_add _).le, fun e he _ => he, nofun⟩
  | ackSend p =>
    obtain ⟨xs, u, hp, rfl⟩ := process_ackSend hr
    obtain ⟨hreq, hsend⟩ := hp.requests_eq
    refine ⟨(hreq.trans (requests_ackSend t p)).le, fun e he hcovers => ?_, nofun⟩
    dsimp only
    rw [hsend]
    exact MessageTracker.mem_drain he hcovers
  | ackRecv p =>
    obtain ⟨xs, t', ys, u, hp, hrecv, rfl⟩ := process_ackRecv hr
    obtain ⟨hreq, hsend⟩ := hp.requests_eq
    have hframe : u.requests = t'.requests ∧ u.send = t'.send := by
      rw [hrecv.frame]
      exact ⟨rfl, rfl⟩
    dsimp only
    rw [hframe.1, hframe.2, hsend]
    exact ⟨(hreq.trans (requests_ackRecv t p)).le, fun e he _ => he, nofun⟩

end QueuePairMessageTracker

/-! ### All workers -/

/-- The workers of a queue pair, where the write worker has still to send what comes after the
completion task of `unsent`, with the count and the number of signaled requests it sends. -/
structure CountedWorkers where
  workers : Workers := {}
  unsent : Option RdmaOutput := none
  cnt : ℕ := 0
  signaled : ℕ := 0
  deriving DecidableEq

/-- The write worker takes a task, or sends the rest for it, the timeout worker takes a task, or
another worker takes a step. -/
inductive CountLabel
  | write
  | writeRest
  | count
  | other (l : Label)

namespace CountedWorkers

/-- The write worker registers the completion of a request before it sends the rest, the task for
the timeout worker first. -/
def step (qp : QpAttr) (s : CountedWorkers) : CountLabel → Option CountedWorkers
  | .write =>
    match s.workers.rdmaWriteCh, s.unsent with
    | task :: ch, none => (s.workers.ctx.process qp task).map fun r =>
      { s with
        workers := s.workers.afterRdmaWrite ch r.1 { completion := r.2.completion }
        unsent := some r.2
        signaled := s.signaled + if s.workers.ctx.sendsSignaled qp task then 1 else 0 }
    | _, _ => none
  | .writeRest => s.unsent.map fun out =>
    { s with
      workers := s.workers.afterRdmaWrite s.workers.rdmaWriteCh s.workers.ctx
        { out with completion := [] }
      unsent := none }
  | .count =>
    match s.workers.ackTimeoutCh with
    | [] => some s
    | task :: ch => (task.count s.cnt).map fun cnt =>
      { s with workers := { s.workers with ackTimeoutCh := ch }, cnt := cnt }
  | .other l =>
    if l = .runRdmaWrite then none else (s.workers.step qp l).map fun w => { s with workers := w }

/-- The completion worker does not take the acknowledgement of a request that the write worker has
registered and not yet announced to the timeout worker. -/
def Announced (s : CountedWorkers) (l : CountLabel) : Prop :=
  match l with
  | .other .runCompletion => ∀ out ∈ s.unsent, ∀ task ∈ s.workers.completionCh.head?,
      ∀ t ∈ out.completion, ¬ task.Covers t
  | _ => True

instance (s : CountedWorkers) (l : CountLabel) : Decidable (s.Announced l) := by
  unfold Announced
  split
  · exact inferInstanceAs (Decidable (∀ out ∈ s.unsent, ∀ task ∈ _, ∀ t ∈ out.completion, _))
  · exact inferInstanceAs (Decidable True)

/-- The requests completed, and those whose events the completion worker holds or will get. -/
def known (s : CountedWorkers) : ℕ :=
  s.workers.sendPolled.length + s.workers.tracker.requests +
    s.workers.completionCh.countP CompletionTask.isRequest

/-- The completion worker holds the event or will get it. -/
def Waits (s : CountedWorkers) (e : SendEvent) : Prop :=
  e ∈ s.workers.tracker.send.inner ∨ .register (.send e) ∈ s.workers.completionCh

/-- The requests the timeout worker has still to be told of. -/
def unannounced (s : CountedWorkers) : ℕ := (s.unsent.map fun out => out.timeout.length).getD 0

/-- No more requests are known than were sent, and one that is not announced is not completed. -/
structure Accounted (s : CountedWorkers) : Prop where
  known_le : s.known ≤ s.signaled
  unsent : ∀ out ∈ s.unsent, (out.completion = [] ∧ out.timeout = []) ∨
    ∃ e, out.completion = [.register (.send e)] ∧ out.timeout = [.newAckReq] ∧
      (s.Waits e ∨ s.known < s.signaled)

/-- The tasks that wait bring the count to the requests that were announced and not completed. -/
structure Inv (s : CountedWorkers) : Prop extends Accounted s where
  count : countAll s.cnt s.workers.ackTimeoutCh =
    some (s.signaled - s.unannounced - s.workers.sendPolled.length)

variable {qp : QpAttr} {s s' : CountedWorkers} {l : CountLabel}

theorem Accounted.polled_le (hi : s.Accounted) :
    s.workers.sendPolled.length + s.unannounced ≤ s.signaled := by
  have hle := hi.known_le
  rw [known, QueuePairMessageTracker.requests] at hle
  rw [unannounced]
  cases hout : s.unsent with
  | none =>
    simp only [Option.map_none, getD_none]
    omega
  | some out =>
    obtain ⟨-, htimeout⟩ | ⟨e, -, htimeout, hwaits⟩ := hi.unsent out hout
    · simp only [Option.map_some, getD_some, htimeout, length_nil]
      omega
    · simp only [Option.map_some, getD_some, htimeout, length_singleton]
      obtain (hmem | hmem) | hlt := hwaits
      · have := length_pos_of_mem hmem
        omega
      · have := (countP_pos_iff (p := CompletionTask.isRequest)).2 ⟨_, hmem, rfl⟩
        omega
      · rw [known, QueuePairMessageTracker.requests] at hlt
        omega

/-- A step of another worker that registers and completes no request. -/
theorem Inv.frame (hi : s.Inv) {w : Workers} (hpolled : w.sendPolled = s.workers.sendPolled)
    (htracker : w.tracker = s.workers.tracker) {ts : List CompletionTask} {us : List AckTimeoutTask}
    (hch : w.completionCh = s.workers.completionCh ++ ts) (hts : ∀ t ∈ ts, t.isRequest = false)
    (htimeout : w.ackTimeoutCh = s.workers.ackTimeoutCh ++ us) (hus : ∀ cnt,
      countAll cnt us = some cnt) :
    Inv { s with workers := w } := by
  have hcount : ts.countP CompletionTask.isRequest = 0 :=
    countP_eq_zero.2 fun t ht => by rw [hts t ht]; exact Bool.false_ne_true
  have hknown : known { s with workers := w } = s.known := by
    rw [known, known, hpolled, htracker, hch, countP_append, hcount, add_zero]
  refine ⟨⟨hknown.trans_le hi.known_le, fun out hout => (hi.unsent out hout).imp_right ?_⟩, ?_⟩
  · rintro ⟨e, hcompletion, htimeout, hwaits⟩
    refine ⟨e, hcompletion, htimeout, hwaits.imp (fun h => ?_) (hknown.trans_lt ·)⟩
    dsimp only [Waits]
    rw [htracker, hch]
    exact h.imp_right (mem_append_left _)
  · change countAll s.cnt w.ackTimeoutCh = some (s.signaled - s.unannounced - w.sendPolled.length)
    rw [htimeout, countAll_append, hi.count, hpolled]
    exact hus _

theorem Inv.write (hi : s.Inv) (hs : s.step qp .write = some s') : s'.Inv := by
  rw [CountedWorkers.step] at hs
  split at hs
  case h_2 => cases hs
  next task ch hch hnone =>
    obtain ⟨r, hr, rfl⟩ := map_eq_some_iff.1 hs
    have htells := SendQueueContext.process_tells hr
    have hle := hi.known_le
    have hcount := hi.count
    have hzero : s.unannounced = 0 := by rw [unannounced, hnone]; rfl
    rw [hzero] at hcount
    unfold SendQueueContext.Tells at htells
    split_ifs at htells with hsignaled
    · obtain ⟨⟨e, hcompletion⟩, htimeout⟩ := htells
      refine ⟨⟨?_, ?_⟩, ?_⟩
      · simp only [known, Workers.afterRdmaWrite, hcompletion, countP_append, countP_singleton,
          CompletionTask.isRequest, if_true, if_pos hsignaled] at hle ⊢
        omega
      · rintro _ ⟨⟩
        refine .inr ⟨e, hcompletion, htimeout, .inl (.inr ?_)⟩
        rw [Workers.afterRdmaWrite, hcompletion]
        exact mem_append_right _ (mem_singleton.2 rfl)
      · simp only [Workers.afterRdmaWrite, append_nil, unannounced, Option.map_some,
          getD_some, htimeout, length_singleton, if_pos hsignaled, Nat.add_sub_cancel]
        exact hcount
    · obtain ⟨hcompletion, htimeout⟩ := htells
      refine ⟨⟨?_, ?_⟩, ?_⟩
      · simpa [known, Workers.afterRdmaWrite, hcompletion, hsignaled] using hle
      · rintro _ ⟨⟩
        exact .inl ⟨hcompletion, htimeout⟩
      · simpa [Workers.afterRdmaWrite, unannounced, htimeout, hsignaled] using hcount

theorem Inv.writeRest (hi : s.Inv) (hs : s.step qp .writeRest = some s') : s'.Inv := by
  obtain ⟨out, hout, rfl⟩ := map_eq_some_iff.1 hs
  refine ⟨⟨?_, nofun⟩, ?_⟩
  · simpa [known, Workers.afterRdmaWrite] using hi.known_le
  · have hle := hi.polled_le
    have hcount := hi.count
    have hun : s.unannounced = out.timeout.length := by rw [unannounced, hout]; rfl
    change countAll s.cnt (s.workers.ackTimeoutCh ++ out.timeout) =
      some (s.signaled - 0 - s.workers.sendPolled.length)
    rw [countAll_append, hcount, Option.bind_some, hun]
    rw [hun] at hle
    obtain ⟨-, htimeout⟩ | ⟨e, -, htimeout, -⟩ := hi.unsent out hout <;> rw [htimeout] at hle ⊢
    · rfl
    · exact congrArg some (by simp only [length_singleton] at hle ⊢; omega)

theorem Inv.runCompletion (hi : s.Inv) (hok : s.Announced (.other .runCompletion))
    {task : CompletionTask} {ch : List CompletionTask} {r : QueuePairMessageTracker ×
    CompletionOutput} (hch : s.workers.completionCh = task :: ch) (hr :
    s.workers.tracker.process qp task = some r) :
    Inv { s with workers := s.workers.afterCompletion ch r.1 r.2 } := by
  obtain ⟨hreq, hkeeps, hregistered⟩ := QueuePairMessageTracker.process_requests hr
  have hknown : s.known = s.workers.sendPolled.length + s.workers.tracker.requests +
      (ch.countP CompletionTask.isRequest + if task.isRequest then 1 else 0) := by
    rw [known, hch, countP_cons]
  have hknown' : known { s with workers := s.workers.afterCompletion ch r.1 r.2 } =
      s.workers.sendPolled.length + (r.2.send.length + r.1.requests) +
      ch.countP CompletionTask.isRequest := by
    simp only [known, Workers.afterCompletion, length_append]
    omega
  have hle := hi.known_le
  have hacc : Accounted { s with workers := s.workers.afterCompletion ch r.1 r.2 } := by
    refine ⟨by dsimp only; omega, fun out hout => (hi.unsent out hout).imp_right ?_⟩
    rintro ⟨e, hcompletion, htimeout, hwaits⟩
    refine ⟨e, hcompletion, htimeout, ?_⟩
    obtain (hmem | hmem) | hlt := hwaits
    · refine .inl (.inl (hkeeps e hmem (hok out hout task (by rw [hch]; rfl) _ ?_)))
      rw [hcompletion]
      exact mem_singleton.2 rfl
    · rw [hch] at hmem
      rcases mem_cons.1 hmem with htask | hmem
      · refine (hregistered e htask.symm).imp .inl fun hreq => ?_
        rw [← htask] at hknown
        simp only [CompletionTask.isRequest, if_true] at hknown
        dsimp only
        omega
      · exact .inl (.inr hmem)
    · exact .inr (by dsimp only; omega)
  have hpolled : s.workers.sendPolled.length + r.2.send.length + s.unannounced ≤ s.signaled := by
    rw [← length_append]
    exact hacc.polled_le
  refine ⟨hacc, ?_⟩
  change countAll s.cnt (s.workers.ackTimeoutCh ++ r.2.ackTimeout) =
    some (s.signaled - s.unannounced - (s.workers.sendPolled ++ r.2.send).length)
  rw [countAll_append, hi.count, Option.bind_some, CompletionOutput.ackTimeout,
    countAll_ack (by omega), Nat.sub_sub _ s.workers.sendPolled.length, length_append]

theorem Inv.step (hi : s.Inv) (hok : s.Announced l) (hs : s.step qp l = some s') : s'.Inv := by
  cases l with
  | write => exact hi.write hs
  | writeRest => exact hi.writeRest hs
  | count =>
    rw [CountedWorkers.step] at hs
    split at hs
    · cases hs
      exact hi
    · next task ch hch =>
      obtain ⟨cnt, hcnt, rfl⟩ := map_eq_some_iff.1 hs
      have hcount := hi.count
      rw [hch, countAll, foldlM_cons, hcnt] at hcount
      exact ⟨⟨hi.known_le, hi.unsent⟩, hcount⟩
  | other l =>
    obtain ⟨hl, hs⟩ := ite_none_left_eq_some.1 hs
    obtain ⟨w, hw, rfl⟩ := map_eq_some_iff.1 hs
    cases Workers.fires_of_step hw with
    | report hr =>
      refine hi.frame rfl rfl rfl (fun t ht => ?_) rfl fun cnt => ?_
      · rw [(MetaHandler.handleMeta_spec hr).completion] at ht
        simp only [mem_append, Option.mem_toList] at ht
        obtain (ht | ht) | ht := ht <;>
        · obtain ⟨_, -, rfl⟩ := Option.mem_map.1 ht
          rfl
      · rw [MetaHandler.handleMeta_ackTimeout hr]
        rfl
    | postRecv wrId => exact hi.frame rfl rfl rfl (by simp [CompletionTask.isRequest]) (append_nil _).symm fun _ => rfl
    | runCompletion hch hr => exact hi.runCompletion hok hch hr
    | noRdmaWrite | runRdmaWrite => exact absurd rfl hl
    | _ => exact hi.frame rfl rfl (append_nil _).symm nofun (append_nil _).symm fun _ => rfl

end CountedWorkers

end OpenRdma.Driver
