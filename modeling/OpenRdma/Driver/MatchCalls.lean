import OpenRdma.Driver.Peers
import OpenRdma.Foundations.Run

/-!
# Calls that match requests

A call of `try_match_pendings` that is not interrupted sends the tasks of the first requests that
wait, each with the next receive if it needs one, and stops where this is not possible (`settle`). A
thread that posts and one that takes a receive from the peer each append to a queue and then make
such a call. Their accesses interleave, and a round of one thread is not atomic for the other.
-/

namespace OpenRdma.Driver

open List Option Function MatchQueues

/-! ## What a call does -/

/-- The tasks of requests, each with the next of the receives if it needs one. -/
inductive Pairs : List SendWr → List RecvWr → List SendWrRdma → Prop
  | nil : Pairs [] [] []
  | plain {wr sends recvs tasks} (hop : wr.opcode ≠ .rdmaWriteWithImm)
      (h : Pairs sends recvs tasks) : Pairs (.rdma wr :: sends) recvs (wr :: tasks)
  | imm {wr recv sends recvs tasks} (hop : wr.opcode = .rdmaWriteWithImm)
      (h : Pairs sends recvs tasks) : Pairs (.rdma wr :: sends) (recv :: recvs) (wr :: tasks)
  /-- A send is written to the address of the receive, with its key. -/
  | send {base task recv sends recvs tasks} (hsent : SentInto base recv task)
      (h : Pairs sends recvs tasks) : Pairs (.send base :: sends) (recv :: recvs) (task :: tasks)

/-- Why a call stops, with its result. -/
inductive Stuck (qpn : ℕ) : MatchQueues → Except RdmaError Unit → Prop
  | empty (recvs) : Stuck qpn ⟨[], recvs⟩ (.ok ())
  | blocked {send sends} (h : send.needsRecvWr = true) : Stuck qpn ⟨send :: sends, []⟩ (.ok ())
  | mismatch {base sends recv recvs} (h : base.length ≠ recv.length) :
      Stuck qpn ⟨.send base :: sends, recv :: recvs⟩ (.error (lengthMismatch qpn base recv))

/-- The outcome of a call: its result, the queues and the tasks sent. -/
abbrev Outcome := Except RdmaError Unit × MatchQueues × List SendWrRdma

/-- The outcome of a call that also sent some tasks before. -/
def Outcome.after (tasks : List SendWrRdma) (o : Outcome) : Outcome := (o.1, o.2.1, tasks ++ o.2.2)

/-- What a call that is not interrupted does with the requests and the receives. -/
def settleFrom (qpn : ℕ) : List SendWr → List RecvWr → Outcome
  | [], recvs => (.ok (), ⟨[], recvs⟩, [])
  | .rdma wr :: sends, recvs =>
    if wr.opcode = .rdmaWriteWithImm then
      if recvs = [] then (.ok (), ⟨.rdma wr :: sends, recvs⟩, [])
        else (settleFrom qpn sends recvs.tail).after [wr]
    else (settleFrom qpn sends recvs).after [wr]
  | .send base :: sends, [] => (.ok (), ⟨.send base :: sends, []⟩, [])
  | .send base :: sends, recv :: recvs =>
    if base.length = recv.length then (settleFrom qpn sends recvs).after [.newFromBase base recv]
    else (.error (lengthMismatch qpn base recv), ⟨.send base :: sends, recv :: recvs⟩, [])

/-- What a call that is not interrupted does. -/
def MatchQueues.settle (q : MatchQueues) (qpn : ℕ) : Outcome :=
  settleFrom qpn q.pendingSend q.recvWr

/-- From the queues `q` to the queues `q'`, some requests were sent as `tasks` and the receives they
needed were used. -/
def Progress (q : MatchQueues) (tasks : List SendWrRdma) (q' : MatchQueues) : Prop :=
  ∃ sends recvs, q.pendingSend = sends ++ q'.pendingSend ∧ q.recvWr = recvs ++ q'.recvWr ∧
    Pairs sends recvs tasks

variable {qpn : ℕ} {q q' q'' : MatchQueues} {tasks tasks' : List SendWrRdma}
  {result : Except RdmaError Unit}

theorem Pairs.length_eq {sends : List SendWr} {recvs : List RecvWr} (h : Pairs sends recvs tasks) :
    tasks.length = sends.length := by
  induction h with
  | nil => rfl
  | plain _ _ ih | imm _ _ ih | send _ _ ih => rw [length_cons, length_cons, ih]

theorem Pairs.append {sends sends' : List SendWr} {recvs recvs' : List RecvWr}
    (h : Pairs sends recvs tasks) (h' : Pairs sends' recvs' tasks') :
    Pairs (sends ++ sends') (recvs ++ recvs') (tasks ++ tasks') := by
  induction h with
  | nil => exact h'
  | plain hop _ ih => exact .plain hop ih
  | imm hop _ ih => exact .imm hop ih
  | send hsent _ ih => exact .send hsent ih

namespace Progress

theorem refl (q : MatchQueues) : Progress q [] q := ⟨[], [], rfl, rfl, .nil⟩

variable (h : Progress q tasks q')
include h

theorem trans (h' : Progress q' tasks' q'') : Progress q (tasks ++ tasks') q'' := by
  obtain ⟨sends, recvs, hs, hr, hp⟩ := h
  obtain ⟨sends', recvs', hs', hr', hp'⟩ := h'
  refine ⟨sends ++ sends', recvs ++ recvs', ?_, ?_, hp.append hp'⟩
  · rw [hs, hs', append_assoc]
  · rw [hr, hr', append_assoc]

/-- What is appended to the queues does not change what was sent. -/
theorem push (sends : List SendWr) (recvs : List RecvWr) :
    Progress ⟨q.pendingSend ++ sends, q.recvWr ++ recvs⟩ tasks
      ⟨q'.pendingSend ++ sends, q'.recvWr ++ recvs⟩ := by
  obtain ⟨sends', recvs', hs, hr, hp⟩ := h
  refine ⟨sends', recvs', ?_, ?_, hp⟩
  · rw [hs, append_assoc]
  · rw [hr, append_assoc]

theorem length_eq : q.pendingSend.length = tasks.length + q'.pendingSend.length := by
  obtain ⟨sends, recvs, hs, _, hp⟩ := h
  rw [hs, length_append, hp.length_eq]

theorem settle_eq : q.settle qpn = (q'.settle qpn).after tasks := by
  obtain ⟨sends, recvs, hs, hr, hp⟩ := h
  unfold settle
  rw [hs, hr]
  clear hs hr
  induction hp with
  | nil => rfl
  | plain hop _ ih =>
    rw [cons_append, settleFrom, if_neg hop, ih]
    rfl
  | imm hop _ ih =>
    rw [cons_append, cons_append, settleFrom, if_pos hop, tail_cons, ih]
    rfl
  | send hsent _ ih =>
    obtain ⟨hlen, rfl⟩ := sentInto_iff.1 hsent
    rw [cons_append, cons_append, settleFrom, if_pos hlen, ih]
    rfl

end Progress

theorem Stuck.settle_eq (h : Stuck qpn q result) : q.settle qpn = (result, q, []) := by
  cases h with
  | empty recvs => rfl
  | @blocked send sends hneeds =>
    cases send with
    | rdma wr => exact if_pos (of_decide_eq_true hneeds)
    | send base => rfl
  | mismatch hlen => exact if_neg hlen

theorem settleFrom_spec (qpn : ℕ) (sends : List SendWr) (recvs : List RecvWr) :
    Progress ⟨sends, recvs⟩ (settleFrom qpn sends recvs).2.2 (settleFrom qpn sends recvs).2.1 ∧
      Stuck qpn (settleFrom qpn sends recvs).2.1 (settleFrom qpn sends recvs).1 := by
  induction sends generalizing recvs with
  | nil => exact ⟨.refl _, .empty recvs⟩
  | cons send sends ih =>
    -- a round that sends a task comes before what is done with the rest
    have hround : ∀ {r recvs' task}, Pairs [send] r [task] →
        Progress ⟨send :: sends, r ++ recvs'⟩ (task :: (settleFrom qpn sends recvs').2.2)
          (settleFrom qpn sends recvs').2.1 :=
      fun hp => Progress.trans ⟨[send], _, rfl, rfl, hp⟩ (ih _).1
    cases send with
    | rdma wr =>
      rw [settleFrom]
      split_ifs with hop hnil
      · subst hnil
        exact ⟨.refl _, .blocked (decide_eq_true hop)⟩
      · obtain ⟨recv, recvs, rfl⟩ := exists_cons_of_ne_nil hnil
        exact ⟨hround (r := [recv]) (.imm hop .nil), (ih recvs).2⟩
      · exact ⟨hround (r := []) (.plain hop .nil), (ih recvs).2⟩
    | send base =>
      cases recvs with
      | nil => exact ⟨.refl _, .blocked rfl⟩
      | cons recv recvs =>
        rw [settleFrom]
        split_ifs with hlen
        · exact ⟨hround (r := [recv]) (.send (sentInto_iff.2 ⟨hlen, rfl⟩) .nil), (ih recvs).2⟩
        · exact ⟨.refl _, .mismatch hlen⟩

/-- **What a call does**: it sends the first requests in order, each with the next receive if it
needs one, and stops only where it is stuck. -/
theorem settle_spec (qpn : ℕ) (q : MatchQueues) :
    Progress q (q.settle qpn).2.2 (q.settle qpn).2.1 ∧
    Stuck qpn (q.settle qpn).2.1 (q.settle qpn).1 :=
  settleFrom_spec qpn q.pendingSend q.recvWr

/-! ## One call -/

/-- `try_match_pendings` without interruption, from one of its accesses on. -/
def tryMatchPendings (qpn : ℕ) : ℕ → MatchPc → MatchQueues → Option Outcome
  | 0, _, _ => none
  | _ + 1, .done result, q => some (result, q, [])
  | n + 1, pc, q => (pc.step qpn q).bind fun r =>
    (tryMatchPendings qpn n r.1 r.2.1).map (.after r.2.2)

/-- The accesses a call makes at most. -/
def callFuel (q : MatchQueues) : ℕ := 4 * q.pendingSend.length + 6

/-- **An uninterrupted call** does not panic and ends as `settle` says. -/
theorem tryMatchPendings_eq {n : ℕ} (hn : callFuel q ≤ n) :
    tryMatchPendings qpn n .peek q = some (q.settle qpn) := by
  obtain ⟨sends, recvs⟩ := q
  unfold callFuel at hn
  unfold settle
  -- a round takes at most four accesses, and the last one at most six
  induction sends generalizing recvs n with
  | nil =>
    obtain ⟨m, rfl⟩ : ∃ m, n = m + 2 := ⟨n - 2, by dsimp only at hn; omega⟩
    rfl
  | cons send sends ih =>
    rw [length_cons] at hn
    have hfuel : ∀ j ≤ 6, ∃ k, n = k + j ∧ (j ≤ 4 → 4 * sends.length + 6 ≤ k) :=
      fun j _ => ⟨n - j, by omega, by omega⟩
    cases send with
    | rdma wr =>
      by_cases hop : wr.opcode = .rdmaWriteWithImm
      · obtain ⟨k, rfl, hk⟩ := hfuel 4 (by decide)
        cases recvs with
        | nil => simp [tryMatchPendings, MatchPc.step, SendWr.needsRecvWr, settleFrom, hop,
            Outcome.after]
        | cons recv recvs =>
          simp [tryMatchPendings, MatchPc.step, SendWr.needsRecvWr, settleFrom,
            hop, ih recvs (hk le_rfl), Outcome.after]
      · obtain ⟨k, rfl, hk⟩ := hfuel 3 (by decide)
        simp [tryMatchPendings, MatchPc.step, SendWr.needsRecvWr, settleFrom, hop,
          ih recvs (hk (by decide)), Outcome.after]
    | send base =>
      cases recvs with
      | nil =>
        obtain ⟨k, rfl, -⟩ := hfuel 3 (by decide)
        simp [tryMatchPendings, MatchPc.step, SendWr.needsRecvWr, settleFrom, Outcome.after]
      | cons recv recvs =>
        by_cases hlen : base.length = recv.length
        · obtain ⟨k, rfl, hk⟩ := hfuel 4 (by decide)
          simp [tryMatchPendings, MatchPc.step, SendWr.needsRecvWr, settleFrom,
            hlen, ih recvs (hk le_rfl), Outcome.after]
        · obtain ⟨k, rfl, -⟩ := hfuel 6 le_rfl
          simp [tryMatchPendings, MatchPc.step, SendWr.needsRecvWr, settleFrom, hlen, Outcome.after]

/-- **What an uninterrupted call does**: it ends, the tasks are those of the first requests in
order, each with the next receive if it needs one, these requests and receives leave the queues, and
it stops where the queue is empty, where the head has no receive, or with an error where the head
has one of another length. -/
theorem tryMatchPendings_spec (qpn : ℕ) (q : MatchQueues) :
    ∃ result q' sends recvs tasks,
      (∀ n ≥ callFuel q, tryMatchPendings qpn n .peek q = some (result, q', tasks)) ∧
      q.pendingSend = sends ++ q'.pendingSend ∧ q.recvWr = recvs ++ q'.recvWr ∧
      Pairs sends recvs tasks ∧
      Stuck qpn q' result := by
  obtain ⟨⟨sends, recvs, hs, hr, hp⟩, hstuck⟩ := settle_spec qpn q
  exact ⟨_, _, sends, recvs, _, fun n hn => tryMatchPendings_eq hn, hs, hr, hp, hstuck⟩

/-! ## Errors of a post -/

/-- The queue pair exists and its queue is not full. -/
def HasRoom (qpn : ℕ) (q : MatchQueues) : Prop :=
  indexOfQpn qpn < maxQpCnt ∧ q.pendingSend.length < HwDeviceCtx.pendingSendQueueCapacity

instance (qpn : ℕ) (q : MatchQueues) : Decidable (HasRoom qpn q) :=
  inferInstanceAs (Decidable (_ ∧ _))

def queueFull (qpn : ℕ) : RdmaError :=
  .resourceExhausted ("Pending send queue for QP " ++ toString qpn ++ " is full (capacity: 128)")

/-- The queues with a request appended. -/
def MatchQueues.post (q : MatchQueues) (wr : SendWr) : MatchQueues :=
  { q with pendingSend := q.pendingSend ++ [wr] }

/-- The queues with a receive appended. -/
def MatchQueues.receive (q : MatchQueues) (recv : RecvWr) : MatchQueues :=
  { q with recvWr := q.recvWr ++ [recv] }

/-- `HwDeviceCtx::post_send` without interruption. -/
def postSend (qpn : ℕ) (wr : SendWr) (q : MatchQueues) : Option Outcome :=
  if HasRoom qpn q then tryMatchPendings qpn (callFuel (q.post wr)) .peek (q.post wr)
  else some (.error (queueFull qpn), q, [])

/-- What a `RecvWorker` does with a receive for the queue pair, without interruption. -/
def handleRecv (qpn : ℕ) (recv : RecvWr) (q : MatchQueues) : Option Outcome :=
  tryMatchPendings qpn (callFuel (q.receive recv)) .peek (q.receive recv)

/-- The requests before the first one that cannot be sent end at a send whose receive has another
length. -/
def MeetsMismatch (q : MatchQueues) : Prop :=
  ∃ tasks base sends recv recvs, Progress q tasks ⟨.send base :: sends, recv :: recvs⟩ ∧
    base.length ≠ recv.length

/-- **A post that fails leaves no trace of its request** exactly if the matching does not meet a
send and a receive of different lengths: in the queue after it, and among the tasks, there are only
requests that waited before. -/
theorem postSend_error_iff (qpn : ℕ) (wr : SendWr) (q : MatchQueues) :
    (∀ e q' tasks, postSend qpn wr q = some (.error e, q', tasks) → Progress q tasks q') ↔
      (HasRoom qpn q → ¬ MeetsMismatch (q.post wr)) := by
  unfold postSend
  split_ifs with hroom
  · rw [tryMatchPendings_eq le_rfl]
    obtain ⟨hprog, hstuck⟩ := settle_spec qpn (q.post wr)
    refine ⟨fun h _ ⟨tasks, base, sends, recv, recvs, hmis, hlen⟩ => ?_, fun h e q' tasks he => ?_⟩
    · -- the tasks and the queue have one request more than the queue had before
      have hstuck' : Stuck qpn ⟨.send base :: sends, recv :: recvs⟩ _ := .mismatch hlen
      have heq := hmis.settle_eq.trans (congrArg (Outcome.after tasks) hstuck'.settle_eq)
      have h₁ := (h _ _ _ (congrArg some heq)).length_eq
      have h₂ := hmis.length_eq
      simp only [post, length_append, length_singleton] at h₁ h₂
      omega
    · rw [some.inj he] at hprog hstuck
      cases hstuck with
      | mismatch hlen => exact absurd ⟨_, _, _, _, _, hprog, hlen⟩ (h hroom)
  · refine iff_of_true (fun e q' tasks he => ?_) fun h => absurd h hroom
    obtain ⟨-, rfl, rfl⟩ := some.inj he
    exact .refl q

/-- A send of some length. -/
def sendOf (length : ℕ) (h : length < 2 ^ 32) : SendWr :=
  .send ⟨0, 0, 0, length, 0, 0, .send, by decide, h⟩

/-- A receive of some length. -/
def recvOf (wrId length : ℕ) : RecvWr := ⟨wrId, 0, length, 0, by decide⟩

/-- The task of a send with the buffer of a receive. -/
def taskOf (length : ℕ) (h : length < 2 ^ 32) : SendWrRdma :=
  .newFromBase ⟨0, 0, 0, length, 0, 0, .send, by decide, h⟩ (recvOf 0 length)

/-- A send of four bytes that is posted where a receive of eight bytes waits stays in the queue. -/
theorem postSend_error_queued :
    ∃ e, postSend 0 (sendOf 4 (by decide)) ⟨[], [recvOf 1 8]⟩ =
      some (.error e, ⟨[sendOf 4 (by decide)], [recvOf 1 8]⟩, []) :=
  ⟨_, rfl⟩

/-! ## Two callers -/

/-- The thread that posts, and the one that takes receives from the peer. -/
inductive Caller
  | post
  | recv
  deriving DecidableEq

def Caller.other : Caller → Caller
  | .post => .recv
  | .recv => .post

/-- The thread is between its look at the head of the queue and the end of the round. -/
def MatchPc.inside : MatchPc → Bool
  | .peek | .done _ => false
  | _ => true

/-- The queues with what a thread appends to them. -/
def appended (wr : SendWr) (recv : RecvWr) (q : MatchQueues) : Caller → MatchQueues
  | .post => q.post wr
  | .recv => q.receive recv

/-- The queues, and where the threads are: before the access that appends, or in their call. -/
structure Callers where
  q : MatchQueues
  pcs : Caller → Option MatchPc := fun _ => none
  sent : List SendWrRdma := []

namespace Callers

/-- The next access of a thread. A post that finds the queue full makes no call, and is left out. -/
def step (qpn : ℕ) (wr : SendWr) (recv : RecvWr) (s : Callers) (c : Caller) : Option Callers :=
  match s.pcs c with
  | none =>
    if c = .post → HasRoom qpn s.q then
      some { s with q := appended wr recv s.q c, pcs := Function.update s.pcs c (some .peek) }
    else none
  | some pc => (pc.step qpn s.q).map fun r =>
      { s with q := r.2.1, pcs := Function.update s.pcs c (some r.1), sent := s.sent ++ r.2.2 }

def isInside (s : Callers) (c : Caller) : Bool := ((s.pcs c).map MatchPc.inside).getD false

/-- The thread does not start its call, or a round of it, while the other one is inside a round. -/
def Ok (s : Callers) (c : Caller) : Prop := s.isInside c = true ∨ s.isInside c.other = false

instance (s : Callers) (c : Caller) : Decidable (s.Ok c) := inferInstanceAs (Decidable (_ ∨ _))

end Callers

/-! ### Inside a round -/

/-- The queues `q` before the round of a thread, where they are `cq` now. -/
def MatchPc.Holding (q cq : MatchQueues) : MatchPc → Prop
  | .peek | .done _ => cq = q
  | .popRecv => cq = q ∧ ∃ send sends, q.pendingSend = send :: sends ∧ send.needsRecvWr = true
  | .popPlain => cq = q ∧ ∃ wr sends, q.pendingSend = .rdma wr :: sends ∧
      wr.opcode ≠ .rdmaWriteWithImm
  | .popSend recv => q = ⟨cq.pendingSend, recv :: cq.recvWr⟩ ∧
      ∃ send sends, cq.pendingSend = send :: sends ∧ send.needsRecvWr = true
  | .sendTask task => Progress q [task] cq
  | .pushSend base recv =>
    q = ⟨.send base :: cq.pendingSend, recv :: cq.recvWr⟩ ∧ base.length ≠ recv.length
  | .pushRecv base recv => q = ⟨cq.pendingSend, recv :: cq.recvWr⟩ ∧
      (∃ sends, cq.pendingSend = .send base :: sends) ∧ base.length ≠ recv.length

theorem MatchPc.Holding.eq {pc : MatchPc} {cq : MatchQueues} (h : pc.Holding q cq)
    (hpc : pc.inside = false) :
    cq = q := by
  cases pc with
  | peek | done => exact h
  | _ => cases hpc

/-- **An access of the only thread inside a round** does not panic, and the queues before the round
change only where its task is sent. -/
theorem MatchPc.Holding.step {pc : MatchPc} {cq : MatchQueues} (h : pc.Holding q cq) (qpn : ℕ)
    (hpc : ∀ result, pc ≠ .done result) :
    ∃ pc' cq' tasks q', pc.step qpn cq = some (pc', cq', tasks) ∧ Progress q tasks q' ∧
    pc'.Holding q' cq' ∧
      ∀ result, pc' = .done result → Stuck qpn q' result := by
  obtain ⟨sends, recvs⟩ := cq
  cases pc with
  | peek =>
    obtain rfl : _ = q := h
    cases sends with
    | nil =>
      refine ⟨_, _, _, _, rfl, .refl _, rfl, fun result hr => ?_⟩
      cases hr
      exact .empty recvs
    | cons send sends =>
      refine ⟨_, _, _, _, rfl, .refl _, ?_, fun result hr => ?_⟩
      · cases hneeds : send.needsRecvWr with
        | true => exact ⟨rfl, send, sends, rfl, hneeds⟩
        | false =>
          cases send with
          | rdma wr => exact ⟨rfl, wr, sends, rfl, of_decide_eq_false hneeds⟩
          | send base => cases hneeds
      · split at hr <;> cases hr
  | popRecv =>
    obtain ⟨rfl, send, sends', hs, hneeds⟩ := h
    obtain rfl : sends = _ := hs
    cases recvs with
    | nil =>
      refine ⟨_, _, _, _, rfl, .refl _, rfl, fun result hr => ?_⟩
      cases hr
      exact .blocked hneeds
    | cons recv recvs =>
      exact ⟨_, _, _, _, rfl, .refl _, ⟨rfl, send, sends', rfl, hneeds⟩, nofun⟩
  | popSend recv =>
    obtain ⟨rfl, send, sends', hs, hneeds⟩ := h
    obtain rfl : sends = _ := hs
    cases send with
    | rdma wr =>
      have hop := of_decide_eq_true hneeds
      refine ⟨.sendTask wr, ⟨sends', recvs⟩, [], _, if_pos hop, .refl _, ?_, nofun⟩
      exact ⟨[.rdma wr], [recv], rfl, rfl, .imm hop .nil⟩
    | send base =>
      by_cases hlen : base.length = recv.length
      · refine ⟨.sendTask (.newFromBase base recv), ⟨sends', recvs⟩, [], _, if_neg (not_not.2 hlen),
          .refl _, ?_, nofun⟩
        exact ⟨[.send base], [recv], rfl, rfl, .send (sentInto_iff.2 ⟨hlen, rfl⟩) .nil⟩
      · exact ⟨.pushSend base recv, ⟨sends', recvs⟩, [], _, if_pos hlen, .refl _, ⟨rfl, hlen⟩,
          nofun⟩
  | popPlain =>
    obtain ⟨rfl, wr, sends', hs, hop⟩ := h
    obtain rfl : sends = _ := hs
    exact ⟨_, _, _, _, rfl, .refl _, ⟨[.rdma wr], [], rfl, rfl, .plain hop .nil⟩, nofun⟩
  | sendTask task => exact ⟨_, _, _, _, rfl, h, rfl, nofun⟩
  | pushSend base recv =>
    obtain ⟨rfl, hlen⟩ := h
    exact ⟨_, _, _, _, rfl, .refl _, ⟨rfl, ⟨sends, rfl⟩, hlen⟩, nofun⟩
  | pushRecv base recv =>
    obtain ⟨rfl, ⟨sends', hs⟩, hlen⟩ := h
    obtain rfl : sends = _ := hs
    refine ⟨_, _, _, _, rfl, .refl _, rfl, fun result hr => ?_⟩
    cases hr
    exact .mismatch hlen
  | done result => exact absurd rfl (hpc result)

/-! ### Interleavings -/

theorem Progress.append (h : Progress q tasks q') (wr : SendWr) (recv : RecvWr) (c : Caller) :
    Progress (appended wr recv q c) tasks (appended wr recv q' c) := by
  cases c with
  | post => simpa [appended, post] using h.push [wr] []
  | recv => simpa [appended, receive] using h.push [] [recv]

namespace Callers

variable {wr : SendWr} {recv : RecvWr} {q₀ : MatchQueues} {s s' : Callers} {c : Caller}

/-- The queues at the start with what was appended since. -/
def base (q₀ : MatchQueues) (wr : SendWr) (recv : RecvWr) (s : Callers) : MatchQueues :=
  let q := if (s.pcs .post).isSome then q₀.post wr else q₀
  if (s.pcs .recv).isSome then q.receive recv else q

/-- The queues `q` are those without the round a thread is inside of. -/
structure Inv (qpn : ℕ) (wr : SendWr) (recv : RecvWr) (q₀ q : MatchQueues) (s : Callers) :
    Prop where
  progress : Progress (s.base q₀ wr recv) s.sent q
  alone : ∀ c, s.isInside c = true → s.isInside c.other = false
  outside : (∀ c, s.isInside c = false) → s.q = q
  inside : ∀ c pc, s.pcs c = some pc → pc.inside = true → pc.Holding q s.q
  fresh : (∀ c, s.pcs c = none) → s.sent = []
  room : s.pcs .post ≠ none → HasRoom qpn q₀ ∨
    HasRoom qpn ((q₀.receive recv).settle qpn).2.1
  stuck : ∀ c result, s.pcs c = some (.done result) →
    (∀ pc, s.pcs c.other = some pc → ∃ result, pc = .done result) → ∃ result, Stuck qpn q result

theorem eq_or_eq_other (c c' : Caller) : c' = c ∨ c' = c.other := by
  cases c <;> cases c' <;> simp [Caller.other]

theorem isInside_eq {pc : MatchPc} (h : s.pcs c = some pc) : s.isInside c = pc.inside := by
  rw [isInside, h]
  rfl

section

variable (hi : Inv qpn wr recv q₀ q s)
include hi

theorem Inv.isInside_other (hok : s.Ok c) : s.isInside c.other = false :=
  hok.elim (hi.alone c) id

theorem Inv.q_eq (h : s.isInside c = false) (hok : s.Ok c) : s.q = q := by
  refine hi.outside fun c' => ?_
  rcases eq_or_eq_other c c' with rfl | rfl
  · exact h
  · exact hi.isInside_other hok

/-- After an access of the thread `c` the other thread is where it was, outside of its rounds. -/
theorem Inv.moved (hok : s.Ok c) {pc : MatchPc}
    (hpcs : s'.pcs = Function.update s.pcs c (some pc))
    (hprog : Progress (s'.base q₀ wr recv) s'.sent q') (hhold : pc.Holding q' s'.q)
    (hroom : s'.pcs .post ≠ none → HasRoom qpn q₀ ∨
      HasRoom qpn ((q₀.receive recv).settle qpn).2.1)
    (hstuck : ∀ result, pc = .done result → Stuck qpn q' result) : Inv qpn wr recv q₀ q' s' := by
  have hne : c.other ≠ c := by cases c <;> decide
  have hself : s'.pcs c = some pc := by rw [hpcs, update_self]
  have houtside : s'.isInside c.other = false := by
    rw [isInside, hpcs, update_of_ne hne]
    exact hi.isInside_other hok
  refine ⟨hprog, fun c' h => ?_, fun h => ?_, fun c' pc₁ h hin => ?_, fun h => ?_, hroom,
    fun c' result h hall => ?_⟩
  · rcases eq_or_eq_other c c' with rfl | rfl
    · exact houtside
    · exact absurd (houtside.symm.trans h) (by decide)
  · have hin := h c
    rw [isInside_eq hself] at hin
    exact hhold.eq hin
  · rcases eq_or_eq_other c c' with rfl | rfl
    · obtain rfl := some.inj (hself.symm.trans h)
      exact hhold
    · rw [← isInside_eq h] at hin
      exact absurd (houtside.symm.trans hin) (by decide)
  · exact absurd (hself.symm.trans (h c)) (by simp)
  · -- the thread of this access is done, whichever of the two `c'` is
    have hdone : ∃ result, pc = .done result := by
      rcases eq_or_eq_other c c' with rfl | rfl
      · exact ⟨result, some.inj (hself.symm.trans h)⟩
      · refine hall pc ?_
        rwa [show c.other.other = c by cases c <;> rfl]
    obtain ⟨result', hr⟩ := hdone
    exact ⟨result', hstuck result' hr⟩

theorem Inv.holding (hok : s.Ok c) {pc : MatchPc} (hpc : s.pcs c = some pc) : pc.Holding q s.q := by
  cases hin : pc.inside with
  | true => exact hi.inside c pc hpc hin
  | false =>
    have hq := hi.q_eq (by rw [isInside_eq hpc, hin]) hok
    cases pc with
    | peek | done => exact hq
    | _ => cases hin

theorem Inv.step (hok : s.Ok c) (hs : s.step qpn wr recv c = some s') :
    ∃ q', Inv qpn wr recv q₀ q' s' := by
  rw [Callers.step] at hs
  cases hpc : s.pcs c with
  | some pc =>
    rw [hpc] at hs
    have hdone : ∀ result, pc ≠ .done result := by
      rintro result rfl
      cases hs
    obtain ⟨pc', cq', tasks, q', hstep, hprog, hhold, hstuck⟩ := (hi.holding hok hpc).step qpn hdone
    simp only [hstep, map_some, some.injEq] at hs
    have hpcs : s'.pcs = update s.pcs c (some pc') := by rw [← hs]
    have hsome : ∀ c', (s'.pcs c').isSome = (s.pcs c').isSome := by
      intro c'
      by_cases hc : c' = c
      · rw [hc, hpcs, update_self, hpc]
        rfl
      · rw [hpcs, update_of_ne hc]
    refine ⟨q', hi.moved hok hpcs ?_ (by rwa [← hs]) (fun h => hi.room ?_) hstuck⟩
    · rw [base, hsome, hsome, ← hs]
      exact hi.progress.trans hprog
    · rwa [← isSome_iff_ne_none, hsome, isSome_iff_ne_none] at h
  | none =>
    rw [hpc] at hs
    obtain ⟨hroom, hs⟩ := ite_none_right_eq_some.1 hs
    have hin : s.isInside c = false := by rw [isInside, hpc]; rfl
    obtain rfl := hi.q_eq hin hok
    cases hs
    have hprog := hi.progress.append wr recv c
    refine ⟨appended wr recv s.q c, hi.moved hok rfl ?_ rfl ?_ nofun⟩
    · cases c with
      | post => simpa [base, hpc, appended, apply_ite, post, receive] using hprog
      | recv => simpa [base, hpc, appended] using hprog
    · intro hpost
      cases c with
      | recv => exact hi.room (by simpa using hpost)
      | post =>
        obtain ⟨hqpn, hlen⟩ := hroom rfl
        have hprog := hi.progress
        cases hrecv : s.pcs .recv with
        | none =>
          -- no thread has started, so the queue is the one at the start
          have hsent := hi.fresh fun c => by cases c <;> assumption
          simp only [base, hpc, hrecv, hsent, isSome_none, Bool.false_eq_true, if_false] at hprog
          have hlen₀ := hprog.length_eq
          rw [length_nil, Nat.zero_add] at hlen₀
          exact .inl ⟨hqpn, by rwa [hlen₀]⟩
        | some pc =>
          -- the call of the other thread leaves at most the requests that wait now
          simp only [base, hpc, hrecv, isSome_none, isSome_some, Bool.false_eq_true, if_false,
            if_true] at hprog
          have hrest := (settle_spec qpn s.q).1.length_eq
          refine .inr ⟨hqpn, ?_⟩
          rw [hprog.settle_eq]
          refine lt_of_le_of_lt ?_ hlen
          rw [show s.q.pendingSend.length = _ from hrest]
          exact Nat.le_add_left _ _

end

theorem inv_initial : Inv qpn wr recv q₀ q₀ ⟨q₀, fun _ => none, []⟩ where
  progress := .refl q₀
  alone c h := by cases h
  outside _ := rfl
  inside c pc h := by cases h
  fresh _ := rfl
  room h := absurd rfl h
  stuck c result h := by cases h

theorem Inv.isSome_step (hi : Inv qpn wr recv q₀ q s) {pc : MatchPc} (hpc : s.pcs c = some pc)
    (hdone : ∀ result, pc ≠ .done result) : (pc.step qpn s.q).isSome := by
  cases hin : pc.inside with
  | true =>
    obtain ⟨pc', cq', tasks, q', hstep, -⟩ := (hi.inside c pc hpc hin).step qpn hdone
    rw [hstep]
    rfl
  | false =>
    cases pc with
    | peek =>
      rw [MatchPc.step]
      cases s.q.pendingSend <;> rfl
    | done result => exact absurd rfl (hdone result)
    | _ => cases hin

end Callers

/-- The tasks and the queues are those of the two calls one after the other, in one order or the
other. -/
def Sequential (qpn : ℕ) (wr : SendWr) (recv : RecvWr) (q₀ q : MatchQueues)
    (sent : List SendWrRdma) : Prop :=
  (∃ r₁ q₁ sent₁ r₂ sent₂, postSend qpn wr q₀ = some (r₁, q₁, sent₁) ∧
    handleRecv qpn recv q₁ = some (r₂, q, sent₂) ∧ sent = sent₁ ++ sent₂) ∨
  ∃ r₁ q₁ sent₁ r₂ sent₂, handleRecv qpn recv q₀ = some (r₁, q₁, sent₁) ∧
    postSend qpn wr q₁ = some (r₂, q, sent₂) ∧ sent = sent₁ ++ sent₂

section Sequential

variable {wr : SendWr} {recv : RecvWr} {q₀ : MatchQueues} {sent : List SendWrRdma}

theorem postSend_eq (h : HasRoom qpn q) : postSend qpn wr q = some ((q.post wr).settle qpn) := by
  rw [postSend, if_pos h, tryMatchPendings_eq le_rfl]

theorem handleRecv_eq : handleRecv qpn recv q = some ((q.receive recv).settle qpn) :=
  tryMatchPendings_eq le_rfl

/-- A call after another one leads to where one call with all that was appended leads. -/
theorem settle_append (wr : SendWr) (recv : RecvWr) (c : Caller)
    (h : (appended wr recv q c).settle qpn = (result, q', tasks)) :
    ∃ tasks', (appended wr recv (q.settle qpn).2.1 c).settle qpn = (result, q', tasks') ∧
      tasks = (q.settle qpn).2.2 ++ tasks' := by
  rw [((settle_spec qpn q).1.append wr recv c).settle_eq] at h
  generalize (appended wr recv (q.settle qpn).2.1 c).settle qpn = o at h ⊢
  obtain ⟨r, q₂, tasks'⟩ := o
  obtain ⟨rfl, rfl, rfl⟩ := h
  exact ⟨tasks', rfl, rfl⟩

theorem sequential_of_stuck (hprog : Progress ((q₀.post wr).receive recv) sent q)
    (hstuck : Stuck qpn q result) (hroom : HasRoom qpn q₀ ∨
    HasRoom qpn ((q₀.receive recv).settle qpn).2.1) :
    Sequential qpn wr recv q₀ q sent := by
  have hall : ((q₀.post wr).receive recv).settle qpn = (result, q, sent) := by
    rw [hprog.settle_eq, hstuck.settle_eq, Outcome.after, append_nil]
  rcases hroom with hroom | hroom
  · obtain ⟨tasks', hrest, hsent⟩ := settle_append wr recv .recv hall
    exact .inl ⟨_, _, _, _, _, postSend_eq hroom, handleRecv_eq.trans (congrArg some hrest), hsent⟩
  · obtain ⟨tasks', hrest, hsent⟩ := settle_append (q := q₀.receive recv) wr recv .post hall
    exact .inr ⟨_, _, _, _, _, handleRecv_eq, (postSend_eq hroom).trans (congrArg some hrest),
      hsent⟩

/-- **Two calls that do not start inside a round of each other** do not panic. Together they send
the first requests in order, each with the next receive if it needs one, and the outcome is that of
the calls one after the other. -/
theorem Callers.run_sequential {ls : List Caller} {s : Callers}
    (h : Run (step qpn wr recv) Ok ⟨q₀, fun _ => none, []⟩ ls s) :
    (∀ c pc, s.pcs c = some pc → (∀ result, pc ≠ .done result) → (pc.step qpn s.q).isSome) ∧
      ∀ r r', s.pcs .post = some (.done r) → s.pcs .recv = some (.done r') →
        Progress ((q₀.post wr).receive recv) s.sent s.q ∧ Sequential qpn wr recv q₀ s.q s.sent := by
  obtain ⟨q, hi⟩ := h.invariant (I := fun _ s => ∃ q, Inv qpn wr recv q₀ q s) ⟨q₀, inv_initial⟩
    fun _ _ _ _ ⟨_, hi⟩ hok hs => hi.step hok hs
  refine ⟨fun c pc hpc hdone => hi.isSome_step hpc hdone, fun r r' hpost hrecv => ?_⟩
  have hq : s.q = q := hi.outside fun c => by
    cases c with
    | post => rw [isInside_eq hpost]; rfl
    | recv => rw [isInside_eq hrecv]; rfl
  have hprog := hi.progress
  simp only [base, hpost, hrecv] at hprog
  obtain ⟨result, hstuck⟩ := hi.stuck .post r hpost fun pc hpc =>
    ⟨r', some.inj (hpc.symm.trans hrecv)⟩
  rw [hq]
  exact ⟨hprog, sequential_of_stuck hprog hstuck (hi.room (by simp [hpost]))⟩

end Sequential

namespace Callers

/-- The post takes a round for the send that waits. Then the receive of the peer comes, and its
thread takes a round for the send posted before both find no more. -/
def roundsInTurn : List Caller := replicate 5 .post ++ replicate 5 .recv ++ [.post, .recv]

theorem run_sequential_roundsInTurn :
    Sequential 0 (sendOf 4 (by decide)) (recvOf 2 4) ⟨[sendOf 4 (by decide)], [recvOf 1 4]⟩ ⟨[], []⟩
      [taskOf 4 (by decide), taskOf 4 (by decide)] := by
  have h : ∃ s : Callers, Run (step 0 (sendOf 4 (by decide)) (recvOf 2 4)) Ok
      ⟨⟨[sendOf 4 (by decide)], [recvOf 1 4]⟩, fun _ => none, []⟩ roundsInTurn s ∧
      s.pcs .post = some (.done (.ok ())) ∧ s.pcs .recv = some (.done (.ok ())) ∧ s.q = ⟨[], []⟩ ∧
      s.sent = [taskOf 4 (by decide), taskOf 4 (by decide)] :=
    ⟨_, .of_exec rfl, rfl, rfl, rfl, rfl⟩
  obtain ⟨s, hrun, hpost, hrecv, hq, hsent⟩ := h
  have := ((run_sequential hrun).2 _ _ hpost hrecv).2
  rwa [hq, hsent] at this

/-- Both threads append, look at the send, and take a receive for it; the one that comes second
finds no send. -/
theorem run_callers_panic :
    ∃ s, Run (step 0 (sendOf 4 (by decide)) (recvOf 2 4)) (fun _ _ => True)
      ⟨⟨[], [recvOf 1 4]⟩, fun _ => none, []⟩
      [.post, .recv, .post, .recv, .post, .recv, .post] s ∧
      s.pcs .recv = some (.popSend (recvOf 2 4)) ∧
      (MatchPc.popSend (recvOf 2 4)).step 0 s.q = none :=
  ⟨_, .of_exec rfl, rfl, rfl⟩

end Callers

/-! ### What becomes of the requests -/

/-- The requests a thread has taken out of the queue. -/
def MatchPc.Holds : MatchPc → List SendWr → Prop
  | .sendTask task, held => ∃ send : SendWr, send.IsTask task ∧ held = [send]
  | .pushSend base _, held => held = [.send base]
  | _, held => held = []

/-- **An access loses no request**: one taken out of the queue is held, sent or put back. -/
theorem MatchPc.Holds.step {pc pc' : MatchPc} {q' : MatchQueues} {tasks : List SendWrRdma}
    {held : List SendWr} (h : pc.Holds held) (hs : pc.step qpn q = some (pc', q', tasks)) :
    ∃ sends held', Forall₂ SendWr.IsTask sends tasks ∧ pc'.Holds held' ∧
      sends ++ held' ++ q'.pendingSend = held ++ q.pendingSend := by
  cases pc with
  | sendTask task =>
    cases hs
    obtain ⟨send, htask, rfl⟩ := h
    exact ⟨[send], [], .cons htask .nil, rfl, rfl⟩
  | pushSend =>
    cases hs
    obtain rfl : held = _ := h
    exact ⟨[], [], .nil, rfl, rfl⟩
  | peek =>
    obtain rfl : held = [] := h
    rw [MatchPc.step] at hs
    split at hs <;> cases hs
    · exact ⟨[], [], .nil, rfl, rfl⟩
    · exact ⟨[], [], .nil, by split <;> rfl, rfl⟩
  | popRecv | pushRecv | done =>
    obtain rfl : held = [] := h
    simp only [MatchPc.step] at hs
    repeat' split at hs
    all_goals cases hs <;> exact ⟨[], [], .nil, rfl, rfl⟩
  | popSend recv =>
    obtain rfl : held = [] := h
    rw [MatchPc.step] at hs
    split at hs
    · cases hs
    · next send sends hq =>
      cases send with
      | rdma wr =>
        obtain ⟨-, hs⟩ := ite_none_right_eq_some.1 hs
        cases hs
        exact ⟨[], [.rdma wr], .nil, ⟨.rdma wr, rfl, rfl⟩, hq.symm⟩
      | send base =>
        dsimp only at hs
        split_ifs at hs with hlen <;> cases hs
        · exact ⟨[], [.send base], .nil, rfl, hq.symm⟩
        · exact ⟨[], [.send base], .nil, ⟨.send base, ⟨recv, sentInto_iff.2 ⟨not_not.1 hlen, rfl⟩⟩,
            rfl⟩, hq.symm⟩
  | popPlain =>
    obtain rfl : held = [] := h
    rw [MatchPc.step] at hs
    split at hs <;> cases hs
    next wr sends hq => exact ⟨[], [.rdma wr], .nil, ⟨.rdma wr, rfl, rfl⟩, hq.symm⟩

namespace Callers

variable {wr : SendWr} {recv : RecvWr} {q₀ : MatchQueues} {s s' : Callers} {c : Caller}

/-- The requests a thread has taken out of the queue; before its call there are none. -/
def Holds (s : Callers) (c : Caller) (held : List SendWr) : Prop :=
  (s.pcs c).elim (held = []) (·.Holds held)

/-- The requests that waited and the one posted are those whose tasks were sent, those held by a
thread and those that wait. -/
def Conserves (wr : SendWr) (q₀ : MatchQueues) (s : Callers) : Prop :=
  ∃ sends, ∃ held : Caller → List SendWr, Forall₂ SendWr.IsTask sends s.sent ∧
    (∀ c, s.Holds c (held c)) ∧ (sends ++ (held .post ++ held .recv) ++ s.q.pendingSend).Perm
      (q₀.pendingSend ++ if (s.pcs .post).isSome then [wr] else [])

theorem Conserves.step (hi : s.Conserves wr q₀) (hs : s.step qpn wr recv c = some s') :
    s'.Conserves wr q₀ := by
  obtain ⟨sends, held, hsent, hholds, hperm⟩ := hi
  rw [perm_iff_count] at hperm
  rw [Callers.step] at hs
  have hown := hholds c
  have hother := hholds c.other
  cases hpc : s.pcs c with
  | none =>
    rw [hpc] at hs
    cases (ite_none_right_eq_some.1 hs).2
    rw [Holds, hpc, elim_none] at hown
    refine ⟨sends, held, hsent, fun c' => ?_, perm_iff_count.2 fun a => ?_⟩
    · by_cases hc : c' = c
      · subst hc
        simpa [Holds, MatchPc.Holds] using hown
      · simpa [Holds, Function.update_of_ne hc] using hholds c'
    · have := hperm a
      cases c <;> simp [hpc, appended, post, receive] at this ⊢ <;> omega
  | some pc =>
    rw [hpc] at hs
    obtain ⟨⟨pc', q', tasks⟩, hstep, rfl⟩ := map_eq_some_iff.1 hs
    rw [Holds, hpc, elim_some] at hown
    obtain ⟨sends', held', htasks, hholds', heq⟩ := hown.step hstep
    refine ⟨sends ++ sends', Function.update held c held', rel_append hsent htasks, fun c' => ?_,
      perm_iff_count.2 fun a => ?_⟩
    · by_cases hc : c' = c
      · subst hc
        simpa [Holds] using hholds'
      · simpa [Holds, Function.update_of_ne hc] using hholds c'
    · have := hperm a
      have hcount := congrArg (count a) heq
      simp only [count_append] at hcount
      cases c <;> simp [hpc] at this ⊢ <;> omega

/-- **No request is lost, sent twice or made up**, however the threads are scheduled, until one
panics. -/
theorem run_conserves {ls : List Caller}
    (h : Run (step qpn wr recv) (fun _ _ => True) ⟨q₀, fun _ => none, []⟩ ls s) :
    s.Conserves wr q₀ :=
  h.invariant (I := fun _ s => s.Conserves wr q₀)
    ⟨[], fun _ => [], .nil, fun _ => rfl, by simp⟩ fun _ _ _ _ hi _ hs => hi.step hs

/-- Also where a thread is about to panic: the other one holds the send. -/
theorem run_conserves_panic : ∃ s, Run (step 0 (sendOf 4 (by decide)) (recvOf 2 4))
    (fun _ _ => True)
      ⟨⟨[], [recvOf 1 4]⟩, fun _ => none, []⟩ [.post, .recv, .post, .recv, .post, .recv, .post] s ∧
    s.Holds .post [sendOf 4 (by decide)] ∧ s.Conserves (sendOf 4 (by decide)) ⟨[], [recvOf 1 4]⟩ :=
  ⟨_, .of_isSome (by decide +kernel), ⟨sendOf 4 (by decide), ⟨recvOf 1 4, rfl, rfl, rfl, rfl⟩, rfl⟩,
    run_conserves (.of_isSome _)⟩

end Callers

end OpenRdma.Driver
