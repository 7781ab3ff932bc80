import Mathlib.Data.List.Sort
import OpenRdma.Driver.PostedReceives
import OpenRdma.Driver.RecvSide
import OpenRdma.Driver.SendSide

/-!
# Receive completions over whole runs

What the invariant of the receive side says about the receive completion queue:

Each has a run in which the last packet of a message is reported after the base passed it and the
statement fails.
-/

namespace OpenRdma.Driver

open Channel EventMeta List Option Prod

variable {tr : Traffic} {qp : QpAttr} {s : Workers} {h : RecvHistory}
variable {must : ℕ → Bool} {w : Workers × RecvHistory}

/-- No header has to come first. -/
def anyOrder : ℕ → Bool := fun _ => false

theorem recvSafe_of_run {ok : Workers × RecvHistory → RecvLabel → Prop}
    (hok : ∀ w l, ok w l → RecvOk tr must w l) {ls : List RecvLabel}
    (hrun : Run (recvStep tr qp) ok ({}, {}) ls w) : RecvSafe tr must w.1 w.2 :=
  hrun.invariant (I := fun _ w => RecvSafe tr must w.1 w.2) (recvSafe_init tr must)
    fun _ _ _ _ hs h hstep => hs.step (hok _ _ h) hstep

/-! ## Order -/

/-- **Receive completions in order**: the events polled are those of increasing messages, each with
the completion of its kind, and all sequence numbers up to the end of the message arrived. -/
def RecvOrdered (tr : Traffic) (s : Workers) (h : RecvHistory) : Prop :=
  ∃ is : List ℕ, is.Pairwise (· < ·) ∧ s.recvPolled.map Prod.fst = is.map tr.recvEvent ∧
    (∀ y ∈ s.recvPolled, QueuePairMessageTracker.CompletesAs y.1.op y.2) ∧
    ∀ i ∈ is, ∀ a < tr.fin i, a ∈ h.arrived

theorem RecvSees.mono {v v' : ℤ × List ℕ} {ch : List CompletionTask}
    (h : InFlight (RecvSees tr must) v ch v') : v.1 ≤ v'.1 ∧ v.2 ⊆ v'.2 := by
  refine h.preserves (P := fun u => v.1 ≤ u.1 ∧ v.2 ⊆ u.2) ⟨le_rfl, List.Subset.refl _⟩ ?_
  rintro a task b ⟨h₁, h₂⟩ hab
  unfold RecvSees at hab
  split at hab
  · obtain ⟨i, -, rfl, -⟩ := hab
    exact ⟨h₁, fun x hx => mem_append_left _ (h₂ hx)⟩
  · obtain ⟨-, hle, -, heq, -⟩ := hab
    exact ⟨h₁.trans hle, heq ▸ h₂⟩
  · exact hab ▸ ⟨h₁, h₂⟩

theorem RecvSafe.recvOrdered (hs : RecvSafe tr must s h) : RecvOrdered tr s h := by
  obtain ⟨popped, wait, reg, T, hv⟩ := hs.view
  have hT := (RecvSees.mono hv.sees).1
  refine ⟨popped.filter fun i => !(tr i).kind.isReadResp, hv.inv.popped_sorted.filter _,
    hv.inv.polled_eq, hv.inv.completion, fun i hi a ha => hs.core.arrived_of_lt ?_⟩
  have := hv.inv.popped_le i (mem_of_mem_filter hi)
  omega

/-- **In every run whose reports are about packets that arrived, and in which the end of a message
is reported before the base passes it, receive completions come in order and in time.** -/
theorem run_recvOrdered {ls : List RecvLabel} {w : Workers × RecvHistory}
    (hrun : Run (recvStep tr qp) (RecvOk tr anyOrder) ({}, {}) ls w) : RecvOrdered tr w.1 w.2 :=
  (recvSafe_of_run (fun _ _ h => h) hrun).recvOrdered

/-- Messages of one packet that take a posted receive. -/
def sendTraffic : Traffic := fun _ => ⟨.send, 1, false, by decide, by decide⟩

/-- Packets `0` to `n - 1` arrive, after `n` receives were posted. -/
def arrivals (n : ℕ) : List RecvLabel :=
  (List.range n).flatMap fun k =>
    [.other (.postRecv k), .other .runCompletion, .arrive k]

/-- The headers of two messages are reported the other way round, and the local card acknowledges
both afterwards. -/
def swapped : List RecvLabel :=
  arrivals 2 ++ [.header 1 0 false, .header 0 0 false, .other (.report (.ackLocalHw 0 3)),
    .other .runCompletion, .other .runCompletion, .other .runCompletion]

/-- Two messages whose headers are swapped complete in order. -/
theorem run_recvOrdered_swapped :
    ∃ w, Run (recvStep sendTraffic sampleAttr) (RecvOk sendTraffic anyOrder) ({}, {}) swapped w ∧
      w.1.recvCq = [.recv 0 none, .recv 1 none] ∧ RecvOrdered sendTraffic w.1 w.2 :=
  ⟨_, .of_isSome (by decide +kernel), by decide +kernel, run_recvOrdered (.of_isSome _)⟩

theorem fin_sendTraffic (i : ℕ) : sendTraffic.fin i = i + 1 := by
  induction i with
  | zero => rfl
  | succ i ih => rw [Traffic.fin_eq, ← Traffic.fin, ih]; rfl

/-- The local card acknowledges the first two packets before their headers are reported. The header
of the second comes before the next base, and that of the first after it. -/
def lateHeader : List RecvLabel :=
  arrivals 4 ++ [.other (.report (.ackLocalHw 0 3)), .header 1 0 false, .header 2 0 false,
    .header 0 0 false, .header 3 0 false] ++ List.replicate 7 (.other .runCompletion)

/-- The first message completes after the third. -/
theorem run_recv_out_of_order :
    ∃ w, Run (recvStep sendTraffic sampleAttr) (Describes sendTraffic anyOrder) ({},
      {}) lateHeader w ∧ w.1.recvPolled.map (fun y => y.1.messageMeta.msn) = [1, 2, 0, 3] ∧
      ¬ RecvOrdered sendTraffic w.1 w.2 := by
  have h : (exec (recvStep sendTraffic sampleAttr) (Describes sendTraffic anyOrder) ({}, {})
      lateHeader).map (fun w => (w.1.recvPolled.map (fun y => y.1.messageMeta.msn), w.2.arrived)) =
        some ([1, 2, 0, 3], [3, 2, 1, 0]) := by
    decide +kernel
  obtain ⟨w, hw, hfacts⟩ := Option.map_eq_some_iff.1 h
  obtain ⟨hmsn, harrived⟩ := mk.inj hfacts
  refine ⟨w, Run.of_exec hw, hmsn, ?_⟩
  rintro ⟨is, hsorted, hpolled, -, his⟩
  have hlt : ∀ i ∈ is, i < 4 := by
    intro i hi
    by_contra hge
    have := his i hi 4 (by rw [fin_sendTraffic]; omega)
    rw [harrived] at this
    exact absurd this (by decide)
  -- below four the number on the wire is the number of the message
  have heq : is.map (fun i : ℕ => Msn.wrap i) = [1, 2, 0, 3] := by
    rw [← hmsn]
    have := congrArg (List.map fun e : RecvEvent => e.messageMeta.msn) hpolled
    rw [List.map_map, List.map_map] at this
    exact this.symm
  have his' : is = [1, 2, 0, 3] := by
    have hinner := congrArg (List.map Msn.inner) heq
    rw [List.map_map] at hinner
    rw [← List.map_id is]
    refine (List.map_congr_left fun i hi => ?_).trans hinner
    have : i = 0 ∨ i = 1 ∨ i = 2 ∨ i = 3 := by
      have := hlt i hi
      omega
    rcases this with rfl | rfl | rfl | rfl <;> decide
  rw [his'] at hsorted
  exact absurd hsorted (by decide)

/-! ## Nothing is stuck -/

/-- **No receive event is stuck**: once the completion worker has no tasks, its base is the base of
the tracker, every event left ends after it, no event waits to be polled, and a read response waits
only where no read does. -/
structure NoneStuck (tr : Traffic) (s : Workers) (h : RecvHistory) : Prop where
  basePsn : s.tracker.recv.basePsn = s.handler.recv.psnTracker.basePsn
  inner : ∃ wait : List ℕ, s.tracker.recv.inner = wait.map tr.recvEvent ∧
    ∀ i ∈ wait, h.base < tr.fin i
  inner_wire : ∀ e ∈ s.tracker.recv.inner, ¬ e.messageMeta.endPsn ≤ s.tracker.recv.basePsn
  recv : s.tracker.merge.recv = []
  recvReadResp : s.tracker.merge.recvReadResp = [] ∨ s.tracker.merge.send = []
  noReadResp : (∀ i ∈ h.registered, (tr i).kind.isReadResp = false) →
    s.tracker.merge.recvReadResp = []

theorem RecvSafe.noneStuck (hs : RecvSafe tr must s h) (hset : s.tracker.Settled)
    (hch : s.completionCh = []) : NoneStuck tr s h := by
  obtain ⟨popped, wait, reg, T, hv⟩ := hs.view
  have hsees := hv.sees
  rw [hch] at hsees
  obtain ⟨rfl, rfl⟩ := mk.inj (InFlight.nil_iff.1 hsees)
  have hT := hs.core.sound.base
  refine ⟨?_, ⟨wait, hv.inv.inner_eq, fun i hi => (hv.inv.lt_wait i hi).1⟩, ?_, hv.inv.recv_eq, ?_,
    ?_⟩
  · rw [hv.inv.basePsn, hT]
  · intro e he
    rw [hv.inv.inner_eq] at he
    obtain ⟨i, hi, rfl⟩ := mem_map.1 he
    obtain ⟨h₁, h₂, -⟩ := hv.inv.lt_wait i hi
    rw [hv.inv.basePsn]
    intro hle
    have := (Psn.wrap_le_wrap (a := tr.fin i) (b := h.base) (by omega) (by omega)).1 hle
    omega
  · rcases hset with hsend | ⟨-, hresp⟩
    · exact Or.inr hsend
    · exact Or.inl hresp
  · intro hno
    obtain ⟨used, hused, -⟩ := hv.inv.resp
    rw [filter_eq_nil_iff.2 fun i hi => by simp [hno i ((hv.mem i).2 (Or.inl hi))]] at hused
    exact (append_eq_nil_iff.1 hused.symm).2

theorem settled_of_step {s' : Workers} {l : Label} (hset : s.tracker.Settled)
    (hs : s.step qp l = some s') : s'.tracker.Settled := by
  cases Workers.fires_of_step hs with
  | runCompletion _ hr => exact hset.process hr
  | _ => exact hset

theorem settled_of_recvStep {w' : Workers × RecvHistory} {l : RecvLabel}
    (hset : w.1.tracker.Settled) (hs : recvStep tr qp w l = some w') : w'.1.tracker.Settled := by
  cases l with
  | arrive a =>
    cases hs
    exact hset
  | header i j isRetry =>
    obtain ⟨s', hs', rfl⟩ := Option.map_eq_some_iff.1 hs
    exact settled_of_step hset hs'
  | other l =>
    obtain ⟨s', hs', rfl⟩ := Option.map_eq_some_iff.1 hs
    exact settled_of_step hset hs'

/-- **In every run whose reports are about packets that arrived, and in which the end of a message
is reported before the base passes it, nothing is stuck when the completion worker has no
tasks.** -/
theorem run_noneStuck {ls : List RecvLabel} {w : Workers × RecvHistory}
    (hrun : Run (recvStep tr qp) (RecvOk tr anyOrder) ({}, {}) ls w) (hch : w.1.completionCh = []) :
    NoneStuck tr w.1 w.2 := by
  refine (recvSafe_of_run (fun _ _ h => h) hrun).noneStuck ?_ hch
  exact hrun.invariant (I := fun _ w => w.1.tracker.Settled) (Or.inl rfl)
    fun _ _ _ _ hset _ hs => settled_of_recvStep hset hs

/-- Nothing is stuck after the two swapped headers. -/
theorem run_noneStuck_swapped :
    ∃ w, Run (recvStep sendTraffic sampleAttr) (RecvOk sendTraffic anyOrder) ({}, {}) swapped w ∧
      w.1.completionCh = [] ∧ NoneStuck sendTraffic w.1 w.2 :=
  ⟨_, .of_isSome (by decide +kernel), by decide +kernel,
    run_noneStuck (.of_isSome _) (by decide +kernel)⟩

/-- The local card acknowledges a packet before its header is reported. -/
def ackedFirst : List RecvLabel :=
  arrivals 1 ++ [.other (.report (.ackLocalHw 0 1)), .header 0 0 false, .other .runCompletion,
    .other .runCompletion]

/-- The only message is delivered and reported, and its event stays in the tracker. -/
theorem run_recv_stuck :
    ∃ w, Run (recvStep sendTraffic sampleAttr) (Describes sendTraffic anyOrder) ({},
      {}) ackedFirst w ∧ w.1.completionCh = [] ∧ w.1.recvCq = [] ∧
      w.1.tracker.recv = ⟨[sendTraffic.recvEvent 0], 1⟩ ∧ ¬ NoneStuck sendTraffic w.1 w.2 :=
  ⟨_, .of_isSome (by decide +kernel), by decide +kernel, by decide +kernel, by decide +kernel,
    fun hn => hn.inner_wire (sendTraffic.recvEvent 0) (by decide +kernel) (by decide +kernel)⟩

/-! ## Posted receives -/

/-- The message takes a receive. -/
def MessageKind.takesRecv : MessageKind → Bool
  | .writeWithImm _ | .send | .sendWithImm _ => true
  | _ => false

/-- The message with the number `j` takes a receive. -/
def Traffic.takesRecv (tr : Traffic) (j : ℕ) : Bool := (tr j).kind.takesRecv

/-- How many receives the messages up to `i` take. -/
def Traffic.recvs (tr : Traffic) (i : ℕ) : ℕ := ((range (i + 1)).filter tr.takesRecv).length

/-- The receives the completion worker has got so far. -/
def Workers.received (s : Workers) : ℕ := s.recvCq.length + s.tracker.postRecvQueue.length

/-- The receives posted so far. -/
def Workers.posted (s : Workers) : ℕ := s.received + (postRecvIds s.completionCh).length

theorem forall₂_takesRecv {polled : List (RecvEvent × Option Completion)} {is : List ℕ}
    (heq : polled.map Prod.fst = is.map tr.recvEvent)
    (hc : ∀ y ∈ polled, QueuePairMessageTracker.CompletesAs y.1.op y.2) :
    List.Forall₂ (fun j c => QueuePairMessageTracker.CompletesAs (tr j).kind.op (some c))
      (is.filter tr.takesRecv) (polled.filterMap Prod.snd) := by
  induction is generalizing polled with
  | nil =>
    obtain rfl := map_eq_nil_iff.1 heq
    exact .nil
  | cons j is ih =>
    obtain ⟨⟨e, c⟩, polled, rfl, rfl, htail⟩ := map_eq_cons_iff.1 heq
    have hrest := ih htail fun y hy => hc y (.tail _ hy)
    have hfirst : QueuePairMessageTracker.CompletesAs (tr j).kind.op c := hc _ (.head _)
    cases hkind : (tr j).kind with
    | write | read =>
      rw [hkind] at hfirst
      obtain rfl : c = none := hfirst
      simpa [Traffic.takesRecv, MessageKind.takesRecv, hkind] using hrest
    | readResp =>
      rw [hkind] at hfirst
      exact hfirst.elim
    | writeWithImm | send | sendWithImm =>
      rw [hkind] at hfirst
      obtain ⟨wrId, rfl⟩ := hfirst
      rw [filter_cons_of_pos (by simp [Traffic.takesRecv, MessageKind.takesRecv, hkind])]
      refine .cons ?_ hrest
      rw [hkind]
      exact ⟨wrId, rfl⟩

/-- What a task tells the completion worker: the messages registered so far, and the receives
posted. A message that takes a receive comes after the receives of all messages up to it. -/
def PostSees (tr : Traffic) (v : List ℕ × ℕ) : CompletionTask → List ℕ × ℕ → Prop
  | .register (.recv _), v' => ∃ i, v' = (v.1 ++ [i], v.2) ∧ (tr.takesRecv i → tr.recvs i ≤ v.2)
  | .register (.postRecv _), v' => v' = (v.1, v.2 + 1)
  | _, v' => v' = v

/-- The completion worker gets the receives of a message before its event. -/
structure PostView (tr : Traffic) (s : Workers) (h : RecvHistory) (reg : List ℕ) : Prop where
  received : ∀ i ∈ reg, tr.takesRecv i → tr.recvs i ≤ s.received
  sees : InFlight (PostSees tr) (reg, s.received) s.completionCh (h.registered, s.posted)

namespace PostView

variable {reg : List ℕ}

theorem send (hv : PostView tr s h reg) {s' : Workers} {h' : RecvHistory} {ts : List CompletionTask}
    (htracker : s'.tracker = s.tracker) (hpolled : s'.recvPolled = s.recvPolled)
    (hch : s'.completionCh = s.completionCh ++ ts)
    (hts : InFlight (PostSees tr) (h.registered, s.posted) ts
      (h'.registered, s.posted + (postRecvIds ts).length)) : PostView tr s' h' reg := by
  have hreceived : s'.received = s.received := by
    rw [Workers.received, Workers.received, Workers.recvCq, Workers.recvCq, htracker, hpolled]
  have hposted : s'.posted = s.posted + (postRecvIds ts).length := by
    rw [Workers.posted, Workers.posted, hreceived, hch, postRecvIds_append,
      length_append, add_assoc]
  refine ⟨fun i hi => hreceived ▸ hv.received i hi, ?_⟩
  rw [hreceived, hposted, hch]
  exact hv.sees.append hts

/-- Tasks that register neither a message nor a receive tell nothing. -/
theorem silent (hv : PostView tr s h reg) {s' : Workers} {h' : RecvHistory}
    {ts : List CompletionTask} (htracker : s'.tracker = s.tracker) (hpolled : s'.recvPolled =
    s.recvPolled) (hch : s'.completionCh = s.completionCh ++ ts) (hreg :
    h'.registered = h.registered) (hts : ∀ t ∈ ts, (∃ e, t = .register (.send e)) ∨
    ∀ e, t ≠ .register e) : PostView tr s' h' reg := by
  have hnil : postRecvIds ts = [] := by
    refine postRecvIds_eq_nil fun t ht x => ?_
    obtain ⟨e, rfl⟩ | hne := hts t ht
    · simp
    · exact hne _
  refine hv.send htracker hpolled hch ?_
  rw [hnil, hreg]
  refine InFlight.of_forall fun t ht => ?_
  obtain ⟨e, rfl⟩ | hne := hts t ht
  · rfl
  · cases t with
    | register event => exact absurd rfl (hne event)
    | ackSend | ackRecv => rfl

theorem runCompletion (hv : PostView tr s h reg) {task : CompletionTask} {ch : List CompletionTask}
    {r : QueuePairMessageTracker × CompletionOutput} (hch : s.completionCh = task :: ch)
    (hr : s.tracker.process qp task = some r) :
    ∃ reg', PostView tr (s.afterCompletion ch r.1 r.2) h reg' := by
  have hids := congrArg length (QueuePairMessageTracker.process_ids hr)
  simp only [length_append, length_map, QueuePairMessageTracker.postRecvIds] at hids
  have hreceived : (s.afterCompletion ch r.1 r.2).received = s.received +
    (postRecvIds [task]).length := by
    simp only [Workers.received, Workers.afterCompletion, Workers.recvCq, filterMap_append,
      length_append]
    simp only [CompletionOutput.recvCq] at hids
    omega
  have hposted : (s.afterCompletion ch r.1 r.2).posted = s.posted := by
    rw [Workers.posted, Workers.posted, hreceived, hch, show task :: ch = [task] ++ ch from rfl,
      postRecvIds_append, length_append, ← add_assoc]
    rfl
  have hsees := hv.sees
  rw [hch] at hsees
  obtain ⟨v, htask, hsees⟩ := hsees
  have hsame : v = (reg, s.received) → postRecvIds [task] = [] →
      PostView tr (s.afterCompletion ch r.1 r.2) h reg := by
    rintro rfl hnil
    rw [hnil, length_nil, add_zero] at hreceived
    exact ⟨fun i hi => hreceived ▸ hv.received i hi, by rw [hreceived, hposted]; exact hsees⟩
  cases task with
  | register event =>
    cases event with
    | send e => exact ⟨reg, hsame htask rfl⟩
    | recv e =>
      obtain ⟨i, rfl, hi⟩ := htask
      refine ⟨reg ++ [i], fun k hk htakes => ?_, by rw [hreceived, hposted]; exact hsees⟩
      rw [hreceived]
      rcases mem_append.1 hk with hk | hk
      · exact (hv.received k hk htakes).trans (Nat.le_add_right _ _)
      · obtain rfl := mem_singleton.1 hk
        exact (hi htakes).trans (Nat.le_add_right _ _)
    | postRecv e =>
      obtain rfl : v = _ := htask
      refine ⟨reg, fun i hi htakes => ?_, by rw [hreceived, hposted]; exact hsees⟩
      rw [hreceived]
      exact (hv.received i hi htakes).trans (Nat.le_add_right _ _)
  | ackSend | ackRecv => exact ⟨reg, hsame htask rfl⟩

theorem report (hv : PostView tr s h reg) {m : ReportMeta} {r : MetaHandler × MetaOutput}
    (hr : s.handler.handleMeta m = some r) {h' : RecvHistory}
    (hevent : InFlight (PostSees tr) (h.registered, s.posted)
      (m.event.map fun e => CompletionTask.register (.recv e)).toList (h'.registered, s.posted)) :
    PostView tr (s.afterReport r.1 r.2) h' reg := by
  have hspec := MetaHandler.handleMeta_spec hr
  have hnil : postRecvIds r.2.completion = [] := by
    refine postRecvIds_eq_nil fun t ht x => ?_
    rw [hspec.completion] at ht
    rintro rfl
    simp at ht
  refine hv.send rfl rfl rfl ?_
  rw [hnil, hspec.completion]
  refine (hevent.append (InFlight.of_forall fun t ht => ?_)).append (InFlight.of_forall fun t ht =>
    ?_)
  all_goals
    obtain ⟨p, -, rfl⟩ := Option.mem_map.1 (Option.mem_toList.1 ht)
    rfl

/-- **Every step keeps the receives before their messages**, if the end of a message that takes one
is reported after the receives of all messages up to it were posted. -/
theorem step {w' : Workers × RecvHistory} {l : RecvLabel} (hv : PostView tr w.1 w.2 reg)
    (hok : Describes tr must w l) (hposted : ∀ i j isRetry, l = .header i j isRetry →
      tr.Registers i j → tr.takesRecv i → tr.recvs i ≤ w.1.posted) (hstep :
    recvStep tr qp w l = some w') : ∃ reg', PostView tr w'.1 w'.2 reg' := by
  obtain ⟨s, h⟩ := w
  cases l with
  | arrive a =>
    cases hstep
    exact ⟨reg, hv.received, hv.sees⟩
  | header i j isRetry =>
    obtain ⟨s', hs', rfl⟩ := Option.map_eq_some_iff.1 hstep
    obtain ⟨r, hr, rfl⟩ := Option.map_eq_some_iff.1 hs'
    refine ⟨reg, hv.report hr ?_⟩
    rw [tr.event_header hok.1]
    change InFlight _ _ _ (h.registered ++ if tr.Registers i j then [i] else [], _)
    split_ifs with hreg
    · exact InFlight.single ⟨i, rfl, hposted i j isRetry rfl hreg⟩
    · rw [append_nil]
      exact InFlight.refl _
  | other l =>
    obtain ⟨s', hs', rfl⟩ := Option.map_eq_some_iff.1 hstep
    cases Workers.fires_of_step hs' with
    | @report m r hr =>
      have hevent : m.event = none := by
        have hheader := hok.1
        cases m <;> first | rfl | cases hheader
      refine ⟨reg, hv.report hr ?_⟩
      rw [hevent]
      exact InFlight.refl _
    | postRecv wrId => exact ⟨reg, hv.send rfl rfl rfl (InFlight.single rfl)⟩
    | runRdmaWrite _ hr =>
      refine ⟨reg, hv.silent rfl rfl rfl rfl fun t ht => .inl ?_⟩
      exact SendQueueContext.process_completion hr t ht
    | runCompletion hch hr => exact hv.runCompletion hch hr
    | _ => exact ⟨reg, hv.received, hv.sees⟩

end PostView

/-- The calls the step makes on the tracker of the receive side. -/
def RecvLabel.recvOps (tr : Traffic) (s : Workers) (l : RecvLabel) : List AckOp :=
  match l.label tr with
  | some (.report m) => m.recvOps s.handler
  | _ => []

/-- The steps of a run in which every message completes once: the queue pair has its completion
queues, the receive side is safe, the tracker stays exact, read requests ask for an acknowledgement,
no message is a read response, and the end of a message that takes a receive is reported after the
receives of all messages up to it were posted. -/
def OnceOk (tr : Traffic) (qp : QpAttr) (w : Workers × RecvHistory) (l : RecvLabel) : Prop :=
  (qp.sendCq.isSome ∧ qp.recvCq.isSome) ∧ RecvOk tr anyOrder w l ∧
    w.1.handler.recv.psnTracker.Exact (l.recvOps tr w.1) ∧
    match l with
    | .header i j _ => tr.Acks i ∧ (tr i).kind.isReadResp = false ∧
        (tr.Registers i j → tr.takesRecv i → tr.recvs i ≤ w.1.posted)
    | _ => True

instance (tr : Traffic) (qp : QpAttr) (w : Workers × RecvHistory) :
    (l : RecvLabel) → Decidable (OnceOk tr qp w l)
  | .header .. | .arrive _ | .other _ => by
    dsimp only [OnceOk]
    infer_instance

/-- The invariant of such a run. -/
structure OnceSafe (tr : Traffic) (s : Workers) (h : RecvHistory) : Prop
    extends RecvSafe tr anyOrder s h where
  tracks : Tracks s.handler.recv.psnTracker (ackedIn h.acks) h.base
  acked : ∀ x ∈ h.headers, ((tr.start x.1 + x.2 : ℕ) : ℤ) ∈ ackedIn h.acks
  registered : ∀ x ∈ h.headers, x.2 + 1 = (tr x.1).count → x.1 ∈ h.registered
  of_registered : ∀ i ∈ h.registered, (tr i).kind.isReadResp = false ∧ ∃ j, (i, j) ∈ h.headers
  posted : ∃ reg, PostView tr s h reg

theorem Tracks.report {m : ReportMeta} {r : MetaHandler × MetaOutput}
    (ht : Tracks s.handler.recv.psnTracker (ackedIn h.acks) h.base)
    (hc : RecvCore tr must s.handler.recv.psnTracker h) {h' : RecvHistory}
    (hc' : RecvCore tr must r.1.recv.psnTracker h') (hr : s.handler.handleMeta m = some r)
    (hex : s.handler.recv.psnTracker.Exact (m.recvOps s.handler))
    (harrived : h'.arrived = h.arrived) (hacks : h'.acks = h.acks ++
    calls s.handler.recv.psnTracker h.base (m.recvOps s.handler)) (hbase :
    h'.base = advance h.base s.handler.recv.psnTracker.basePsn r.1.recv.psnTracker.basePsn) :
    Tracks r.1.recv.psnTracker (ackedIn h'.acks) h'.base := by
  have hspec := MetaHandler.handleMeta_spec hr
  rw [hbase, hspec.recv, hacks, ackedIn_append]
  refine ht.applyAll hex fun a ha => ?_
  rw [← ackedIn_append, ← hacks] at ha
  have h0 := ht.nonneg
  rcases lt_or_ge a 0 with hneg | hpos
  · omega
  · have := (hc'.acked a.toNat (by rwa [Int.toNat_of_nonneg hpos])).1
    have := hc.window a.toNat (harrived ▸ this)
    omega

/-- **Every step of such a run keeps the invariant.** -/
theorem OnceSafe.step {w' : Workers × RecvHistory} {l : RecvLabel} (hs : OnceSafe tr w.1 w.2)
    (hok : OnceOk tr qp w l) (hstep : recvStep tr qp w l = some w') : OnceSafe tr w'.1 w'.2 := by
  have hsafe := hs.toRecvSafe.step hok.2.1 hstep
  have hview : ∃ reg, PostView tr w'.1 w'.2 reg := by
    obtain ⟨reg, hv⟩ := hs.posted
    refine hv.step hok.2.1.1 (fun i j isRetry hl => ?_) hstep
    subst hl
    exact hok.2.2.2.2.2
  obtain ⟨s, h⟩ := w
  cases l with
  | arrive a =>
    cases hstep
    exact ⟨hsafe, hs.tracks, hs.acked, hs.registered, hs.of_registered, hview⟩
  | header i j isRetry =>
    obtain ⟨s', hs', rfl⟩ := Option.map_eq_some_iff.1 hstep
    obtain ⟨r, hr, rfl⟩ := Option.map_eq_some_iff.1 hs'
    obtain ⟨-, ⟨⟨hj, harr, hback⟩, -⟩, hex, hacks, hkind, -⟩ := hok
    dsimp only at harr hback
    refine ⟨hsafe, hs.tracks.report hs.core hsafe.core hr hex rfl rfl rfl, fun x hx => ?_,
      fun x hx hlast => ?_, fun k hk => ?_, hview⟩
    · change _ ∈ ackedIn (h.acks ++ calls s.handler.recv.psnTracker h.base _)
      rw [ackedIn_append]
      rcases mem_append.1 hx with hx | hx
      · exact Or.inl (hs.acked x hx)
      · -- the report acknowledges the packet with its own number
        obtain rfl := mem_singleton.1 hx
        rw [Traffic.recvOps_header, if_pos hacks, calls, ackedIn_cons]
        have hlt := hs.core.window _ harr
        have hlift := Psn.lift_wrap (a := (tr.start i + j : ℕ)) (b := h.base) (by omega)
          (by dsimp only at hlt; omega)
        exact Or.inr (Or.inl (Set.mem_singleton_iff.2 hlift.symm))
    · change _ ∈ h.registered ++ if tr.Registers i j then [i] else []
      rcases mem_append.1 hx with hx | hx
      · exact mem_append_left _ (hs.registered x hx hlast)
      · obtain rfl := mem_singleton.1 hx
        rw [if_pos ⟨hlast, hacks⟩]
        simp
    · rcases mem_append.1 hk with hk | hk
      · obtain ⟨h₁, j', h₂⟩ := hs.of_registered k hk
        exact ⟨h₁, j', mem_append_left _ h₂⟩
      · split_ifs at hk
        · obtain rfl := mem_singleton.1 hk
          exact ⟨hkind, j, mem_append_right _ (mem_singleton.2 rfl)⟩
        · cases hk
  | other l =>
    obtain ⟨s', hs', rfl⟩ := Option.map_eq_some_iff.1 hstep
    cases Workers.fires_of_step hs' with
    | report hr =>
      refine ⟨hsafe, hs.tracks.report hs.core hsafe.core hr hok.2.2.1 rfl rfl rfl, fun x hx => ?_,
        hs.registered, hs.of_registered, hview⟩
      change _ ∈ ackedIn (h.acks ++ calls s.handler.recv.psnTracker h.base _)
      rw [ackedIn_append]
      exact Or.inl (hs.acked x hx)
    | _ => exact ⟨hsafe, hs.tracks, hs.acked, hs.registered, hs.of_registered, hview⟩

end OpenRdma.Driver
