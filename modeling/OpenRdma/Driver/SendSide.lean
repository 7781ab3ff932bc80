import OpenRdma.Driver.Posting
import OpenRdma.Driver.Reports
import OpenRdma.Driver.System
import OpenRdma.Foundations.Channel
import OpenRdma.Foundations.Run

/-!
# The send side of a queue pair

The send side with its history: the work requests the write worker took, with unbounded numbers, and
the set of numbers the peer acknowledged. The base the write worker works with lags behind the base
of the tracker by the tasks in flight. `SendCore W` is what every run keeps in which the peer
acknowledges only what was sent and every request taken leaves at most `W` numbers outstanding
(`SendCore.step`).
-/

namespace OpenRdma.Driver

open Channel SendQueueContext List

/-! ## History -/

/-- A work request the write worker took: the unbounded number of its message, its first unbounded
sequence number and how many it reserved. -/
structure Accepted where
  msn : ℕ
  start : ℤ
  count : ℕ
  wr : SendWrRdma
  deriving DecidableEq

namespace Accepted

/-- The number after the last one of the request. -/
def fin (y : Accepted) : ℤ := y.start + y.count

def elem (qp : QpAttr) (y : Accepted) : SendQueueElem :=
  ⟨Psn.wrap y.start, y.wr, qp.params (Msn.wrap y.msn)⟩

def event (y : Accepted) : Option SendEvent := sendEvent y.wr (Msn.wrap y.msn) (Psn.wrap y.fin)

end Accepted

/-- The history of the send side: the requests the write worker was given and those it took, the
next sequence number, the calls by which the peer acknowledged, and the base of the tracker. -/
structure SendHistory where
  given : List SendWrRdma := []
  accepted : List Accepted := []
  next : ℤ := 0
  acks : List (ℤ × AckOp) := []
  base : ℤ := 0
  deriving DecidableEq

namespace SendHistory

/-- The numbers the peer acknowledged. -/
def acked (h : SendHistory) : Set ℤ := ackedIn h.acks

/-- The request was taken with the next `n` numbers. -/
def take (h : SendHistory) (wr : SendWrRdma) (n : ℕ) : SendHistory :=
  { h with
    given := h.given ++ [wr]
    accepted := h.accepted ++ [⟨h.accepted.length, h.next, n, wr⟩]
    next := h.next + n }

/-- The worker was given a request and answered with `r`. -/
def give (qp : QpAttr) (h : SendHistory) (wr : SendWrRdma) (r : Option RdmaResult) : SendHistory :=
  match r with
  | some (.ok (), _) => h.take wr ((reservedPsns wr qp.pmtu).getD 0)
  | _ => { h with given := h.given ++ [wr] }

def record (qp : QpAttr) (h : SendHistory) (s s' : Workers) : Label → SendHistory
  | .report m =>
    { h with
      acks := h.acks ++ calls s.handler.send.psnTracker h.base (m.sendOps s.handler)
      base := advance h.base s.handler.send.psnTracker.basePsn s'.handler.send.psnTracker.basePsn }
  | .runRdmaWrite =>
    match s.nextRequest with
    | some wr => h.give qp wr (s.ctx.post qp wr)
    | none => h
  | _ => h

end SendHistory

/-- A step of the workers that records the history of the send side. -/
def sendStep (qp : QpAttr) (w : Workers × SendHistory) (l : Label) :
    Option (Workers × SendHistory) :=
  (w.1.step qp l).map fun s' => (s', w.2.record qp w.1 s' l)

/-! ## The core of the send side -/

/-- What a task tells the write worker about the acknowledged base. -/
def AckView (K : ℤ) : RdmaWriteTask → ℤ → Prop
  | .ack basePsn, K' => basePsn = Psn.wrap K' ∧ K ≤ K'
  | _, K' => K' = K

theorem AckView.le {K K' : ℤ} {ch : List RdmaWriteTask} (h : InFlight AckView K ch K') :
    K ≤ K' := by
  refine h.preserves (P := (K ≤ ·)) le_rfl fun a t b ha hb => ?_
  cases t with
  | ack => exact ha.trans hb.2
  | write => exact ha.trans_eq hb.symm
  | newComplete => exact ha.trans_eq hb.symm

/-- The counters of the send side: the context holds the next number and a base that lags behind the
base of the tracker, with at most `W` numbers outstanding, and the tracker is sound. -/
structure SendCore (W : ℤ) (ctx : SendQueueContext) (t : PsnTracker) (ch : List RdmaWriteTask)
    (h : SendHistory) : Prop where
  psn : ctx.psn = Psn.wrap h.next
  msn : ctx.msn = Msn.wrap h.accepted.length
  nonneg : 0 ≤ h.next
  acked_lt : ∀ a ∈ h.acked, a < h.next
  sound : Sound t h.acked h.base
  view : ∃ K, ctx.psnAcked = Psn.wrap K ∧ h.next - K ≤ W ∧ InFlight AckView K ch h.base

/-- The core of the send side of the workers. -/
def Workers.Core (W : ℤ) (s : Workers) (h : SendHistory) : Prop :=
  SendCore W s.ctx s.handler.send.psnTracker s.rdmaWriteCh h

/-- The steps after which the core still holds: the peer acknowledges numbers that were sent, and a
request that is taken leaves at most `W` numbers outstanding. -/
def CoreOk (W : ℤ) (qp : QpAttr) (w : Workers × SendHistory) : Label → Prop
  | .report m =>
    ∀ x ∈ calls w.1.handler.send.psnTracker w.2.base (m.sendOps w.1.handler), x.2.Below x.1 w.2.next
  | .runRdmaWrite =>
    ∀ wr ∈ w.1.nextRequest, Registers qp wr ∧
      ∀ n ∈ reservedPsns wr qp.pmtu, ((w.1.ctx.psn - w.1.ctx.psnAcked).inner : ℤ) + n ≤ W
  | _ => True

instance (W : ℤ) (qp : QpAttr) (w : Workers × SendHistory) (l : Label) :
    Decidable (CoreOk W qp w l) := by
  unfold CoreOk
  split <;> infer_instance

/-- The same steps, with nothing asked of a request that is refused for lack of room. -/
def RoomOk (W : ℤ) (qp : QpAttr) (w : Workers × SendHistory) : Label → Prop
  | .report m =>
    ∀ x ∈ calls w.1.handler.send.psnTracker w.2.base (m.sendOps w.1.handler), x.2.Below x.1 w.2.next
  | .runRdmaWrite =>
    ∀ wr ∈ w.1.nextRequest, Registers qp wr ∧
      ∀ n ∈ reservedPsns wr qp.pmtu, w.1.ctx.HasRoom n →
        ((w.1.ctx.psn - w.1.ctx.psnAcked).inner : ℤ) + n ≤ W
  | _ => True

theorem CoreOk.roomOk {W : ℤ} {qp : QpAttr} {w : Workers × SendHistory} {l : Label}
    (h : CoreOk W qp w l) :
    RoomOk W qp w l := by
  cases l with
  | report m => exact h
  | runRdmaWrite => exact fun wr hwr => ⟨(h wr hwr).1, fun n hn _ => (h wr hwr).2 n hn⟩
  | post | postRecv | timeout | runRetransmit | runCompletion => trivial

namespace SendCore

variable {W : ℤ} {ctx : SendQueueContext} {t : PsnTracker} {ch : List RdmaWriteTask}
  {h : SendHistory}

section

variable (hc : SendCore W ctx t ch h)
include hc

theorem base_le_next : h.base ≤ h.next :=
  hc.sound.base_le hc.nonneg hc.acked_lt

theorem next_sub_base_le : h.next - h.base ≤ W := by
  obtain ⟨K, -, hW, hview⟩ := hc.view
  have := AckView.le hview
  omega

theorem send {ts : List RdmaWriteTask} (hts : ∀ t ∈ ts, ∀ K, AckView K t K) :
    SendCore W ctx t (ch ++ ts) h :=
  { hc with
    view := by
      obtain ⟨K, hK, hW, hview⟩ := hc.view
      exact ⟨K, hK, hW, hview.append (InFlight.of_forall fun t ht => hts t ht _)⟩ }

theorem report (hW : W ≤ 2 ^ 23) {ops : List AckOp} (hops : ∀ x ∈ calls t h.base ops,
    x.2.Below x.1 h.next) : SendCore W ctx (t.applyAll ops).1 (ch ++
    ((t.applyAll ops).2.map .ack).toList)
      { h with
        acks := h.acks ++ calls t h.base ops
        base := advance h.base t.basePsn (t.applyAll ops).1.basePsn } := by
  have hlt : ∀ a ∈ ackedIn (h.acks ++ calls t h.base ops), a < h.next := by
    rw [ackedIn_append]
    rintro a (ha | ⟨x, hx, ha⟩)
    · exact hc.acked_lt a ha
    · exact AckOp.below_iff.1 (hops x hx) a ha
  have hwin := hc.next_sub_base_le
  have hmono : ackedIn h.acks ⊆ ackedIn (h.acks ++ calls t h.base ops) := by
    rw [ackedIn_append]
    exact Set.subset_union_left
  have hsound := (hc.sound.mono hmono).applyAll (fun a ha => (hlt a ha).trans_le (by omega))
    fun x hx => acks_subset_ackedIn (mem_append_right _ hx)
  refine ⟨hc.psn, hc.msn, hc.nonneg, hlt, hsound, ?_⟩
  obtain ⟨K, hK, hKW, hview⟩ := hc.view
  refine ⟨K, hK, hKW, hview.append ?_⟩
  cases hack : (t.applyAll ops).2 with
  | none =>
    rw [PsnTracker.applyAll_of_none hack, advance_self]
    exact InFlight.refl _
  | some p =>
    exact InFlight.single ⟨(PsnTracker.applyAll_of_some hack).symm.trans hsound.base,
      le_advance _ _ _⟩

end

theorem ack {p : Psn} (hc : SendCore W ctx t (.ack p :: ch) h) :
    SendCore W (ctx.updatePsnAcked p) t ch h := by
  obtain ⟨K, -, hW, K', ⟨hp, hle⟩, hview⟩ := hc.view
  exact { hc with view := ⟨K', hp, by omega, hview⟩ }

theorem newComplete {m : Msn} (hc : SendCore W ctx t (.newComplete m :: ch) h) :
    SendCore W (ctx.updateMsnAcked m) t ch h := by
  obtain ⟨K, hK, hW, K', rfl, hview⟩ := hc.view
  exact { hc with view := ⟨_, hK, hW, hview⟩ }

theorem refuse {wr : SendWrRdma} (hc : SendCore W ctx t (.write wr :: ch) h) :
    SendCore W ctx t ch { h with given := h.given ++ [wr] } := by
  obtain ⟨K, hK, hW, K', rfl, hview⟩ := hc.view
  exact { hc with view := ⟨_, hK, hW, hview⟩ }

theorem take {wr : SendWrRdma} {n : ℕ} (hW : W ≤ 2 ^ 23) (hc : SendCore W ctx t (.write wr :: ch) h)
    (hn : ((ctx.psn - ctx.psnAcked).inner : ℤ) + n ≤ W) :
    SendCore W (ctx.take n) t ch (h.take wr n) := by
  have hnext := hc.nonneg
  have hle := hc.base_le_next
  obtain ⟨K, hK, hKW, K', rfl, hview⟩ := hc.view
  have hKle := AckView.le hview
  rw [hc.psn, hK, Psn.wrap_sub (by omega) (by omega)] at hn
  refine ⟨?_, ?_, ?_, fun a ha => ?_, hc.sound, _, hK, ?_, hview⟩
  · rw [SendQueueContext.take, hc.psn, Psn.wrap_add]
    rfl
  · rw [SendQueueContext.take, hc.msn, Msn.wrappingAdd_wrap, SendHistory.take, length_append]
    rfl
  · change 0 ≤ h.next + n
    omega
  · have := hc.acked_lt a ha
    change a < h.next + n
    omega
  · change h.next + n - _ ≤ W
    omega

end SendCore

/-- What a step does to the workers and the history. -/
inductive SendFires (qp : QpAttr) (s : Workers) (h : SendHistory) :
    Label → Workers × SendHistory → Prop
  | idle {l} : SendFires qp s h l (s, h)
  | post (wr) : SendFires qp s h (.post wr) ({ s with rdmaWriteCh := s.rdmaWriteCh ++ [.write wr] },
      h)
  | postRecv (wrId) : SendFires qp s h (.postRecv wrId)
      ({ s with completionCh := s.completionCh ++ [.register (.postRecv ⟨wrId⟩)] }, h)
  | report {m r} (hr : s.handler.handleMeta m = some r) :
      SendFires qp s h (.report m) (s.afterReport r.1 r.2,
        h.record qp s (s.afterReport r.1 r.2) (.report m))
  | timeout : SendFires qp s h .timeout ({ s with
      retransmitCh := s.retransmitCh ++ [.retransmitAll] }, h)
  | ack {p ch} (hch : s.rdmaWriteCh = .ack p :: ch) :
      SendFires qp s h .runRdmaWrite (s.afterRdmaWrite ch (s.ctx.updatePsnAcked p) {}, h)
  | newComplete {m ch} (hch : s.rdmaWriteCh = .newComplete m :: ch) :
      SendFires qp s h .runRdmaWrite (s.afterRdmaWrite ch (s.ctx.updateMsnAcked m) {}, h)
  | refuse {wr ch r} (hch : s.rdmaWriteCh = .write wr :: ch) (hr : s.ctx.post qp wr = some r)
      (hrefuse : s.ctx.Refuses r) : SendFires qp s h .runRdmaWrite
        (s.afterRdmaWrite ch s.ctx {}, { h with given := h.given ++ [wr] })
  | take {wr ch n r} (hch : s.rdmaWriteCh = .write wr :: ch) (ht : s.ctx.Takes qp wr n r) :
      SendFires qp s h .runRdmaWrite (s.afterRdmaWrite ch (s.ctx.take n) r.2.2, h.take wr n)
  | runRetransmit {task ch r} (hch : s.retransmitCh = task :: ch)
      (hr : s.sq.process task = some r) : SendFires qp s h .runRetransmit
      (s.afterRetransmit ch r.1 r.2, h)
  | runCompletion {task ch r} (hch : s.completionCh = task :: ch)
      (hr : s.tracker.process qp task = some r) :
      SendFires qp s h .runCompletion (s.afterCompletion ch r.1 r.2, h)

theorem sendFires_of_step {W : ℤ} {qp : QpAttr} {s : Workers} {h : SendHistory}
    {w' : Workers × SendHistory} {l : Label} (hok : RoomOk W qp (s, h) l)
    (hs : sendStep qp (s, h) l = some w') : SendFires qp s h l w' := by
  obtain ⟨s', hs', rfl⟩ := Option.map_eq_some_iff.1 hs
  dsimp only at hs'
  cases Workers.fires_of_step hs' with
  | post wr => exact .post wr
  | postRecv wrId => exact .postRecv wrId
  | report hr => exact .report hr
  | timeout => exact .timeout
  | noRdmaWrite hch =>
    simp only [SendHistory.record, Workers.nextRequest, hch]
    exact .idle
  | noRetransmit | noCompletion => exact .idle
  | runRetransmit hch hr => exact .runRetransmit hch hr
  | runCompletion hch hr => exact .runCompletion hch hr
  | @runRdmaWrite task ch r hch hr =>
    cases task with
    | ack p =>
      cases hr
      simp only [SendHistory.record, Workers.nextRequest, hch]
      exact .ack hch
    | newComplete m =>
      cases hr
      simp only [SendHistory.record, Workers.nextRequest, hch]
      exact .newComplete hch
    | write wr =>
      have hnext : s.nextRequest = some wr := by simp [Workers.nextRequest, hch]
      obtain ⟨r₀, hr₀, rfl⟩ := Option.map_eq_some_iff.1 hr
      rcases post_cases (hok wr hnext).1 hr₀ with hrefuse | ⟨n, htakes⟩
      · obtain ⟨e, rfl⟩ := hrefuse
        simp only [SendHistory.record, hnext, hr₀, SendHistory.give]
        exact .refuse hch hr₀ ⟨e, rfl⟩
      · obtain ⟨r₁, r₂, r₃⟩ := r₀
        obtain rfl : r₁ = .ok () := htakes.ok
        obtain rfl : r₂ = s.ctx.take n := htakes.after
        simp only [SendHistory.record, hnext, hr₀, SendHistory.give, htakes.reserved,
          Option.getD_some]
        exact .take hch htakes

/-- **The core of the send side** is kept by every step. -/
theorem Workers.Core.step {W : ℤ} (hW : W ≤ 2 ^ 23) {qp : QpAttr} {w w' : Workers × SendHistory}
    {l : Label} (hc : w.1.Core W w.2) (hok : RoomOk W qp w l) (hs : sendStep qp w l = some w') :
    w'.1.Core W w'.2 := by
  cases sendFires_of_step hok hs with
  | idle | postRecv | timeout | runRetransmit => exact hc
  | post wr => exact hc.send fun t ht K => by rw [mem_singleton.1 ht]; rfl
  | @report m r hr =>
    have hspec := MetaHandler.handleMeta_spec hr
    have hanswer : ∀ t ∈ m.answer, ∀ K, AckView K t K := by
      intro t ht K
      cases m <;> simp only [ReportMeta.answer, mem_singleton, not_mem_nil] at ht
      rw [ht]
      rfl
    have hreport := (hc.send hanswer).report hW hok
    unfold Workers.Core Workers.afterReport SendHistory.record
    rw [hspec.rdmaWrite, hspec.send, ← append_assoc]
    exact hreport
  | ack hch =>
    rw [Workers.Core, hch] at hc
    exact hc.ack
  | newComplete hch =>
    rw [Workers.Core, hch] at hc
    exact hc.newComplete
  | refuse hch =>
    rw [Workers.Core, hch] at hc
    exact hc.refuse
  | @take wr ch n r hch ht =>
    rw [Workers.Core, hch] at hc
    exact hc.take hW ((hok wr (by simp [Workers.nextRequest, hch])).2 n ht.reserved ht.room)
  | runCompletion =>
    refine hc.send fun t ht K => ?_
    obtain ⟨x, -, rfl⟩ := mem_map.1 ht
    rfl

theorem sendCore_init (W : ℤ) (hW : 0 ≤ W) : Workers.Core W {} {} where
  psn := rfl
  msn := rfl
  nonneg := le_rfl
  acked_lt := by
    rintro a ⟨x, hx, -⟩
    cases hx
  sound := by
    have := sound_default
    rwa [← ackedIn_nil] at this
  view := ⟨0, rfl, by simpa using hW, rfl⟩

/-- A queue pair with a path MTU of 256 and two completion queues. -/
def sampleAttr : QpAttr :=
  { qpType := 2, qpn := 0x100, macAddr := 0, dqpn := 0x200, dqpIp := 0, pmtu := 1, sendCq := some 0
    recvCq := some 1 }

/-- A signaled write of one packet. -/
def samplePacket : SendWrRdma := sampleWr .rdmaWrite 0x2000 256 sampleRaddr_lt sampleLength_lt

end OpenRdma.Driver
