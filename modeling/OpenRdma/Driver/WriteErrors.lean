import OpenRdma.Driver.Ctx
import OpenRdma.Driver.PostSend

/-!
# Errors of the write worker

`write` and `rdma_read` take the sequence numbers of a request before they register its completion,
and do not give them back if that fails. So an error is without effect exactly unless a request with
numbers taken cannot be registered (`errorNoEffect_iff`): it is signaled, and its queue pair has no
completion queue for sends or its operation has no kind of completion. `process` drops the error,
and the next request leaves a gap.
-/

namespace OpenRdma.Driver

open Option

/-- The tables of `RdmaWriteWorker`. -/
structure RdmaWriteWorker where
  sqCtxTable : ℕ → SendQueueContext := fun _ => {}
  qpAttrTable : ℕ → QpAttr

/-- The calls that take sequence numbers. -/
inductive RdmaCall
  | write
  | rdmaRead
  deriving DecidableEq

namespace RdmaCall

def run (c : RdmaCall) (qp : QpAttr) (ctx : SendQueueContext) (wr : SendWrRdma) :
    Option RdmaResult :=
  match c with
  | write => ctx.write qp wr
  | rdmaRead => some (ctx.rdmaRead qp wr)

/-- How many sequence numbers the call takes, if it can count them. -/
def numPsn (c : RdmaCall) (qp : QpAttr) (wr : SendWrRdma) : Option ℕ :=
  match c with
  | write => Driver.numPsn qp.pmtu wr.raddr wr.length
  | rdmaRead => some 1

/-- The kind of completion of the request. -/
def eventOp (c : RdmaCall) (wr : SendWrRdma) : Option SendEventOp :=
  match c with
  | write => SendQueueContext.writeEventOp wr.opcode
  | rdmaRead => some .readSignaled

/-- The call asserts that a plain write is not empty. -/
def Panics (c : RdmaCall) (wr : SendWrRdma) : Prop :=
  c = write ∧ wr.length = 0 ∧ wr.opcode = .rdmaWrite

instance (c : RdmaCall) (wr : SendWrRdma) : Decidable (c.Panics wr) :=
  inferInstanceAs (Decidable (_ ∧ _))

/-- The completion of a signaled request can be registered. -/
def Registers (c : RdmaCall) (qp : QpAttr) (wr : SendWrRdma) : Prop :=
  wr.signaled = true → qp.sendCq.isSome ∧ (c.eventOp wr).isSome

instance (c : RdmaCall) (qp : QpAttr) (wr : SendWrRdma) : Decidable (c.Registers qp wr) :=
  inferInstanceAs (Decidable (_ → _))

/-- The sequence numbers of the request are taken. -/
def Reserves (c : RdmaCall) (qp : QpAttr) (ctx : SendQueueContext) (wr : SendWrRdma) : Prop :=
  ¬ c.Panics wr ∧ ∃ n ∈ c.numPsn qp wr, ctx.HasRoom n

variable {c : RdmaCall} {qp : QpAttr} {ctx : SendQueueContext} {wr : SendWrRdma}

theorem exists_registerEvent_error (h : ¬ c.Registers qp wr) (msn : Msn) (psn : Psn) :
    ∃ e, SendQueueContext.registerEvent qp wr (c.eventOp wr) msn psn = .error e := by
  obtain ⟨hsignaled, hnot⟩ := Classical.not_imp.1 h
  unfold SendQueueContext.registerEvent
  rw [if_pos hsignaled]
  by_cases hcq : qp.sendCq.isSome = true
  · cases hop : c.eventOp wr with
    | none => exact ⟨_, if_pos hcq⟩
    | some op => exact absurd ⟨hcq, by rw [hop]; rfl⟩ hnot
  · exact ⟨_, if_neg hcq⟩

theorem exists_registerEvent_ok (h : c.Registers qp wr) (msn : Msn) (psn : Psn) :
    ∃ ts, SendQueueContext.registerEvent qp wr (c.eventOp wr) msn psn = .ok ts := by
  unfold SendQueueContext.registerEvent
  split_ifs with hsignaled hcq
  · obtain ⟨op, hop⟩ := isSome_iff_exists.1 (h hsignaled).2
    exact ⟨_, by rw [hop]⟩
  · exact absurd (h hsignaled).1 hcq
  · exact ⟨_, rfl⟩

theorem run_of_not_reserves (h : ¬ c.Reserves qp ctx wr) {r : RdmaResult}
    (hr : c.run qp ctx wr = some r) :
    r = (.error .invalidInput, ctx, {}) := by
  cases c with
  | write =>
    rw [run, SendQueueContext.write] at hr
    by_cases hzero : wr.length = 0 ∧ wr.opcode = .rdmaWrite
    · rw [if_pos hzero] at hr
      cases hr
    rw [if_neg hzero] at hr
    cases hn : Driver.numPsn qp.pmtu wr.raddr wr.length with
    | none =>
      rw [hn] at hr
      exact (some.inj hr).symm
    | some n =>
      have hroom : ¬ ctx.HasRoom n := fun hroom => h ⟨fun hp => hzero hp.2, n, hn, hroom⟩
      rw [hn, elim_some, SendQueueContext.nextWr_eq, if_neg hroom] at hr
      exact (some.inj hr).symm
  | rdmaRead =>
    have hroom : ¬ ctx.HasRoom 1 := fun hroom => h ⟨fun hp => (by cases hp.1), 1, rfl, hroom⟩
    rw [run, SendQueueContext.rdmaRead, SendQueueContext.nextWr_eq, if_neg hroom] at hr
    exact (some.inj hr).symm

/-- A call that has taken numbers fails only if no completion can be registered. -/
theorem run_of_reserves (h : c.Reserves qp ctx wr) : ∃ n,
    match SendQueueContext.registerEvent qp wr (c.eventOp wr) ctx.msn (ctx.psn + n) with
    | .error e => c.run qp ctx wr = some (.error e, ctx.take n, {})
    | .ok _ => ∀ r, c.run qp ctx wr = some r → r.1 = .ok () := by
  obtain ⟨hpanic, n, hn, hroom⟩ := h
  refine ⟨n, ?_⟩
  cases c with
  | write =>
    have hzero : ¬ (wr.length = 0 ∧ wr.opcode = .rdmaWrite) := fun hz => hpanic ⟨rfl, hz⟩
    have hn' : Driver.numPsn qp.pmtu wr.raddr wr.length = some n := hn
    dsimp only [run, eventOp]
    rw [SendQueueContext.write, if_neg hzero, hn', elim_some, SendQueueContext.nextWr_eq,
      if_pos hroom, elim_some]
    dsimp only
    cases SendQueueContext.registerEvent qp wr (SendQueueContext.writeEventOp wr.opcode) ctx.msn
      (ctx.psn + n) with
    | error e => rfl
    | ok ts =>
      intro r hr
      obtain ⟨chunks, -, rfl⟩ := map_eq_some_iff.1 hr
      rfl
  | rdmaRead =>
    obtain rfl : 1 = n := some.inj hn
    dsimp only [run, eventOp]
    rw [SendQueueContext.rdmaRead, SendQueueContext.nextWr_eq, if_pos hroom, elim_some]
    dsimp only
    cases SendQueueContext.registerEvent qp wr (some .readSignaled) ctx.msn (ctx.psn + 1) with
    | error e => rfl
    | ok ts => exact fun r hr => some.inj hr ▸ rfl

/-- **A request that takes numbers and cannot be registered keeps them.** -/
theorem run_of_not_registers (h : c.Reserves qp ctx wr) (hreg : ¬ c.Registers qp wr) :
    ∃ e n, c.run qp ctx wr = some (.error e, ctx.take n, {}) := by
  obtain ⟨n, hn⟩ := run_of_reserves h
  obtain ⟨e, he⟩ := exists_registerEvent_error hreg ctx.msn (ctx.psn + n)
  rw [he] at hn
  exact ⟨e, n, hn⟩

theorem run_of_registers (h : c.Reserves qp ctx wr) (hreg : c.Registers qp wr) {r : RdmaResult}
    (hr : c.run qp ctx wr = some r) : r.1 = .ok () := by
  obtain ⟨n, hn⟩ := run_of_reserves h
  obtain ⟨ts, hts⟩ := exists_registerEvent_ok hreg ctx.msn (ctx.psn + n)
  rw [hts] at hn
  exact hn r hr

end RdmaCall

/-! ## The worker -/

namespace RdmaWriteWorker

abbrev CallResult := Except IoErrorKind Unit × RdmaWriteWorker × RdmaOutput

/-- `RdmaWriteWorker::write` and `RdmaWriteWorker::rdma_read`. The number of a queue pair beyond the
tables is an error. -/
def call (w : RdmaWriteWorker) (c : RdmaCall) (qpn : ℕ) (wr : SendWrRdma) : Option CallResult :=
  let i := indexOfQpn qpn
  if i < maxQpCnt then
    (c.run (w.qpAttrTable i) (w.sqCtxTable i) wr).map fun r =>
      (r.1, { w with sqCtxTable := Function.update w.sqCtxTable i r.2.1 }, r.2.2)
  else some (.error .invalidInput, w, {})

/-- **A call that returns an error has no effect**: the worker is unchanged and nothing was sent. -/
def ErrorNoEffect (w : RdmaWriteWorker) (c : RdmaCall) (qpn : ℕ) (wr : SendWrRdma) : Prop :=
  ∀ e w' out, w.call c qpn wr = some (.error e, w', out) → w' = w ∧ out = {}

/-- **An error has no effect exactly if the request can be registered when its numbers are
taken.** -/
theorem errorNoEffect_iff (w : RdmaWriteWorker) (c : RdmaCall) (qpn : ℕ) (wr : SendWrRdma) :
    w.ErrorNoEffect c qpn wr ↔
      (indexOfQpn qpn < maxQpCnt →
        c.Reserves (w.qpAttrTable (indexOfQpn qpn)) (w.sqCtxTable (indexOfQpn qpn)) wr →
          c.Registers (w.qpAttrTable (indexOfQpn qpn)) wr) := by
  unfold ErrorNoEffect
  by_cases hi : indexOfQpn qpn < maxQpCnt
  · have hcall : w.call c qpn wr = (c.run (w.qpAttrTable (indexOfQpn qpn))
      (w.sqCtxTable (indexOfQpn qpn)) wr).map
        fun r => (r.1, { w with sqCtxTable := Function.update w.sqCtxTable (indexOfQpn qpn) r.2.1 },
          r.2.2) :=
      if_pos hi
    rw [hcall]
    constructor
    · intro h _ hres
      by_contra hreg
      obtain ⟨e, n, hrun⟩ := RdmaCall.run_of_not_registers hres hreg
      rw [hrun] at h
      have hw := congrArg (fun w => (w.sqCtxTable (indexOfQpn qpn)).msn.inner) (h e _ _ rfl).1
      dsimp only at hw
      rw [Function.update_self] at hw
      -- the number of the message was taken
      change wrappingAdd16 _ 1 = _ at hw
      unfold wrappingAdd16 at hw
      omega
    · intro h e w' out hr
      obtain ⟨r, hrun, hr⟩ := map_eq_some_iff.1 hr
      obtain ⟨he, hr⟩ := Prod.mk.inj hr
      cases hr
      by_cases hres : c.Reserves (w.qpAttrTable (indexOfQpn qpn)) (w.sqCtxTable (indexOfQpn qpn)) wr
      · rw [RdmaCall.run_of_registers hres (h hi hres) hrun] at he
        cases he
      · obtain rfl := RdmaCall.run_of_not_reserves hres hrun
        rw [Function.update_eq_self]
        exact ⟨rfl, rfl⟩
  · have hcall : w.call c qpn wr = some (.error .invalidInput, w, {}) := if_neg hi
    rw [hcall]
    refine iff_of_true (fun e w' out hr => ?_) fun h => absurd h hi
    cases hr
    exact ⟨rfl, rfl⟩

/-- **The numbers of a refused write are lost.** A signaled write of one byte on a queue pair
without a completion queue returns an error, and the next request is numbered from 1. -/
theorem refused_write_takes_numbers :
    let w : RdmaWriteWorker := { qpAttrTable := fun _ => { connectedQp with sendCq := none } }
    (w.call .write 0x100 (sampleTask 1 (by decide))).map
        (fun r => (r.1, (r.2.1.sqCtxTable 1).psn, (r.2.1.sqCtxTable 1).msn, r.2.2)) =
      some (.error .invalidInput, 1, 1, {}) ∧
    ¬ w.ErrorNoEffect .write 0x100 (sampleTask 1 (by decide)) := by
  intro w
  have hcall : (w.call .write 0x100 (sampleTask 1 (by decide))).map
      (fun r => (r.1, (r.2.1.sqCtxTable 1).psn, (r.2.1.sqCtxTable 1).msn, r.2.2)) =
        some (.error .invalidInput, 1, 1, {}) := by
    decide +kernel
  refine ⟨hcall, fun h => ?_⟩
  obtain ⟨⟨r, w', out⟩, hr, heq⟩ := map_eq_some_iff.1 hcall
  simp only [Prod.mk.injEq] at heq
  obtain ⟨rfl, hpsn, -, -⟩ := heq
  rw [(h _ _ _ hr).1] at hpsn
  exact absurd hpsn (by decide)

end RdmaWriteWorker

end OpenRdma.Driver
