import OpenRdma.Driver.Fragmentation
import OpenRdma.Driver.Rdma

/-!
# What the write worker does with a work request

A request whose completion event can be registered is either refused, and then nothing changes, or
taken with the next sequence numbers (`SendQueueContext.post_cases`). `SendQueueContext.Accepts` is
the condition on the request and the context under which it is taken
(`SendQueueContext.post_of_accepts`).
-/

namespace OpenRdma.Driver

open Option

/-- The addresses of a request and of the chunks it is cut into do not overflow. -/
def AddressesFit (wr : SendWrRdma) : Prop :=
  wr.raddr + wr.length + wrChunkSize < 2 ^ 64 ∧ wr.laddr + wr.length < 2 ^ 64

instance (wr : SendWrRdma) : Decidable (AddressesFit wr) := inferInstanceAs (Decidable (_ ∧ _))

theorem AddressesFit.cutsFit {wr : SendWrRdma} {S k : ℕ} (h : AddressesFit wr) (hS₁ : 2 ^ k ∣ S)
    (hS₂ : 0 < S) (hS₃ : S ≤ wrChunkSize) : CutsFit wr S (2 ^ k) := by
  obtain ⟨hr, hl⟩ := h
  refine ⟨fun p hp => ?_, hl⟩
  have := start_pieces_le (Nat.two_pow_pos k) hS₁ hS₂ _ p hp
  omega

namespace SendQueueContext

variable {qp : QpAttr} {ctx : SendQueueContext} {wr : SendWrRdma} {r : RdmaResult}

/-- The window of the queue pair has room for `n` more packets and one more message. -/
def HasRoom (ctx : SendQueueContext) (n : ℕ) : Prop :=
  (ctx.psn - ctx.psnAcked + n).inner ≤ maxPsnWindow ∧ ctx.msn.distance ctx.msnAcked < maxSendWr

instance (ctx : SendQueueContext) (n : ℕ) : Decidable (ctx.HasRoom n) :=
  inferInstanceAs (Decidable (_ ∧ _))

/-- The context after `n` packets of one message. -/
def take (ctx : SendQueueContext) (n : ℕ) : SendQueueContext :=
  { ctx with msn := ctx.msn.wrappingAdd 1, psn := ctx.psn + n }

theorem nextWr_eq (ctx : SendQueueContext) (n : ℕ) :
    ctx.nextWr n = if ctx.HasRoom n then some ((ctx.msn, ctx.psn), ctx.take n) else none := by
  have h : ((ctx.psn - ctx.psnAcked + n).inner > maxPsnWindow ∨
      ctx.msn.distance ctx.msnAcked ≥ maxSendWr) ↔ ¬ ctx.HasRoom n := by
    unfold HasRoom
    omega
  unfold nextWr
  simp only [h, ite_not]
  rfl

/-- The kind of send event of a request. -/
def eventOp : WorkReqOpCode → Option SendEventOp
  | .rdmaRead => some .readSignaled
  | opcode => writeEventOp opcode

/-- The completion event of a request with the number `msn` that ends before `endPsn`. -/
def sendEvent (wr : SendWrRdma) (msn : Msn) (endPsn : Psn) : Option SendEvent :=
  if wr.signaled then (eventOp wr.opcode).map fun op => ⟨op, ⟨msn, endPsn⟩, wr.wrId⟩ else none

/-- A signaled request has a completion queue and a kind of completion. -/
def Registers (qp : QpAttr) (wr : SendWrRdma) : Prop :=
  wr.signaled → qp.sendCq.isSome ∧ (eventOp wr.opcode).isSome

instance (qp : QpAttr) (wr : SendWrRdma) : Decidable (Registers qp wr) :=
  inferInstanceAs (Decidable (_ → _))

theorem registerEvent_eq (h : Registers qp wr) (msn : Msn) (endPsn : Psn) :
    registerEvent qp wr (eventOp wr.opcode) msn endPsn =
      .ok ((sendEvent wr msn endPsn).map fun e => .register (.send e)).toList := by
  unfold registerEvent sendEvent
  split_ifs with hs hcq
  · obtain ⟨op, hop⟩ := isSome_iff_exists.1 (h hs).2
    rw [hop]
    rfl
  · exact absurd (h hs).1 hcq
  · rfl

theorem registerEvent_send {op : Option SendEventOp} {msn : Msn} {endPsn : Psn}
    {ts : List CompletionTask} (h : registerEvent qp wr op msn endPsn = .ok ts) :
    ∀ t ∈ ts, ∃ e, t = .register (.send e) := by
  unfold registerEvent at h
  split_ifs at h
  · cases op with
    | none => cases h
    | some op =>
      cases h
      intro t ht
      exact ⟨_, List.mem_singleton.1 ht⟩
  · cases h
    simp

theorem rdmaRead_completion (qp : QpAttr) (ctx : SendQueueContext) (wr : SendWrRdma) :
    ∀ t ∈ (ctx.rdmaRead qp wr).2.2.completion, ∃ e, t = .register (.send e) := by
  unfold rdmaRead
  cases ctx.nextWr 1 with
  | none => simp
  | some x =>
    rw [elim_some]
    dsimp only
    split
    · simp
    · rename_i hreg
      exact registerEvent_send hreg

theorem write_completion (hr : ctx.write qp wr = some r) :
    ∀ t ∈ r.2.2.completion, ∃ e, t = .register (.send e) := by
  unfold write at hr
  by_cases hzero : wr.length = 0 ∧ wr.opcode = .rdmaWrite
  · rw [if_pos hzero] at hr
    cases hr
  rw [if_neg hzero] at hr
  cases hn : numPsn qp.pmtu wr.raddr wr.length with
  | none =>
    rw [hn] at hr
    cases hr
    simp
  | some n =>
    rw [hn, elim_some] at hr
    cases hw : ctx.nextWr n with
    | none =>
      rw [hw] at hr
      cases hr
      simp
    | some x =>
      rw [hw, elim_some] at hr
      dsimp only at hr
      split at hr
      · cases hr
        simp
      · rename_i hreg
        obtain ⟨chunks, -, rfl⟩ := map_eq_some_iff.1 hr
        exact registerEvent_send hreg

theorem process_completion {task : RdmaWriteTask} {r : SendQueueContext × RdmaOutput}
    (hr : ctx.process qp task = some r) : ∀ t ∈ r.2.completion, ∃ e, t = .register (.send e) := by
  cases task with
  | ack | newComplete =>
    cases hr
    simp
  | write wr =>
    obtain ⟨r, hpost, rfl⟩ := map_eq_some_iff.1 hr
    unfold post at hpost
    split at hpost
    case h_6 =>
      cases hpost
      exact rdmaRead_completion qp ctx wr
    case h_7 => cases hpost
    all_goals exact write_completion hpost

/-- The chunks a request is first sent as. -/
def firstChunks (qp : QpAttr) (wr : SendWrRdma) (msn : Msn) (psn : Psn) : Option (List WrChunk) :=
  if wr.opcode = .rdmaRead then some [readChunk wr (qp.params msn) psn]
  else wrChunkFragmenter wr (qp.params msn) psn

/-- The request is taken with the next `n` sequence numbers, and this is what the worker sends. -/
structure Takes (qp : QpAttr) (ctx : SendQueueContext) (wr : SendWrRdma) (n : ℕ)
    (r : RdmaResult) : Prop where
  ok : r.1 = .ok ()
  reserved : reservedPsns wr qp.pmtu = some n
  room : ctx.HasRoom n
  completion : r.2.2.completion =
    ((sendEvent wr ctx.msn (ctx.psn + n)).map fun e => .register (.send e)).toList
  retransmit : r.2.2.retransmit = [.newWr ⟨ctx.psn, wr, qp.params ctx.msn⟩]
  chunks : firstChunks qp wr ctx.msn ctx.psn = some r.2.2.chunks
  after : r.2.1 = ctx.take n

/-- The request is refused: nothing changes and nothing is sent. -/
def Refuses (ctx : SendQueueContext) (r : RdmaResult) : Prop := ∃ e, r = (.error e, ctx, {})

theorem rdmaRead_cases (h : Registers qp wr) (hop : wr.opcode = .rdmaRead) :
    ¬ ctx.HasRoom 1 ∧ ctx.Refuses (ctx.rdmaRead qp wr) ∨
    ctx.Takes qp wr 1 (ctx.rdmaRead qp wr) := by
  have hev : some .readSignaled = eventOp wr.opcode := by
    rw [hop]
    rfl
  unfold rdmaRead
  rw [nextWr_eq]
  by_cases hroom : ctx.HasRoom 1
  · rw [if_pos hroom, elim_some]
    dsimp only
    rw [hev, registerEvent_eq h]
    exact Or.inr ⟨rfl, if_pos hop, hroom, rfl, rfl, if_pos hop, rfl⟩
  · rw [if_neg hroom, elim_none]
    exact Or.inl ⟨hroom, _, rfl⟩

theorem writeEventOp_eq (hop : wr.opcode ≠ .rdmaRead) :
    writeEventOp wr.opcode = eventOp wr.opcode := by
  unfold eventOp
  split
  · exact absurd ‹_› hop
  · rfl

/-- What the worker sends for a request that is taken with the next `n` sequence numbers. -/
def takeOutput (qp : QpAttr) (ctx : SendQueueContext) (wr : SendWrRdma) (n : ℕ)
    (chunks : List WrChunk) : RdmaOutput where
  completion := ((sendEvent wr ctx.msn (ctx.psn + n)).map fun e => .register (.send e)).toList
  timeout := if wr.signaled then [.newAckReq] else []
  retransmit := [.newWr ⟨ctx.psn, wr, qp.params ctx.msn⟩]
  chunks := chunks

/-- **What `write` does** where the completion can be registered and the sequence numbers be
counted. -/
theorem write_eq (hzero : ¬ (wr.length = 0 ∧ wr.opcode = .rdmaWrite)) (h : Registers qp wr)
    (hop : wr.opcode ≠ .rdmaRead) {n : ℕ} (hn : numPsn qp.pmtu wr.raddr wr.length = some n) :
    ctx.write qp wr = if ctx.HasRoom n then
      (wrChunkFragmenter wr (qp.params ctx.msn) ctx.psn).map fun chunks =>
        (.ok (), ctx.take n, takeOutput qp ctx wr n chunks) else some (.error .invalidInput,
          ctx, {}) := by
  unfold write
  rw [if_neg hzero, hn, elim_some, nextWr_eq]
  by_cases hroom : ctx.HasRoom n
  · rw [if_pos hroom, if_pos hroom, elim_some]
    dsimp only
    rw [writeEventOp_eq hop, registerEvent_eq h]
    rfl
  · rw [if_neg hroom, if_neg hroom, elim_none]

theorem write_cases (h : Registers qp wr) (hop : wr.opcode ≠ .rdmaRead)
    (hr : ctx.write qp wr = some r) : ctx.Refuses r ∨ ∃ n, ctx.Takes qp wr n r := by
  have hres : reservedPsns wr qp.pmtu = numPsn qp.pmtu wr.raddr wr.length := if_neg hop
  by_cases hzero : wr.length = 0 ∧ wr.opcode = .rdmaWrite
  · rw [write, if_pos hzero] at hr
    cases hr
  cases hn : numPsn qp.pmtu wr.raddr wr.length with
  | none =>
    rw [write, if_neg hzero, hn, elim_none] at hr
    exact Or.inl ⟨_, (some.inj hr).symm⟩
  | some n =>
    rw [write_eq hzero h hop hn] at hr
    by_cases hroom : ctx.HasRoom n
    · rw [if_pos hroom] at hr
      obtain ⟨chunks, hchunks, rfl⟩ := map_eq_some_iff.1 hr
      exact Or.inr ⟨n, rfl, hres.trans hn, hroom, rfl, rfl, (if_neg hop).trans hchunks, rfl⟩
    · rw [if_neg hroom] at hr
      exact Or.inl ⟨_, (some.inj hr).symm⟩

/-- **A request is refused or taken**, where its completion can be registered. -/
theorem post_cases (h : Registers qp wr) (hr : ctx.post qp wr = some r) :
    ctx.Refuses r ∨ ∃ n, ctx.Takes qp wr n r := by
  unfold post at hr
  split at hr
  case h_6 hop =>
    cases hr
    rcases rdmaRead_cases h hop with hc | hc
    · exact Or.inl hc.2
    · exact Or.inr ⟨1, hc⟩
  case h_7 => cases hr
  all_goals exact write_cases h (by simp [*]) hr

/-! ## When a request is taken -/

theorem reservedPsns_pos {n pmtu : ℕ} (h : reservedPsns wr pmtu = some n) : 0 < n := by
  unfold reservedPsns at h
  split_ifs at h
  · exact some.inj h ▸ one_pos
  · obtain ⟨P, -, h⟩ := bind_eq_some_iff.1 h
    dsimp only at h
    split_ifs at h
    exact some.inj h ▸ lt_of_lt_of_le one_pos (le_max_right _ _)

/-- The condition on a request and the context under which the request is taken: it is of a kind the
worker knows, its completion can be registered, it can be cut into chunks, and the window has room
for it. -/
@[mk_iff]
structure Accepts (qp : QpAttr) (ctx : SendQueueContext) (wr : SendWrRdma) : Prop where
  opcode : wr.opcode ∈ [.rdmaWrite, .rdmaWriteWithImm, .send, .sendWithImm,
    .rdmaReadResp, .rdmaRead]
  registers : Registers qp wr
  pmtu : (convertIbvMtuToU16 qp.pmtu).isSome
  length : wr.opcode = .rdmaWrite → 0 < wr.length
  addresses : AddressesFit wr
  psnWindow : ∀ n ∈ reservedPsns wr qp.pmtu, (ctx.psn - ctx.psnAcked).inner + n ≤ maxPsnWindow
  msnWindow : ctx.msn.distance ctx.msnAcked < maxSendWr

instance (qp : QpAttr) (ctx : SendQueueContext) (wr : SendWrRdma) : Decidable (Accepts qp ctx wr) :=
  decidable_of_iff' _ (accepts_iff qp ctx wr)

namespace Accepts

variable (h : Accepts qp ctx wr)
include h

theorem exists_reserved : ∃ n, reservedPsns wr qp.pmtu = some n := by
  obtain ⟨P, hP⟩ := isSome_iff_exists.1 h.pmtu
  have hfit := h.addresses.1
  have hqp : convertIbvMtuToU16 (qp.params ctx.msn).pmtu = some P := hP
  exact ⟨_, reservedPsns_eq hqp (by omega)⟩

theorem hasRoom {n : ℕ} (hn : reservedPsns wr qp.pmtu = some n) : ctx.HasRoom n := by
  have hw := h.psnWindow n hn
  refine ⟨?_, h.msnWindow⟩
  rw [Psn.add_inner]
  exact (Nat.mod_le _ _).trans hw

theorem exists_chunks (msn : Msn) (psn : Psn) :
    ∃ c cs, wrChunkFragmenter wr (qp.params msn) psn = some (c :: cs) := by
  obtain ⟨P, hP⟩ := isSome_iff_exists.1 h.pmtu
  obtain ⟨k, hk₁, hk₂, rfl⟩ := convertIbvMtuToU16_eq hP
  have hfit := h.addresses.1
  have hdvd := two_pow_dvd_wrChunkSize hk₂
  have hqp : convertIbvMtuToU16 (qp.params msn).pmtu = some (2 ^ k) := hP
  rw [wrChunkFragmenter_eq hqp hk₂ (by omega), if_pos (h.addresses.cutsFit hdvd (by decide) le_rfl)]
  have hlen : 0 < ((startIter wr (qp.params msn) psn wrChunkSize (2 ^ k) false).chunksOf
      (wrPieces wr wrChunkSize (2 ^ k))).length := by
    rw [IntoIterChunk.length_chunksOf]
    exact length_wrPieces_pos hdvd (by decide)
  obtain ⟨c, cs, hcs⟩ := List.exists_cons_of_length_pos hlen
  exact ⟨c, cs, congrArg some hcs⟩

theorem exists_firstChunks (msn : Msn) (psn : Psn) :
    ∃ c cs, firstChunks qp wr msn psn = some (c :: cs) := by
  unfold firstChunks
  split_ifs
  · exact ⟨_, _, rfl⟩
  · exact h.exists_chunks msn psn

end Accepts

theorem write_of_accepts (h : Accepts qp ctx wr) (hop : wr.opcode ≠ .rdmaRead) :
    ∃ r, ctx.write qp wr = some r ∧ r.1 = .ok () := by
  obtain ⟨n, hn⟩ := h.exists_reserved
  have hn' : numPsn qp.pmtu wr.raddr wr.length = some n := (if_neg hop).symm.trans hn
  obtain ⟨c, cs, hcs⟩ := h.exists_chunks ctx.msn ctx.psn
  have hzero : ¬ (wr.length = 0 ∧ wr.opcode = .rdmaWrite) := fun h₀ => (h.length h₀.2).ne' h₀.1
  rw [write_eq hzero h.registers hop hn', if_pos (h.hasRoom hn), hcs]
  exact ⟨_, rfl, rfl⟩

/-- **A request is taken** under the condition. -/
theorem post_of_accepts (h : Accepts qp ctx wr) : ∃ n r, ctx.post qp wr = some r ∧
    ctx.Takes qp wr n r := by
  have hpost : ∃ r, ctx.post qp wr = some r ∧ r.1 = .ok () := by
    by_cases hop : wr.opcode = .rdmaRead
    · refine ⟨ctx.rdmaRead qp wr, by rw [post, hop], ?_⟩
      rcases rdmaRead_cases h.registers hop with hc | hc
      · exact absurd (h.hasRoom (if_pos hop)) hc.1
      · exact hc.ok
    · have hwrite : ctx.post qp wr = ctx.write qp wr := by
        have := h.opcode
        unfold post
        split <;> simp_all
      rw [hwrite]
      exact write_of_accepts h hop
  obtain ⟨r, hr, hok⟩ := hpost
  rcases post_cases h.registers hr with ⟨e, rfl⟩ | ⟨n, hn⟩
  · cases hok
  · exact ⟨n, r, hr, hn⟩

end SendQueueContext

end OpenRdma.Driver
