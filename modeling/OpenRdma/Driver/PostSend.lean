import OpenRdma.Driver.Matching
import OpenRdma.Driver.Posting

/-!
# What becomes of a request that is accepted

A request that `SendWr::new` accepts is sent to the write worker as the task of `SendWr.IsTask`. The
worker panics on some of these tasks and drops others without a chunk. `Processable` says which it
processes; the cases are those of `SendQueueContext.write_eq`.
-/

namespace OpenRdma.Driver

open List Option

/-- The operation codes of the requests that are accepted. -/
def acceptedOpCodes : List WorkReqOpCode := [.rdmaWrite, .rdmaWriteWithImm, .rdmaRead, .send,
    .sendWithImm]

theorem SendWr.opcode_of_new {ibv : IbvSendWr} {send : SendWr} {task : SendWrRdma}
    (h : SendWr.new ibv = .ok send) (ht : send.IsTask task) : task.opcode ∈ acceptedOpCodes := by
  unfold SendWr.new at h
  split_ifs at h
  cases hop : ibv.opcode with
  | other code =>
    rw [hop] at h
    cases h
  | rdmaWrite | rdmaWriteWithImm | rdmaRead =>
    rw [hop] at h
    cases h
    rw [show task = _ from ht]
    simp [acceptedOpCodes, SendWrRdma.opcode, SendWr.baseOf]
  | send | sendWithImm =>
    rw [hop] at h
    cases h
    obtain ⟨recv, hsent⟩ := ht
    simp [acceptedOpCodes, SendWrRdma.opcode, hsent.base, SendWr.baseOf]

namespace SendQueueContext

variable {qp : QpAttr} {ctx : SendQueueContext} {wr : SendWrRdma}

/-- The windows of the queue pair have room for a request. -/
def RoomFor (qp : QpAttr) (ctx : SendQueueContext) (wr : SendWrRdma) : Prop :=
  ctx.msn.distance ctx.msnAcked < maxSendWr ∧
    ∀ n ∈ reservedPsns wr qp.pmtu, (ctx.psn - ctx.psnAcked + n).inner ≤ maxPsnWindow

instance (qp : QpAttr) (ctx : SendQueueContext) (wr : SendWrRdma) : Decidable (RoomFor qp ctx wr) :=
  inferInstanceAs (Decidable (_ ∧ ∀ n ∈ reservedPsns wr qp.pmtu, _))

theorem roomFor_iff {n : ℕ} (hn : reservedPsns wr qp.pmtu = some n) :
    RoomFor qp ctx wr ↔ ctx.HasRoom n := by
  unfold RoomFor HasRoom
  rw [hn]
  simp [and_comm]

/-- **The worker processes a request**: it does not panic, and if the windows have room it sends a
chunk with the operation code of the request. -/
def Processes (qp : QpAttr) (ctx : SendQueueContext) (wr : SendWrRdma) : Prop :=
  (ctx.process qp (.write wr)).isSome ∧
    (RoomFor qp ctx wr →
      ∃ r, ctx.process qp (.write wr) = some r ∧ ∃ c ∈ r.2.chunks, c.opcode = wr.opcode)

/-- The addresses of the chunks of a request do not overflow, with the path MTU `P`. -/
def ChunksFit (wr : SendWrRdma) (P : ℕ) : Prop :=
  wr.raddr + wr.length < 2 ^ 64 ∧ lastChunkStart wr P + wrChunkSize < 2 ^ 64 ∧
    wr.laddr + wr.length < 2 ^ 64

instance (wr : SendWrRdma) (P : ℕ) : Decidable (ChunksFit wr P) :=
  inferInstanceAs (Decidable (_ ∧ _ ∧ _))

/-- The requests that are processed: no plain write is empty, and where the windows have room a
signaled request has a completion queue, and the request can be cut into chunks unless it is a
read. -/
def Processable (qp : QpAttr) (ctx : SendQueueContext) (wr : SendWrRdma) : Prop :=
  (wr.opcode = .rdmaWrite → 0 < wr.length) ∧
    (RoomFor qp ctx wr → (wr.signaled = true → qp.sendCq.isSome) ∧
      (wr.opcode ≠ .rdmaRead → ∃ P ∈ convertIbvMtuToU16 qp.pmtu, ChunksFit wr P))

theorem registers_iff (hop : wr.opcode ∈ acceptedOpCodes) :
    Registers qp wr ↔ (wr.signaled = true → qp.sendCq.isSome) := by
  have hevent : (eventOp wr.opcode).isSome := by
    simp only [acceptedOpCodes, mem_cons, not_mem_nil, or_false] at hop
    rcases hop with hop | hop | hop | hop | hop <;> rw [hop] <;> rfl
  unfold Registers
  simp [hevent]

theorem registerEvent_of_not (hop : wr.opcode ∈ acceptedOpCodes) (h : ¬ Registers qp wr)
    (op : Option SendEventOp) (msn : Msn) (psn : Psn) :
    registerEvent qp wr op msn psn = .error .invalidInput := by
  rw [registers_iff hop] at h
  obtain ⟨hs, hcq⟩ := Classical.not_imp.1 h
  unfold registerEvent
  rw [if_pos hs, if_neg hcq]

theorem processes_read_iff (hop : wr.opcode = .rdmaRead) :
    Processes qp ctx wr ↔ (RoomFor qp ctx wr → Registers qp wr) := by
  have hres : reservedPsns wr qp.pmtu = some 1 := if_pos hop
  have hprocess : ctx.process qp (.write wr) = some (ctx.rdmaRead qp wr).2 := by
    rw [process, post, hop]
    rfl
  rw [Processes, hprocess, roomFor_iff hres]
  refine ⟨fun h hroom => ?_, fun h => ⟨rfl, fun hroom => ⟨_, rfl, ?_⟩⟩⟩
  · obtain ⟨r, hr, c, hc, -⟩ := h.2 hroom
    cases hr
    by_contra hreg
    rw [rdmaRead, nextWr_eq, if_pos hroom, elim_some] at hc
    dsimp only at hc
    rw [registerEvent_of_not (by simp [hop, acceptedOpCodes]) hreg] at hc
    cases hc
  · rcases rdmaRead_cases (h hroom) hop with hc | hc
    · exact absurd hroom hc.1
    · have hchunks := hc.chunks
      rw [firstChunks, if_pos hop] at hchunks
      rw [← some.inj hchunks, hop]
      exact ⟨_, mem_singleton_self _, rfl⟩

theorem process_write (hop : wr.opcode ∈ acceptedOpCodes) (hread : wr.opcode ≠ .rdmaRead) :
    ctx.process qp (.write wr) = (ctx.write qp wr).map Prod.snd := by
  simp only [acceptedOpCodes, mem_cons, not_mem_nil, or_false] at hop
  rw [process, post]
  rcases hop with hop | hop | hop | hop | hop
  · rw [hop]
  · rw [hop]
  · exact absurd hop hread
  · rw [hop]
  · rw [hop]

theorem exists_chunk_iff {P : ℕ} (hpmtu : convertIbvMtuToU16 qp.pmtu = some P) (msn : Msn)
    (psn : Psn) : (∃ chunks, wrChunkFragmenter wr (qp.params msn) psn = some chunks ∧
      ∃ c ∈ chunks, c.opcode = wr.opcode) ↔ ChunksFit wr P := by
  obtain ⟨k, -, hk, rfl⟩ := convertIbvMtuToU16_eq hpmtu
  have hpmtu' : convertIbvMtuToU16 (qp.params msn).pmtu = some (2 ^ k) := hpmtu
  unfold ChunksFit
  by_cases hfit : wr.raddr + wr.length < 2 ^ 64
  · rw [wrChunkFragmenter_eq hpmtu' hk hfit, ← cutsFit_chunks_iff hk]
    by_cases hcuts : CutsFit wr wrChunkSize (2 ^ k)
    · rw [if_pos hcuts]
      refine iff_of_true ⟨_, rfl, ?_⟩ ⟨hfit, hcuts⟩
      have hlen : 0 < ((startIter wr (qp.params msn) psn wrChunkSize (2 ^ k) false).chunksOf
          (wrPieces wr wrChunkSize (2 ^ k))).length := by
        rw [IntoIterChunk.length_chunksOf]
        exact length_wrPieces_pos (two_pow_dvd_wrChunkSize hk) (by decide)
      obtain ⟨c, hc⟩ := exists_mem_of_length_pos hlen
      exact ⟨c, hc, IntoIterChunk.opcode_chunksOf _ c hc⟩
    · rw [if_neg hcuts]
      exact iff_of_false (by simp) fun h => hcuts h.2
  · rw [wrChunkFragmenter_of_overflow (not_lt.1 hfit)]
    exact iff_of_false (by simp) fun h => hfit h.1

theorem processes_write_iff (hop : wr.opcode ∈ acceptedOpCodes) (hread : wr.opcode ≠ .rdmaRead) :
    Processes qp ctx wr ↔ (wr.opcode = .rdmaWrite → 0 < wr.length) ∧
      (RoomFor qp ctx wr →
        Registers qp wr ∧ ∃ P ∈ convertIbvMtuToU16 qp.pmtu, ChunksFit wr P) := by
  have hres : reservedPsns wr qp.pmtu = numPsn qp.pmtu wr.raddr wr.length := if_neg hread
  rw [Processes, process_write hop hread]
  by_cases hzero : wr.length = 0 ∧ wr.opcode = .rdmaWrite
  · rw [write, if_pos hzero]
    exact iff_of_false (fun h => by cases h.1) fun h => (h.1 hzero.2).ne' hzero.1
  have hlen : wr.opcode = .rdmaWrite → 0 < wr.length := fun h =>
    Nat.pos_of_ne_zero fun h₀ => hzero ⟨h₀, h⟩
  cases hn : numPsn qp.pmtu wr.raddr wr.length with
  | none =>
    -- the sequence numbers cannot be counted, so the request is dropped
    rw [write, if_neg hzero, hn, elim_none, map_some]
    refine ⟨fun h => ⟨hlen, fun hroom => ?_⟩, fun h => ⟨rfl, fun hroom => ?_⟩⟩
    · obtain ⟨r, hr, c, hc, -⟩ := h.2 hroom
      cases hr
      cases hc
    · obtain ⟨-, P, hP, hfit⟩ := h.2 hroom
      rw [numPsn_eq hP hfit.1 wr.length_lt] at hn
      cases hn
  | some n =>
    rw [roomFor_iff (hres.trans hn)]
    by_cases hroom : ctx.HasRoom n
    · by_cases hreg : Registers qp wr
      · obtain ⟨P, hP, -⟩ := bind_eq_some_iff.1 hn
        rw [write_eq hzero hreg hread hn, if_pos hroom]
        constructor
        · intro h
          obtain ⟨r, hr, c, hc, hcop⟩ := h.2 hroom
          obtain ⟨x, hx, rfl⟩ := map_eq_some_iff.1 hr
          obtain ⟨chunks, hchunks, rfl⟩ := map_eq_some_iff.1 hx
          exact ⟨hlen, fun _ => ⟨hreg, P, hP, (exists_chunk_iff hP _ _).1 ⟨chunks, hchunks, c,
            hc, hcop⟩⟩⟩
        · intro h
          obtain ⟨-, P', hP', hfit⟩ := h.2 hroom
          obtain ⟨chunks, hchunks, c, hc, hcop⟩ := (exists_chunk_iff hP' ctx.msn ctx.psn).2 hfit
          rw [hchunks]
          exact ⟨rfl, fun _ => ⟨_, rfl, c, hc, hcop⟩⟩
      · rw [write, if_neg hzero, hn, elim_some, nextWr_eq, if_pos hroom, elim_some]
        dsimp only
        rw [registerEvent_of_not hop hreg]
        refine iff_of_false (fun h => ?_) fun h => hreg (h.2 hroom).1
        obtain ⟨r, hr, c, hc, -⟩ := h.2 hroom
        cases hr
        cases hc
    · rw [write, if_neg hzero, hn, elim_some, nextWr_eq, if_neg hroom, elim_none]
      exact iff_of_true ⟨rfl, fun h => absurd h hroom⟩ ⟨hlen, fun h => absurd h hroom⟩

/-- **Which of the requests accepted are processed.** -/
theorem processes_iff {ibv : IbvSendWr} {send : SendWr} (hnew : SendWr.new ibv = .ok send)
    (htask : send.IsTask wr) (qp : QpAttr) (ctx : SendQueueContext) :
    Processes qp ctx wr ↔ Processable qp ctx wr := by
  have hop := SendWr.opcode_of_new hnew htask
  unfold Processable
  by_cases hread : wr.opcode = .rdmaRead
  · rw [processes_read_iff hread, registers_iff hop]
    simp [hread]
  · rw [processes_write_iff hop hread, registers_iff hop]
    simp [hread]

end SendQueueContext

/-- A request with one buffer. -/
def sampleSendWr (opcode : IbvWrOpcode) (length : ℕ) (h : length < 2 ^ 32) : IbvSendWr where
  wrId := 7
  numSge := 1
  sgeAddr := 0x1000
  sgeLength := length
  sgeLkey := 0x100
  opcode := opcode
  sendFlags := 2
  immData := 0
  remoteAddr := 0x2000
  rkey := 0x200
  sgeAddr_lt := sampleAddr_lt
  sgeLength_lt := h
  remoteAddr_lt := sampleRaddr_lt

/-- The write of a request with one buffer. -/
def sampleTask (length : ℕ) (h : length < 2 ^ 32) : SendWrRdma :=
  ⟨SendWr.baseOf (sampleSendWr .rdmaWrite length h) .rdmaWrite, 0x2000, 0x200, sampleRaddr_lt⟩

def connectedQp : QpAttr :=
  { qpType := 2, qpn := 0x100, macAddr := 0, dqpn := 0x200, dqpIp := 0xc0a80102, pmtu := 5
    sendCq := some 1, recvCq := some 1 }

/-- A write of one byte is processed. -/
theorem processes_small_write :
    SendQueueContext.Processes connectedQp {} (sampleTask 1 (by decide)) := by
  have hnew : SendWr.new (sampleSendWr .rdmaWrite 1 (by decide)) =
      .ok (.rdma (sampleTask 1 (by decide))) := rfl
  refine (SendQueueContext.processes_iff hnew rfl _ _).2 ⟨fun _ => by decide, fun _ => ?_⟩
  exact ⟨fun _ => rfl, fun _ => ⟨4096, rfl, by decide⟩⟩

/-- **The worker panics** at an empty write, which is accepted. -/
theorem empty_write_panics :
    SendWr.new (sampleSendWr .rdmaWrite 0 (by decide)) = .ok (.rdma (sampleTask 0 (by decide))) ∧
      SendQueueContext.process connectedQp {} (.write (sampleTask 0 (by decide))) = none ∧
      ¬ SendQueueContext.Processes connectedQp {} (sampleTask 0 (by decide)) := by
  have hpanic : SendQueueContext.process connectedQp {} (.write (sampleTask 0 (by decide))) =
    none := by
    decide +kernel
  refine ⟨rfl, hpanic, fun h => ?_⟩
  have := h.1
  cases this

end OpenRdma.Driver
