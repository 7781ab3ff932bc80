import OpenRdma.Driver.Posting
import OpenRdma.Link.MetaRing
import OpenRdma.Link.SendDescs
import OpenRdma.Rtl.RqChecks

/-!
# Read requests

A read request passes the receive queue, the driver turns it into a work request that sends the
memory at the address and key the peer named, and the packet generator requests that memory. The
receive queue queries a memory region only for packets that write to memory, so the request passes
with the context of its queue pair alone. The driver checks nothing, and the generator takes the
entry of the key as it is. So a request that is answered reads whatever the peer named, and the
tables allow it only by chance (`readsAllowed_iff`).
-/

namespace OpenRdma.Link

open OpenRdma.Driver OpenRdma.Rtl List Option SendQueueContext CheckQpcAndMrTablePipelineEntry

/-- The tables allow the read: the queue pair and the memory region of the key grant it, and the
range is in the region. -/
def ReadAllowed (t : Tables) (m : RdmaRecvPacketMeta) : Prop :=
  (∃ qpc ∈ t.qpc (getIndexQP m.bth.dqpn), containAccessTypeFlag qpc.rqAccessFlags .remoteRead =
    true) ∧
  ∃ mr ∈ t.mr (rkey2IndexMR m.reth.rkey),
    mr.keyPart = rkey2KeyPartMR m.reth.rkey ∧
    containAccessTypeFlag mr.accFlags .remoteRead = true ∧
    mr.baseVA.toNat ≤ m.reth.va.toNat ∧
    m.reth.va.toNat + m.reth.dlen.toNat ≤ mr.baseVA.toNat + mr.len.toNat

instance (t : Tables) (m : RdmaRecvPacketMeta) : Decidable (ReadAllowed t m) :=
  inferInstanceAs (Decidable ((∃ qpc ∈ t.qpc _, _) ∧ ∃ mr ∈ t.mr _, _))

/-- What the receive queue reports about a packet. -/
def rqReport (card : Card) (peer : ThinMacIpUdpMetaDataForRecv) (tail : Option (BitVec 8))
    (ecnMarked : Bool) (m : RdmaRecvPacketMeta) : Option (List RingbufRawDescriptor) :=
  if (checkedOf card (parseEntry m peer) tail).isDiscard then none else m.genDescVector ecnMarked

/-- The side of the driver: its handler of reports, and the queue pair with its send context. -/
structure ReadSide where
  handler : MetaHandler
  qp : QpAttr
  ctx : SendQueueContext

/-- The requests for payload a task of the write worker leads to, also where the worker panics after
it has sent some of the chunks. -/
def ReadSide.genReqs (side : ReadSide) (t : Tables) (u : MemRegionTableEntry)
    (task : RdmaWriteTask) : List PayloadGenReq :=
  (side.ctx.chunksSent side.qp task).filterMap fun c => c.wqe.genReq t u

/-- The requests for payload that answer a packet: the receive queue reports it, the driver handles
the report and the tasks that follow, and the packet generator reads the chunks. -/
def payloadGenReqs (card : Card) (peer : ThinMacIpUdpMetaDataForRecv) (tail : Option (BitVec 8))
    (ecnMarked : Bool) (side : ReadSide) (m : RdmaRecvPacketMeta) : List PayloadGenReq :=
  (((rqReport card peer tail ecnMarked m).bind tryRecvMeta).bind fun x =>
    side.handler.handleMeta x.1.2).elim [] fun r =>
      r.2.rdmaWrite.flatMap (side.genReqs card.tables card.dontCare.mrEntry)

/-- **A packet is answered only if the tables allow the read.** -/
def ReadsAllowed (card : Card) (peer : ThinMacIpUdpMetaDataForRecv) (tail : Option (BitVec 8))
    (ecnMarked : Bool) (side : ReadSide) (m : RdmaRecvPacketMeta) : Prop :=
  payloadGenReqs card peer tail ecnMarked side m ≠ [] → ReadAllowed card.tables m

def answerWr (m : RdmaRecvPacketMeta) : SendWrRdma :=
  MetaHandler.readRespWr (headerReadMeta (m.basicInfoDesc false) m.readReqExtendInfoDesc)

/-- The request is answered: its queue pair has a context, it reads something, the queue pair of the
driver has a path MTU and room for the answer, and no address overflows up to the end of the first
chunk. -/
structure ReadAnswered (card : Card) (side : ReadSide) (m : RdmaRecvPacketMeta) : Prop where
  trans : m.bth.trans = .rc
  index : (getQpnRawIndexPart m.bth.dqpn).toNat < maxQp
  context : (card.tables.queryQpc m.bth.dqpn).isSome
  length : m.reth.dlen ≠ 0
  sent : ∃ P, convertIbvMtuToU16 side.qp.pmtu = some P ∧
    (answerWr m).raddr + (answerWr m).length < 2 ^ 64 ∧
    (answerWr m).raddr + wrChunkSize < 2 ^ 64 ∧
    (answerWr m).laddr + firstChunkLen (answerWr m) P < 2 ^ 64 ∧
    side.ctx.HasRoom (psnCount P (answerWr m).raddr (answerWr m).length)

section

variable {card : Card} {peer : ThinMacIpUdpMetaDataForRecv} {tail : Option (BitVec 8)}
  {ecnMarked : Bool} {side : ReadSide} {m : RdmaRecvPacketMeta}

theorem isDiscard_read (hop : m.bth.opcode = .rdmaReadRequest) :
    (checkedOf card (parseEntry m peer) tail).isDiscard = false ↔
      (getQpnRawIndexPart m.bth.dqpn).toNat < maxQp ∧ (card.tables.queryQpc m.bth.dqpn).isSome := by
  have hneed : m.isNeedQueryMrTable = false := by
    rw [RdmaRecvPacketMeta.isNeedQueryMrTable, hop]
    rfl
  have hstatus : (parseEntry m peer).packetStatus =
      if (getQpnRawIndexPart m.bth.dqpn).toNat < maxQp then .normal else .qpIdxOverflow := by
    simp only [parseEntry, hneed, Bool.false_eq_true, false_and, if_false, ← not_lt, ite_not]
  have hkey : (parseEntry m peer).isQpKeyCheckPass (card.tables.queryQpc m.bth.dqpn) =
      (card.tables.queryQpc m.bth.dqpn).isSome := by
    cases hqpc : card.tables.queryQpc m.bth.dqpn with
    | none => rfl
    | some qpc =>
      have hmatch := (filter_eq_some_iff.1 hqpc).2
      rw [beq_iff_eq] at hmatch
      exact beq_iff_eq.2 hmatch.symm
  have hchecked : (checkedOf card (parseEntry m peer) tail).packetStatus =
      if (parseEntry m peer).packetStatus.isRecvPacketStatusNormal then
        if (card.tables.queryQpc m.bth.dqpn).isSome then (parseEntry m peer).packetStatus
        else .invalidQpContext
      else (parseEntry m peer).packetStatus := by
    have hneed' : (parseEntry m peer).isNeedQueryMrTable = false := hneed
    have hqpcOf : qpcOf card (parseEntry m peer) = card.tables.queryQpc m.bth.dqpn := rfl
    simp only [checkedOf, checkMrTableStep3Entry, checkMrTableStep2Entry, checkOf,
      checkEntry, hneed', hqpcOf, hkey, isQpAccCheckPass, isMrKeyCheckPass, isMrAccCheckPass]
    cases card.tables.queryQpc m.bth.dqpn <;> simp
  rw [CheckedPipelineEntry.isDiscard, hchecked, hstatus]
  by_cases hindex : (getQpnRawIndexPart m.bth.dqpn).toNat < maxQp
  · cases card.tables.queryQpc m.bth.dqpn <;>
      simp [hindex, RdmaRecvPacketStatus.isRecvPacketStatusNormal_iff]
  · simp [hindex, RdmaRecvPacketStatus.isRecvPacketStatusNormal_iff]

theorem tryRecvMeta_read (hop : m.bth.opcode = .rdmaReadRequest) (htrans : m.bth.trans = .rc) :
    (m.genDescVector ecnMarked).bind tryRecvMeta = some ((m.bth.dqpn,
      .headerRead (headerReadMeta (m.basicInfoDesc false) m.readReqExtendInfoDesc)), []) := by
  have hdescs : m.genDescVector ecnMarked = some [.packetBasicInfo
      { m.basicInfoDesc ecnMarked with
        commonHeader := { m.commonHeader with hasNextFrag := true } },
      .readReqExtendInfo m.readReqExtendInfoDesc] := by
    rw [RdmaRecvPacketMeta.genDescVector, htrans, hop]
  have hpacket : isPacket m.commonHeader.opcode = true := by
    change isPacket m.bth.opcode = true
    rw [hop]
    rfl
  have hpacket' : isPacket m.readReqExtendInfoDesc.commonHeader.opcode = true := hpacket
  rw [hdescs, bind_some, tryRecvMeta]
  simp only [tryPop, fromBytes, hpacket, hpacket']
  rfl

theorem genReq_readResp {c : WrChunk} (hop : c.opcode = .rdmaReadResp) (t : Tables)
    (u : MemRegionTableEntry) : c.wqe.genReq t u = none ↔ c.len % 2 ^ 32 = 0 := by
  have hneed : workReqNeedPayloadGen c.wqe.opcode = true := by
    change workReqNeedPayloadGen c.opcode = true
    rw [hop]
    rfl
  have hlen : c.wqe.len = 0 ↔ c.len % 2 ^ 32 = 0 := by
    rw [← BitVec.toNat_inj]
    exact Iff.of_eq (congrArg (· = 0) (BitVec.toNat_ofNat _ _))
  rw [WorkQueueElem.genReq, WorkQueueElem.hasPayload, hneed, ← hlen]
  simp

theorem genReqs_chunks {wr : SendWrRdma} {k : ℕ} (hk : k ≤ 12) (hop : wr.opcode = .rdmaReadResp)
    {qp : QpParams} (hpmtu : convertIbvMtuToU16 qp.pmtu = some (2 ^ k))
    (hfit : wr.raddr + wr.length < 2 ^ 64) (psn : Psn) (t : Tables) (u : MemRegionTableEntry) :
    (wrChunksYielded wr qp psn).filterMap (fun c => c.wqe.genReq t u) ≠ [] ↔ wr.length ≠ 0 ∧
      wr.raddr + wrChunkSize < 2 ^ 64 ∧ wr.laddr + firstChunkLen wr (2 ^ k) < 2 ^ 64 := by
  have hcut := lt_cut (Nat.two_pow_pos k) (two_pow_dvd_wrChunkSize hk) (show 0 <
    wrChunkSize by decide) wr.raddr
  have hle : cut wrChunkSize (2 ^ k) wr.raddr ≤ wr.raddr + 2 ^ 16 := Nat.sub_le _ _
  have hfirst : firstChunkLen wr (2 ^ k) % 2 ^ 32 % 2 ^ 32 = 0 ↔ wr.length = 0 := by
    rw [firstChunkLen]
    omega
  rw [wrChunksYielded_cons hpmtu hk hfit]
  split_ifs with hok
  · dsimp only
    have hchunk := genReq_readResp (c := (startIter wr qp psn wrChunkSize (2 ^ k) false).chunk
      wr.raddr (firstChunkLen wr (2 ^ k)) (startIter wr qp psn wrChunkSize (2 ^ k)
      false).inner.currentPos) (by rw [IntoIterChunk.chunk_opcode]; exact hop) t u
    rw [IntoIterChunk.chunk_len, hfirst] at hchunk
    by_cases hlen : wr.length = 0
    · -- the only chunk of an empty answer has no payload
      have hcount : (startIter wr qp psn wrChunkSize (2 ^ k) false).inner.count = 1 :=
        if_pos (by rw [hlen]; exact le_rfl)
      rw [filterMap_cons_none (f := fun c : WrChunk => c.wqe.genReq t u) (hchunk.2 hlen), hcount]
      exact iff_of_false (fun h => h rfl) fun h => h.1 hlen
    · obtain ⟨req, hreq⟩ := ne_none_iff_exists'.1 (mt hchunk.1 hlen)
      rw [filterMap_cons_some (f := fun c : WrChunk => c.wqe.genReq t u) hreq]
      exact iff_of_true (cons_ne_nil _ _) ⟨hlen, hok⟩
  · exact iff_of_false (fun h => h rfl) fun h => hok h.2

theorem genReqs_write_ne_nil {wr : SendWrRdma} (hop : wr.opcode = .rdmaReadResp)
    (hflags : wr.signaled = false) (t : Tables) (u : MemRegionTableEntry) :
    side.genReqs t u (.write wr) ≠ [] ↔ wr.length ≠ 0 ∧ ∃ P,
      convertIbvMtuToU16 side.qp.pmtu = some P ∧ wr.raddr + wr.length < 2 ^ 64 ∧
      wr.raddr + wrChunkSize < 2 ^ 64 ∧ wr.laddr + firstChunkLen wr P < 2 ^ 64 ∧
      side.ctx.HasRoom (psnCount P wr.raddr wr.length) := by
  have hsent : side.ctx.chunksSent side.qp (.write wr) = side.ctx.writeChunks side.qp wr := by
    rw [chunksSent, hop]
  have hzero : ¬ (wr.length = 0 ∧ wr.opcode = .rdmaWrite) := by
    rw [hop]
    exact fun h => by cases h.2
  have hregister : ∀ msn psn, registerEvent side.qp wr (writeEventOp wr.opcode) msn psn =
    .ok [] := by
    simp [registerEvent, hflags]
  have hchunks : ∀ n, numPsn side.qp.pmtu wr.raddr wr.length = some n →
      side.ctx.writeChunks side.qp wr =
        if side.ctx.HasRoom n then wrChunksYielded wr (side.qp.params side.ctx.msn) side.ctx.psn
          else [] := by
    intro n hn
    rw [writeChunks, if_neg hzero, hn, elim_some, nextWr_eq]
    split_ifs
    · simp only [elim_some, hregister]
    · rfl
  rw [ReadSide.genReqs, hsent]
  cases hpmtu : convertIbvMtuToU16 side.qp.pmtu with
  | none =>
    rw [writeChunks, if_neg hzero, numPsn, hpmtu]
    simp
  | some P =>
    obtain ⟨k, -, hk, rfl⟩ := convertIbvMtuToU16_eq hpmtu
    by_cases hfit : wr.raddr + wr.length < 2 ^ 64
    · rw [hchunks _ (numPsn_eq hpmtu hfit wr.length_lt)]
      split_ifs with hroom
      · have hpmtu' : convertIbvMtuToU16 (side.qp.params side.ctx.msn).pmtu = some (2 ^ k) := hpmtu
        rw [genReqs_chunks hk hop hpmtu' hfit]
        refine and_congr_right fun _ => ⟨fun h => ⟨2 ^ k, rfl, hfit, h.1, h.2, hroom⟩, ?_⟩
        rintro ⟨P, ⟨⟩, -, hstart, hladdr, -⟩
        exact ⟨hstart, hladdr⟩
      · refine iff_of_false (fun h => h rfl) ?_
        rintro ⟨-, P, ⟨⟩, -, -, -, hroom'⟩
        exact hroom hroom'
    · refine iff_of_false (fun h => h ?_) (by rintro ⟨-, -, -, h, -⟩; exact hfit h)
      cases hn : numPsn side.qp.pmtu wr.raddr wr.length with
      | none =>
        rw [writeChunks, if_neg hzero, hn]
        rfl
      | some n =>
        rw [hchunks n hn, wrChunksYielded_of_overflow (not_lt.1 hfit), ite_self]
        rfl

/-- **When a read request is answered.** -/
theorem payloadGenReqs_ne_nil_iff (hop : m.bth.opcode = .rdmaReadRequest) :
    payloadGenReqs card peer tail ecnMarked side m ≠ [] ↔ ReadAnswered card side m := by
  have hlen : (answerWr m).length ≠ 0 ↔ m.reth.dlen ≠ 0 := by
    rw [Ne, Ne, ← BitVec.toNat_inj]
    rfl
  have hsignaled : (answerWr m).signaled = false := by
    change ((if m.bth.ackReq = true then 4 else 0 : ℕ) &&& 2 != 0) = false
    split <;> decide
  by_cases htrans : m.bth.trans = .rc
  · by_cases hpass : (checkedOf card (parseEntry m peer) tail).isDiscard = false
    · have hgen : payloadGenReqs card peer tail ecnMarked side m =
          side.genReqs card.tables card.dontCare.mrEntry (.write (answerWr m)) := by
        rw [payloadGenReqs, rqReport, hpass, if_neg Bool.false_ne_true, tryRecvMeta_read hop htrans]
        exact append_nil _
      obtain ⟨hindex, hcontext⟩ := (isDiscard_read hop).1 hpass
      rw [hgen, genReqs_write_ne_nil rfl hsignaled, hlen]
      exact ⟨fun h => ⟨htrans, hindex, hcontext, h.1, h.2⟩, fun h => ⟨h.length, h.sent⟩⟩
    · rw [payloadGenReqs, rqReport, if_pos (by simpa using hpass)]
      refine iff_of_false (fun h => h rfl) fun h =>
        hpass ((isDiscard_read hop).2 ⟨h.index, h.context⟩)
  · refine iff_of_false (fun h => h ?_) fun h => htrans h.trans
    have hdescs : m.genDescVector ecnMarked = none := by
      rw [RdmaRecvPacketMeta.genDescVector]
      cases htr : m.bth.trans <;> simp_all
    rw [payloadGenReqs, rqReport, hdescs, ite_self]
    rfl

end

/-- **A read request is answered only if the tables allow it exactly where it is not answered at
all, or they happen to allow it.** -/
theorem readsAllowed_iff (card : Card) (peer : ThinMacIpUdpMetaDataForRecv)
    (tail : Option (BitVec 8)) (ecnMarked : Bool) (side : ReadSide) (m : RdmaRecvPacketMeta)
    (hop : m.bth.opcode = .rdmaReadRequest) :
    ReadsAllowed card peer tail ecnMarked side m ↔
      ¬ ReadAnswered card side m ∨ ReadAllowed card.tables m := by
  rw [ReadsAllowed, payloadGenReqs_ne_nil_iff hop, imp_iff_not_or]

/-- A request to read `dlen` bytes at `va` with the key `rkey`, for the queue pair of the sample
card. -/
def readRequest (va rkey dlen : ℕ) : RdmaRecvPacketMeta where
  bth := ⟨.rc, .rdmaReadRequest, false, false, 0, 0x100, true, 0⟩
  rdmaExtendHeaderBuf := BitVec.ofNat 336 ((va * 2 ^ 64 + rkey * 2 ^ 32 + dlen) * 2 ^ 208)
  hasPayload := false
  isEcnMarked := false

/-- A queue pair after it was created. -/
def freshSide : ReadSide where
  handler := {}
  qp := { qpType := 2, qpn := 0x100, macAddr := 0, dqpn := 0x200, dqpIp := 0, pmtu := 1
          sendCq := none, recvCq := none }
  ctx := {}

/-- The sample card, with a queue pair and a memory region for reads. -/
def readableCard : Card :=
  { sampleCard with
    tables :=
      { qpc := fun i => if i = 1 then some { sampleQpc with rqAccessFlags := 0x4 } else none
        mr := fun i => if i = 0 then some { sampleMr 0x1000 with accFlags := 0x4 } else none } }

/-- A read inside a memory region for reads. -/
theorem readsAllowed_granted :
    ReadAnswered readableCard freshSide (readRequest 0x1000 0 64) ∧
      ReadsAllowed readableCard default none false freshSide (readRequest 0x1000 0 64) :=
  ⟨⟨rfl, by decide, by decide, by decide +kernel, 256, by decide +kernel⟩,
    (readsAllowed_iff _ _ _ _ _ _ rfl).2 (Or.inr (by decide +kernel))⟩

/-- **A peer reads memory of no region**: the queue pair grants only writes, and the key has no
entry. -/
theorem read_not_allowed :
    payloadGenReqs sampleCard default none false freshSide (readRequest 0x9000 0x700 64) =
      [⟨0x9000, 64, 0, 0⟩] ∧
      ¬ ReadsAllowed sampleCard default none false freshSide (readRequest 0x9000 0x700 64) := by
  have hreqs : payloadGenReqs sampleCard default none false freshSide
    (readRequest 0x9000 0x700 64) =
      [⟨0x9000, 64, 0, 0⟩] := by decide +kernel
  refine ⟨hreqs, fun h => ?_⟩
  exact absurd (h (by rw [hreqs]; simp)) (by decide)

end OpenRdma.Link
