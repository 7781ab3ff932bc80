import OpenRdma.Rtl.RqPipeline

/-!
# The checks of the receive queue over whole runs

What the invariant of the pipeline says about the answers packets take and about the payload that is
written to memory:
-/

namespace OpenRdma.Rtl

open CheckQpcAndMrTablePipelineEntry List Option BitVec Bool RdmaRecvPacketStatus
    CheckedPipelineEntry

variable {card : Card} {frames : ℕ → Frame} {s₀ : RQ} {ls : List RqLabel} {w : RQ × RqHistory}
variable {P : RdmaRecvPacketMeta → Prop}

theorem pipelineInv_of_run (hP : ∀ m, P m → QueryUsed card.tables m)
    (hs₀ : s₀.Initial) (hrun : Run (rqStep card frames) (ParsesOnly P) (s₀, {}) ls w) :
    PipelineInv card P w.1 w.2 :=
  hrun.invariant (I := fun _ w => PipelineInv card P w.1 w.2) (pipelineInv_init hs₀)
    fun _ _ _ _ hi hok hstep => hi.step hP hok hstep

/-! ## Answers about memory regions -/

/-- **A packet takes the answer to its own query**: the answer taken for the `k`-th packet is that
of its memory region if the region was queried for it, and none otherwise; up to every packet as
many answers were taken as queries sent. -/
structure MrAligned (card : Card) (h : RqHistory) : Prop where
  answer : ∀ (k : ℕ) e r, h.parsed[k]? = some e → h.mrTaken[k]? = some r → r = mrTakenOf card e
  count : ∀ k ≤ h.mrTaken.length,
    (h.mrTaken.take k).countP Option.isSome = (h.parsed.take k).countP (·.isNeedQueryMrTable)

theorem PipelineInv.mrAligned {s : RQ} {h : RqHistory} (hi : PipelineInv card P s h) :
    MrAligned card h := by
  obtain ⟨A, B, C, hst⟩ := hi.stages
  have hparsed := hst.parsed
  have htaken := hst.mrTaken
  constructor
  · intro k e r he hr
    rw [htaken, getElem?_map] at hr
    obtain ⟨e', he', rfl⟩ := map_eq_some_iff.1 hr
    rw [hparsed, List.getElem?_append_left (List.getElem?_eq_some_iff.1 he').1, he'] at he
    rw [some.inj he]
  · intro k hk
    rw [htaken, length_map] at hk
    rw [htaken, hparsed, take_append_of_le_length hk, ← map_take, countP_map]
    refine countP_congr fun e _ => ?_
    rw [Function.comp_apply, mrTakenOf]
    split_ifs with h <;> simp [h]

/-- **In every run in which a packet whose memory region is queried has a context, every packet
takes the answer to its own query.** -/
theorem run_mrAligned (hs₀ : s₀.Initial)
    (hrun : Run (rqStep card frames) (ParsesOnly (QueryUsed card.tables)) (s₀, {}) ls w) :
    MrAligned card w.2 :=
  (pipelineInv_of_run (fun _ h => h) hs₀ hrun).mrAligned

/-! ## Sample packets -/

def sampleSettings : LocalNetworkSettings := ⟨0x0a0b0c0d0e0f, 0xc0a80102⟩

/-- The beats of a packet sent to the sample card: two beats of addresses and headers, one of
extended headers, and `payload` beats. -/
def samplePacketFrame (srcPort opcode dqpn va rkey dlen payload : ℕ) : Frame where
  words :=
    [{ data := swapEndianByte (BitVec.ofNat 256
        (0x0a0b0c0d0e0f * 2 ^ 208 + 0x0800 * 2 ^ 144 + 0x11 * 2 ^ 64 + 0xc0a8)) },
     { data := swapEndianByte (BitVec.ofNat 256
        (0x0102 * 2 ^ 240 + srcPort * 2 ^ 224 + 4791 * 2 ^ 208 + opcode * 2 ^ 168 + dqpn * 2 ^ 112 +
          va * 2 ^ 16 + rkey / 2 ^ 16)) },
     { data := swapEndianByte (BitVec.ofNat 256 (rkey % 2 ^ 16 * 2 ^ 240 + dlen * 2 ^ 208)) }] ++
    List.replicate payload default
  ne := by simp

/-- A context and a memory region for writes. -/
def sampleQpc : EntryQPC := ⟨0, 0x2, 1, 0x200, 0, 0, 4791⟩

/-- A memory region of 4096 bytes for writes. -/
def sampleMr (baseVA : ℕ) : MemRegionTableEntry := ⟨0, BitVec.ofNat 64 baseVA, 4096, 0x3, 0⟩

/-- A card with one queue pair and two memory regions. -/
def sampleCard : Card where
  settings := sampleSettings
  tables :=
    { qpc := fun i => if i = 1 then some sampleQpc else none
      mr := fun i => if i = 0 then some (sampleMr 0x1000) else if i = 1 then some (sampleMr 0x2000)
        else none }
  dontCare := {}

def resetParse : PacketParse where
  classifierState := .handleFirstBeat
  canAcceptRawInputPacket := false
  metaExtract := default
  ethRawPacketIn := []
  ethRawPacketForHandle := []
  waitingForRoute := []
  ethPacketMeta := []
  otherRawPacketOut := []
  rdmaRawPacketOut := []
  extractorState := .handleFirstBeat
  firstBeatEcn := false
  partialRdmaMeta := ⟨⟨.rc, .sendFirst, false, false, 0, 0, false, 0⟩, 0, false, false⟩
  payloadStreamOutputIsFirst := true
  beatCnt := 1
  rdmaMacIpUdpMetaOut := []
  rdmaPacketMetaOut := []
  rdmaPacketTailMetaOut := []
  rdmaPayloadOut := []

theorem resetParse_initial : ({ packetParser := resetParse } : RQ).Initial :=
  ⟨resetParse, ⟨rfl, rfl, rfl, rfl, rfl, rfl, rfl, rfl, rfl, rfl, rfl, rfl, rfl, rfl⟩, rfl⟩

/-- `beats` beats arrive and are parsed into `packets` packets, which pass through the pipeline. -/
def passThrough (beats packets : ℕ) : List RqLabel :=
  List.flatMap (List.replicate beats) [.arrive, .discardPacketWhenNetworkSettingsNotReady,
    .handleBeatStage, .dispatchStream, .handleBeat] ++
  List.flatMap (List.replicate packets) [.sendQpcQueryReqAndSomeSimpleParse, .answerQpc, .answerMr,
    .checkQpcAndMrTable, .checkMrTableStep2, .checkMrTableStep3, .issuePayloadConReqOrDiscard]

/-- Two writes, the first to the queue pair with index `i`. -/
def twoWrites (i : ℕ) : ℕ → Frame
  | 0 => samplePacketFrame 7 0x0a (i * 2 ^ 8) 0x1000 0x000 32 1
  | _ => samplePacketFrame 8 0x0a 0x100 0x2000 0x100 32 1

/-- Both writes take their own answers. -/
theorem run_mrAligned_two_writes :
    ∃ w, Run (rqStep sampleCard (twoWrites 1)) (ParsesOnly (QueryUsed sampleCard.tables))
        ({ packetParser := resetParse }, {}) (passThrough 8 2) w ∧
      w.2.mrTaken = [some (some (sampleMr 0x1000)), some (some (sampleMr 0x2000))] ∧
      MrAligned sampleCard w.2 :=
  ⟨_, .of_isSome (by decide +kernel), by decide +kernel,
    run_mrAligned resetParse_initial (.of_isSome _)⟩

/-- The first write is for a queue pair without a context: its answer stays, and the second write
takes it. -/
theorem run_takes_other_answer :
    ∃ w, Run (rqStep sampleCard (twoWrites 2)) (fun _ _ => True)
        ({ packetParser := resetParse }, {}) (passThrough 8 2) w ∧
      w.2.mrTaken = [none, some (some (sampleMr 0x1000))] ∧ ¬ MrAligned sampleCard w.2 := by
  refine ⟨_, .of_isSome (by decide +kernel), by decide +kernel, fun ha => ?_⟩
  have := ha.answer 1 _ (some (some (sampleMr 0x1000))) (eq_some_of_isSome (by decide +kernel))
    (by decide +kernel)
  exact absurd this (by decide +kernel)

/-! ## Payload written to memory -/

/-- **A payload is written only where it may be**: the packet's queue pair exists and allows what
the packet does; so does its memory region, whose translation is used; and the payload is inside the
region. -/
structure Granted (t : Tables) (m : RdmaRecvPacketMeta) (req : PayloadConReq) : Prop where
  qpIndex : (getQpnRawIndexPart m.bth.dqpn).toNat < maxQp
  qpc : ∃ qpc flag, t.qpc (getIndexQP m.bth.dqpn) = some qpc ∧
    qpc.qpnKeyPart = getKeyQP m.bth.dqpn ∧ qpAccessFlag m.bth.opcode = some flag ∧
    containAccessTypeFlag qpc.rqAccessFlags flag
  mrIndex : (getMrRawIndexPartFromRkey m.reth.rkey).toNat < maxMr
  mr : ∃ mr, t.mr (rkey2IndexMR m.reth.rkey) = some mr ∧ mr.keyPart = rkey2KeyPartMR m.reth.rkey ∧
    containAccessTypeFlag mr.accFlags (mrAccessFlag m.bth.opcode) ∧
    req.baseVA = mr.baseVA ∧ req.pgtOffset = mr.pgtOffset ∧
    mr.baseVA.toNat ≤ req.addr.toNat ∧
    req.addr.toNat + req.len.toNat ≤ mr.baseVA.toNat + mr.len.toNat

/-- The packet's answers are used, its payload is checked if its queue pair has a context, and the
end of a payload that is checked is less than `2 ^ 33` after the start of a region that starts
before it. -/
@[mk_iff]
structure PayloadOk (t : Tables) (m : RdmaRecvPacketMeta) : Prop where
  used : QueryUsed t m
  need : m.hasPayload → (t.queryQpc m.bth.dqpn).isSome → m.isNeedQueryMrTable
  near : m.hasPayload → m.isNeedQueryMrTable →
    ∀ qpc ∈ t.queryQpc m.bth.dqpn, ∀ mr ∈ t.mr (rkey2IndexMR m.reth.rkey), mr.baseVA.toNat ≤
    m.reth.va.toNat → m.reth.va.toNat - mr.baseVA.toNat +
      (Rtl.packetLen qpc.pmtu m.bth.opcode.isFirstRdmaOpCode m.reth).toNat < 2 ^ 33

instance (t : Tables) (m : RdmaRecvPacketMeta) : Decidable (PayloadOk t m) :=
  decidable_of_iff' _ (payloadOk_iff t m)

theorem checkEntry_normal {u : DontCare} {e : CheckQpcAndMrTablePipelineEntry} {q : Option EntryQPC}
    {r : Option MemRegionTableEntry} (h : (checkEntry u e q r).packetStatus = .normal) :
    e.packetStatus = .normal ∧ ∃ qpc, q = some qpc ∧ (e.isNeedQueryMrTable →
      (∃ flag, qpAccessFlag e.rdmaPacketMeta.bth.opcode = some flag ∧
        containAccessTypeFlag qpc.rqAccessFlags flag) ∧
      ∃ mr, r = some mr ∧ mr.keyPart = rkey2KeyPartMR e.rdmaPacketMeta.reth.rkey ∧
        containAccessTypeFlag mr.accFlags (mrAccessFlag e.rdmaPacketMeta.bth.opcode)) := by
  have hnormal : e.packetStatus = .normal := by
    by_contra hne
    unfold checkEntry at h
    rw [if_neg (by rwa [isRecvPacketStatusNormal_iff])] at h
    exact hne h
  unfold checkEntry at h
  rw [if_pos (isRecvPacketStatusNormal_iff.2 hnormal)] at h
  split_ifs at h with hqk hqa hmk hma
  simp only [Bool.not_eq_true', Bool.not_eq_false] at hqk hqa hmk hma
  cases q with
  | none => cases hqk
  | some qpc =>
    refine ⟨hnormal, qpc, rfl, fun hneed => ?_⟩
    simp only [isQpAccCheckPass, isMrKeyCheckPass, isMrAccCheckPass, hneed, any_some] at hqa hmk hma
    constructor
    · obtain ⟨flag, hflag⟩ := isSome_iff_exists.1 (isSome_of_any hqa)
      rw [hflag] at hqa
      exact ⟨flag, hflag, hqa⟩
    · obtain ⟨mr, rfl⟩ := isSome_iff_exists.1 (isSome_of_any hmk)
      exact ⟨mr, rfl, (eq_of_beq hmk).symm, hma⟩

theorem checkMrTableStep3Entry_normal {e : CheckMrTablePipelineEntry} {beatCnt : BitVec 8}
    (h : (checkMrTableStep3Entry e beatCnt).packetStatus = .normal) :
    e.packetStatus = .normal ∧ (e.isNeedQueryMrTable →
      e.isMrLowerAddrBoundOk ∧ e.deltaLen ≤ e.mrEntry.len.setWidth 33 ∧
      (e.rdmaPacketMeta.hasPayload → beatCnt - 1 = e.zerobasedExpectedPayloadBeatNum)) := by
  have hnormal : e.packetStatus = .normal := by
    by_contra hne
    unfold checkMrTableStep3Entry at h
    rw [if_neg (by
      rw [and_eq_true, isRecvPacketStatusNormal_iff]
      exact fun hn => hne hn.1)] at h
    exact hne h
  refine ⟨hnormal, fun hneed => ?_⟩
  unfold checkMrTableStep3Entry at h
  rw [if_pos (by rw [hnormal, hneed]; rfl)] at h
  split_ifs at h with hbound hbeats
  simp only [Bool.not_eq_true', Bool.not_eq_false, and_eq_true, decide_eq_true_eq] at hbound
  refine ⟨hbound.1, hbound.2, fun hp => ?_⟩
  simpa [hp] using hbeats

theorem parseEntry_normal {m : RdmaRecvPacketMeta} {peer : ThinMacIpUdpMetaDataForRecv}
    (h : (parseEntry m peer).packetStatus = .normal) :
    (getQpnRawIndexPart m.bth.dqpn).toNat < maxQp ∧
      (m.isNeedQueryMrTable → (getMrRawIndexPartFromRkey m.reth.rkey).toNat < maxMr) := by
  unfold parseEntry at h
  split_ifs at h with hqp hmr
  exact ⟨not_le.1 hqp, fun hneed => not_le.1 fun hge => hmr ⟨hneed, hge⟩⟩

theorem toNat_deltaLen {va base : BitVec 64} {len : BitVec 32} (hle : base.toNat ≤ va.toNat)
    (hlt : va.toNat - base.toNat + len.toNat < 2 ^ 33) :
    (va.setWidth 33 - base.setWidth 33 + len.setWidth 33).toNat =
      va.toNat - base.toNat + len.toNat := by
  rw [toNat_add, toNat_sub, toNat_setWidth, toNat_setWidth, toNat_setWidth]
  omega

/-- **A packet that passes all checks with its own answers may write its payload.** -/
theorem checkedOf_granted {m : RdmaRecvPacketMeta} {peer : ThinMacIpUdpMetaDataForRecv}
    {tail : Option (BitVec 8)} (hok : PayloadOk card.tables m) (hp : m.hasPayload)
    (hd : (checkedOf card (parseEntry m peer) tail).isDiscard = false) :
    Granted card.tables m (checkedOf card (parseEntry m peer) tail).payloadConReq := by
  have hnormal : (checkedOf card (parseEntry m peer) tail).packetStatus = .normal := by
    rw [← isRecvPacketStatusNormal_iff]
    simpa [isDiscard] using hd
  obtain ⟨hcheck, hstep3⟩ := checkMrTableStep3Entry_normal hnormal
  obtain ⟨hparse, qpc, hqpc, htables⟩ := checkEntry_normal (show (checkOf card _).packetStatus =
    _ from hcheck)
  have hqpc' : card.tables.queryQpc m.bth.dqpn = some qpc := hqpc
  have hneed : m.isNeedQueryMrTable := hok.need hp (by rw [hqpc']; rfl)
  obtain ⟨hqpIndex, hmrIndex⟩ := parseEntry_normal hparse
  obtain ⟨⟨flag, hflag, hhas⟩, mr, hmr, hkey, hacc⟩ := htables hneed
  have hmr' : card.tables.mr (rkey2IndexMR m.reth.rkey) = some mr := hmr
  -- the entry has the memory region and the length of the packet
  have hentry : (parseEntry m peer).mrEntry (qpcOf card (parseEntry m peer))
      (mrOf card (parseEntry m peer)) = some mr := by
    rw [hqpc, hmr]
    exact if_pos hneed
  have hlen : (parseEntry m peer).packetLen (qpcOf card (parseEntry m peer)) =
      some (Rtl.packetLen qpc.pmtu m.bth.opcode.isFirstRdmaOpCode m.reth) := by
    rw [hqpc]
    rfl
  obtain ⟨hlower, hupper, -⟩ := hstep3 hneed
  simp only [checkMrTableStep2Entry, checkOf, checkEntry, hentry, hlen, any_some, getD_some,
    map_some, decide_eq_true_eq] at hlower hupper
  have hle : mr.baseVA.toNat ≤ m.reth.va.toNat := hlower
  have hnear := hok.near hp hneed qpc hqpc' mr hmr' hle
  have hdelta := toNat_deltaLen hle hnear
  have hbound := le_def.1 hupper
  rw [show (parseEntry m peer).rdmaPacketMeta.reth.va = m.reth.va from rfl,
    toNat_setWidth] at hbound
  obtain ⟨hfind, hqkey⟩ : card.tables.qpc (getIndexQP m.bth.dqpn) = some qpc ∧
      qpc.qpnKeyPart = getKeyQP m.bth.dqpn := by
    obtain ⟨h₁, h₂⟩ := filter_eq_some_iff.1 hqpc'
    exact ⟨h₁, eq_of_beq h₂⟩
  refine ⟨hqpIndex, ⟨qpc, flag, hfind, hqkey, hflag, hhas⟩, hmrIndex hneed,
    mr, hmr', hkey, hacc, ?_, ?_, hle, ?_⟩
  · simp only [checkedOf, payloadConReq, checkMrTableStep3Entry,
      checkMrTableStep2Entry, checkOf, checkEntry, hentry, getD_some]
  · simp only [checkedOf, payloadConReq, checkMrTableStep3Entry,
      checkMrTableStep2Entry, checkOf, checkEntry, hentry, getD_some]
  · simp only [checkedOf, payloadConReq, checkMrTableStep3Entry,
      checkMrTableStep2Entry, checkOf, checkEntry, hlen, getD_some]
    change m.reth.va.toNat + _ ≤ _
    omega

/-- The requests to write payload are those of the packets issued with payload and not discarded,
and each may be written. -/
def WritesGranted (card : Card) (s : RQ) (h : RqHistory) : Prop :=
  s.conReqOut =
      (h.issued.filter fun e => e.rdmaPacketMeta.hasPayload && !e.isDiscard).map (·.payloadConReq) ∧
    ∀ e ∈ h.issued, e.rdmaPacketMeta.hasPayload → e.isDiscard = false →
      Granted card.tables e.rdmaPacketMeta e.payloadConReq

theorem PipelineInv.exists_of_mem_issued {s : RQ} {h : RqHistory}
    (hi : PipelineInv card P s h) {e : CheckedPipelineEntry} (he : e ∈ h.issued) :
    ∃ m peer tail, P m ∧ e = checkedOf card (parseEntry m peer) tail := by
  obtain ⟨A, B, C, hst⟩ := hi.stages
  have hmem : e ∈ zipWith (checkedOf card) A h.tails :=
    hst.issued ▸ mem_append_left _ he
  obtain ⟨k, hk, rfl⟩ := getElem_of_mem hmem
  have hkA : k < A.length := by
    rw [length_zipWith] at hk
    omega
  have hparsed : A[k] ∈ h.parsed := by
    rw [hst.parsed]
    simp
  obtain ⟨m, peer, heq, hPm⟩ := hi.entry _ hparsed
  exact ⟨m, peer, _, hPm, by rw [getElem_zipWith, heq]⟩

/-- **In every run in which packets with payload are checked, with their own answers and near the
start of their region, a payload is written only where it may be.** -/
theorem run_writesGranted (hs₀ : s₀.Initial)
    (hrun : Run (rqStep card frames) (ParsesOnly (PayloadOk card.tables)) (s₀, {}) ls w) :
    WritesGranted card w.1 w.2 := by
  have hi := pipelineInv_of_run (fun _ h => h.used) hs₀ hrun
  refine ⟨hi.conReq, fun e he hp hd => ?_⟩
  obtain ⟨m, peer, tail, hok, rfl⟩ := hi.exists_of_mem_issued he
  exact checkedOf_granted hok hp hd

/-- Both writes are written to memory. -/
theorem run_writesGranted_two_writes :
    ∃ w, Run (rqStep sampleCard (twoWrites 1)) (ParsesOnly (PayloadOk sampleCard.tables))
        ({ packetParser := resetParse }, {}) (passThrough 8 2) w ∧
      w.1.conReqOut = [⟨0x1000, 32, 0x1000, 0⟩, ⟨0x2000, 32, 0x2000, 0⟩] ∧
      WritesGranted sampleCard w.1 w.2 :=
  ⟨_, .of_isSome (by decide +kernel), by decide +kernel,
    run_writesGranted resetParse_initial (.of_isSome _)⟩

/-- A send that invalidates a memory key, for the key of no memory region. -/
def invalidateSend : ℕ → Frame := fun _ => samplePacketFrame 7 0x17 0x100 0x9000 0x700 32 1

/-- The payload of the send is written with no memory region. -/
theorem run_writes_unchecked :
    ∃ w, Run (rqStep sampleCard invalidateSend) (fun _ _ => True)
        ({ packetParser := resetParse }, {})
        ((passThrough 4 1).filter fun l => decide (l ≠ RqLabel.answerMr)) w ∧
      w.1.conReqOut = [⟨0x9000, 32, 0, 0⟩] ∧ ¬ WritesGranted sampleCard w.1 w.2 := by
  refine ⟨_, .of_isSome (by decide +kernel), by decide +kernel, fun hg => ?_⟩
  obtain ⟨mr, hmr, -⟩ := (hg.2 _ (mem_of_head? (eq_some_of_isSome (by decide +kernel)))
    (by decide +kernel) (by decide +kernel)).mr
  exact absurd (isSome_of_eq_some hmr) (by decide +kernel)

end OpenRdma.Rtl
