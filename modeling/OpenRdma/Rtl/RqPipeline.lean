import OpenRdma.Foundations.Run
import OpenRdma.Foundations.Window
import OpenRdma.Rtl.RQ

/-!
# Packets through the receive queue

The receive queue with the frames that arrive and its history: the packets it parsed, the answers
about memory regions and the numbers of beats it took for them, the packets it issued, and the
payload it forwarded or discarded. A packet whose memory region is queried takes the answer only if
its queue pair has a context. Where every such packet has one, each stage of the pipeline holds what
the checks compute for consecutive packets with their own answers (`PipelineInv`), so a payload is
written to memory only after its packet passed the checks.
-/

namespace OpenRdma.Rtl

open List Option CheckQpcAndMrTablePipelineEntry

/-! ## Arrivals -/

/-- What a beat carries. -/
structure Beat where
  data : BitVec 256 := 0
  byteNum : BitVec 6 := 32
  startByteIdx : BitVec 5 := 0
  deriving DecidableEq, Inhabited

/-- A frame: its beats, of which there is at least one. -/
structure Frame where
  words : List Beat
  ne : words ≠ []

namespace Frame

def len (f : Frame) : ℕ := f.words.length

theorem len_pos (f : Frame) : 0 < f.len := length_pos_of_ne_nil f.ne

/-- The beat at a place of the frame. -/
def beat (f : Frame) (j : ℕ) : DataStream :=
  let w := f.words.getD j default
  ⟨w.data, w.byteNum, w.startByteIdx, j == 0, j + 1 == f.len⟩

end Frame

/-- The `n`-th beat of a sequence of frames. -/
def beatAt (frames : ℕ → Frame) (n : ℕ) : DataStream :=
  (frames (cursor (fun k => (frames k).len) n).1).beat (cursor (fun k => (frames k).len) n).2

/-- The history of the receive queue: the number of beats that arrived; the packets parsed; for each
packet checked the answer taken about its memory region, and for each packet past the third stage
the number of beats taken; the packets issued; and for each command of the filter the beats it
applied to, with those of the current command apart. -/
structure RqHistory where
  arrived : ℕ := 0
  parsed : List CheckQpcAndMrTablePipelineEntry := []
  mrTaken : List (Option (Option MemRegionTableEntry)) := []
  tails : List (Option (BitVec 8)) := []
  issued : List CheckedPipelineEntry := []
  filtered : List (Bool × List DataStream) := []
  filtering : List DataStream := []
  deriving DecidableEq

/-- The history after a step. -/
def RqHistory.record (h : RqHistory) (s : RQ) : RqLabel → RqHistory
  | .arrive => { h with arrived := h.arrived + 1 }
  | .sendQpcQueryReqAndSomeSimpleParse =>
    match s.packetParser.rdmaPacketMetaOut, s.packetParser.rdmaMacIpUdpMetaOut with
    | m :: _, peer :: _ => { h with parsed := h.parsed ++ [parseEntry m peer] }
    | _, _ => h
  | .checkQpcAndMrTable =>
    match s.checkQpcAndMrTablePipe, s.qpcResp with
    | e :: _, qpcMaybe :: _ =>
      { h with mrTaken := h.mrTaken ++
          [if qpcMaybe.isSome && e.isNeedQueryMrTable then s.mrResp.head? else none] }
    | _, _ => h
  | .checkMrTableStep3 =>
    match s.checkMrTableStep3Pipe with
    | e :: _ =>
      { h with tails := h.tails ++
          [if e.rdmaPacketMeta.hasPayload then s.packetParser.rdmaPacketTailMetaOut.head?
            else none] }
    | [] => h
  | .issuePayloadConReqOrDiscard =>
    { h with issued := h.issued ++ s.issuePayloadConReqOrDiscardPipe.head?.toList }
  | .filterDiscardedPayloadStream =>
    match s.filterCmd, s.packetParser.rdmaPayloadOut with
    | isDiscard :: _, ds :: _ =>
      if ds.isLast then
        { h with filtered := h.filtered ++ [(isDiscard, h.filtering ++ [ds])], filtering := [] }
      else { h with filtering := h.filtering ++ [ds] }
    | _, _ => h
  | _ => h

/-- A step of the receive queue with its history, on the next beat. -/
def rqStep (card : Card) (frames : ℕ → Frame) (w : RQ × RqHistory) (l : RqLabel) :
    Option (RQ × RqHistory) :=
  (w.1.step card (beatAt frames w.2.arrived) l).map fun s' => (s', w.2.record w.1 l)

def RQ.Initial (s : RQ) : Prop := ∃ p : PacketParse, p.Initial ∧ s = { packetParser := p }

/-! ## What the checks compute -/

section

variable (card : Card) (e : CheckQpcAndMrTablePipelineEntry)

def qpcOf : Option EntryQPC := card.tables.queryQpc e.rdmaPacketMeta.bth.dqpn

def mrOf : Option MemRegionTableEntry := card.tables.mr (rkey2IndexMR e.rdmaPacketMeta.reth.rkey)

/-- The first check of a packet with its own answers. -/
def checkOf : CheckMrTablePipelineEntry := checkEntry card.dontCare e (qpcOf card e) (mrOf card e)

/-- All checks of a packet with its own answers and its number of beats. -/
def checkedOf (tail : Option (BitVec 8)) : CheckedPipelineEntry :=
  checkMrTableStep3Entry (checkMrTableStep2Entry (checkOf card e)) (tail.getD 0)

/-- The answer that belongs to the packet's query, if there was one. -/
def mrTakenOf : Option (Option MemRegionTableEntry) :=
  if e.isNeedQueryMrTable then some (mrOf card e) else none

end

theorem checkEntry_of_not_need {u : DontCare} {e : CheckQpcAndMrTablePipelineEntry}
    (h : e.isNeedQueryMrTable = false) (q : Option EntryQPC) (r r' : Option MemRegionTableEntry) :
    checkEntry u e q r = checkEntry u e q r' := by
  simp only [checkEntry, isMrKeyCheckPass, isMrAccCheckPass, mrEntry, h,
    Bool.not_false, Bool.true_or, Bool.and_false, Bool.false_eq_true, if_false]

/-! ## The invariant -/

/-- The queries and answers in flight are those of the packets to be checked. -/
structure TablesInv (card : Card) (s : RQ) : Prop where
  qpc : s.qpcResp ++ s.qpcReq.map card.tables.queryQpc = s.checkQpcAndMrTablePipe.map (qpcOf card)
  mr : s.mrResp ++ s.mrReq.map card.tables.mr =
    (s.checkQpcAndMrTablePipe.filter (·.isNeedQueryMrTable)).map (mrOf card)

/-- The stages of the pipeline hold consecutive packets: `A` are past the third stage, `B` and `C`
wait for the third and the second. -/
structure StagesInv (card : Card) (s : RQ) (h : RqHistory)
    (A B C : List CheckQpcAndMrTablePipelineEntry) : Prop where
  parsed : h.parsed = A ++ B ++ C ++ s.checkQpcAndMrTablePipe
  mrTaken : h.mrTaken = (A ++ B ++ C).map (mrTakenOf card)
  step2 : s.checkMrTableStep2Pipe = C.map (checkOf card)
  step3 : s.checkMrTableStep3Pipe = B.map fun e => checkMrTableStep2Entry (checkOf card e)
  tails : h.tails.length = A.length
  issued : h.issued ++ s.issuePayloadConReqOrDiscardPipe = List.zipWith (checkedOf card) A h.tails

/-- The packet's queue pair has a context if its memory region is queried. -/
def QueryUsed (t : Tables) (m : RdmaRecvPacketMeta) : Prop :=
  m.isNeedQueryMrTable → (t.queryQpc m.bth.dqpn).isSome

instance (t : Tables) (m : RdmaRecvPacketMeta) : Decidable (QueryUsed t m) :=
  inferInstanceAs (Decidable (_ → _))

/-- The invariant of the pipeline, where every packet parsed has `P`. -/
structure PipelineInv (card : Card) (P : RdmaRecvPacketMeta → Prop) (s : RQ) (h : RqHistory) :
    Prop where
  entry : ∀ e ∈ h.parsed, ∃ m peer, e = parseEntry m peer ∧ P m
  tables : TablesInv card s
  stages : ∃ A B C, StagesInv card s h A B C
  conReq : s.conReqOut =
    (h.issued.filter fun e => e.rdmaPacketMeta.hasPayload && !e.isDiscard).map (·.payloadConReq)

/-! ## Steps -/

namespace RQ

variable {card : Card} {s s' : RQ}

theorem sendQpcQueryReqAndSomeSimpleParse_eq (h : s.sendQpcQueryReqAndSomeSimpleParse = some s') :
    ∃ m metas peer peers, s.packetParser.rdmaPacketMetaOut = m :: metas ∧
      s.packetParser.rdmaMacIpUdpMetaOut = peer :: peers ∧
      s' = { s with
        packetParser := { s.packetParser with rdmaPacketMetaOut := metas, rdmaMacIpUdpMetaOut := peers }
        qpcReq := s.qpcReq ++ [m.bth.dqpn]
        mrReq := s.mrReq ++ if m.isNeedQueryMrTable then [rkey2IndexMR m.reth.rkey] else []
        checkQpcAndMrTablePipe := s.checkQpcAndMrTablePipe ++ [parseEntry m peer] } := by
  unfold sendQpcQueryReqAndSomeSimpleParse at h
  split at h
  · rename_i m metas peer peers hm hp
    exact ⟨m, metas, peer, peers, hm, hp, (some.inj h).symm⟩
  · cases h

theorem answerQpc_eq (h : s.answerQpc card.tables = some s') : ∃ qpn qpns, s.qpcReq = qpn :: qpns ∧
      s' = { s with qpcReq := qpns, qpcResp := s.qpcResp ++ [card.tables.queryQpc qpn] } := by
  unfold answerQpc at h
  split at h
  · cases h
  · exact ⟨_, _, ‹_›, (some.inj h).symm⟩

theorem answerMr_eq (h : s.answerMr card.tables = some s') : ∃ idx idxs, s.mrReq = idx :: idxs ∧
      s' = { s with mrReq := idxs, mrResp := s.mrResp ++ [card.tables.mr idx] } := by
  unfold answerMr at h
  split at h
  · cases h
  · exact ⟨_, _, ‹_›, (some.inj h).symm⟩

theorem checkQpcAndMrTable_eq {u : DontCare} (h : s.checkQpcAndMrTable u = some s') :
    ∃ e es q qs r mrs, s.checkQpcAndMrTablePipe = e :: es ∧ s.qpcResp = q :: qs ∧
      ((q.isSome && e.isNeedQueryMrTable) = true ∧ s.mrResp = r :: mrs ∨
        (q.isSome && e.isNeedQueryMrTable) = false ∧ r = none ∧ s.mrResp = mrs) ∧
      s' = { s with
        checkQpcAndMrTablePipe := es
        qpcResp := qs
        mrResp := mrs
        checkMrTableStep2Pipe := s.checkMrTableStep2Pipe ++ [checkEntry u e q r] } := by
  unfold checkQpcAndMrTable at h
  split at h
  · rename_i e es q qs he hq
    split_ifs at h with hneed
    · split at h
      · cases h
      · rename_i r mrs hr
        exact ⟨e, es, q, qs, r, mrs, he, hq, Or.inl ⟨hneed, hr⟩, (some.inj h).symm⟩
    · exact ⟨e, es, q, qs, none, s.mrResp, he, hq, Or.inr ⟨by simpa using hneed, rfl, rfl⟩,
        (some.inj h).symm⟩
  · cases h

theorem checkMrTableStep2_eq (h : s.checkMrTableStep2 = some s') :
    ∃ e es, s.checkMrTableStep2Pipe = e :: es ∧
      s' = { s with
        checkMrTableStep2Pipe := es
        checkMrTableStep3Pipe := s.checkMrTableStep3Pipe ++ [checkMrTableStep2Entry e] } := by
  unfold checkMrTableStep2 at h
  split at h
  · cases h
  · exact ⟨_, _, ‹_›, (some.inj h).symm⟩

theorem checkMrTableStep3_eq (h : s.checkMrTableStep3 = some s') :
    ∃ e es tail tails, s.checkMrTableStep3Pipe = e :: es ∧
      (e.rdmaPacketMeta.hasPayload = true ∧
          s.packetParser.rdmaPacketTailMetaOut = tail.getD 0 :: tails ∧ tail.isSome ∨
        e.rdmaPacketMeta.hasPayload = false ∧ tail = none ∧
          s.packetParser.rdmaPacketTailMetaOut = tails) ∧
      s' = { s with
        packetParser := { s.packetParser with rdmaPacketTailMetaOut := tails }
        checkMrTableStep3Pipe := es
        issuePayloadConReqOrDiscardPipe :=
          s.issuePayloadConReqOrDiscardPipe ++ [checkMrTableStep3Entry e (tail.getD 0)] } := by
  unfold checkMrTableStep3 at h
  split at h
  · cases h
  · rename_i e es he
    split_ifs at h with hp
    · split at h
      · cases h
      · rename_i t ts ht
        exact ⟨e, es, some t, ts, he, Or.inl ⟨hp, ht, rfl⟩, (some.inj h).symm⟩
    · exact ⟨e, es, none, _, he, Or.inr ⟨by simpa using hp, rfl, rfl⟩, (some.inj h).symm⟩

end RQ

theorem RqHistory.record_checkMrTableStep3 {s : RQ} {hist : RqHistory}
    {e : CheckMrTablePipelineEntry} {es : List CheckMrTablePipelineEntry} {tail : Option (BitVec 8)}
    {tails : List (BitVec 8)} (he : s.checkMrTableStep3Pipe = e :: es)
    (htail : e.rdmaPacketMeta.hasPayload = true ∧
          s.packetParser.rdmaPacketTailMetaOut = tail.getD 0 :: tails ∧ tail.isSome ∨
        e.rdmaPacketMeta.hasPayload = false ∧ tail = none ∧
          s.packetParser.rdmaPacketTailMetaOut = tails) :
    hist.record s .checkMrTableStep3 = { hist with tails := hist.tails ++ [tail] } := by
  simp only [RqHistory.record, he]
  rcases htail with ⟨hp, ht, hsome⟩ | ⟨hp, rfl, -⟩
  · rw [if_pos hp, ht]
    obtain ⟨t, rfl⟩ := isSome_iff_exists.1 hsome
    rfl
  · rw [if_neg (by simp [hp])]

namespace RQ

variable {card : Card} {s s' : RQ}

theorem issuePayloadConReqOrDiscard_eq (h : s.issuePayloadConReqOrDiscard = some s') :
    ∃ e es, s.issuePayloadConReqOrDiscardPipe = e :: es ∧
      s' = { s with
        issuePayloadConReqOrDiscardPipe := es
        filterCmd := s.filterCmd ++ if e.rdmaPacketMeta.hasPayload then [e.isDiscard] else []
        conReqOut := s.conReqOut ++
          if e.rdmaPacketMeta.hasPayload && !e.isDiscard then [e.payloadConReq] else []
        handleConRespPipe := s.handleConRespPipe ++ [e] } := by
  unfold issuePayloadConReqOrDiscard at h
  split at h
  · cases h
  · exact ⟨_, _, ‹_›, (some.inj h).symm⟩

theorem filterDiscardedPayloadStream_eq (h : s.filterDiscardedPayloadStream = some s') :
    ∃ isDiscard cmds ds beats, s.filterCmd = isDiscard :: cmds ∧
      s.packetParser.rdmaPayloadOut = ds :: beats ∧
      s' = { s with
        packetParser := { s.packetParser with rdmaPayloadOut := beats }
        filteredDataStreamForConsume := s.filteredDataStreamForConsume ++
          if isDiscard then [] else [ds]
        filterCmd := if ds.isLast then cmds else isDiscard :: cmds } := by
  unfold filterDiscardedPayloadStream at h
  split at h
  · exact ⟨_, _, _, _, ‹_›, ‹_›, (some.inj h).symm⟩
  · cases h

theorem handleConResp_eq (h : s.handleConResp = some s') :
    ∃ e es resps, s.handleConRespPipe = e :: es ∧
      s' = { s with
        handleConRespPipe := es
        conRespIn := resps
        handleGenMetaReportQueueDescPipe := s.handleGenMetaReportQueueDescPipe ++
          if e.isDiscard then [] else [e.rdmaPacketMeta]
        autoAckGenReqOut := s.autoAckGenReqOut ++
          if !e.isDiscard && e.needUpdatePsnBitmap then [e.autoAckReq] else []
        genCnpReqOut := s.genCnpReqOut ++
          if !e.isDiscard && (e.rdmaPacketMeta.isEcnMarked && e.rdmaPacketMeta.bth.trans ≠
            .cnp) then
            [e.cnpReq]
          else [] } := by
  unfold handleConResp at h
  split at h
  · cases h
  · rename_i e es he
    by_cases hp : (e.rdmaPacketMeta.hasPayload && !e.isDiscard) = true
    · simp only [hp, if_true] at h
      split at h
      · cases h
      · exact ⟨e, es, _, he, (some.inj h).symm⟩
    · simp only [hp] at h
      exact ⟨e, es, s.conRespIn, he, (some.inj h).symm⟩

end RQ

namespace TablesInv

variable {card : Card} {s : RQ}

theorem parse (h : TablesInv card s) (m : RdmaRecvPacketMeta) (peer : ThinMacIpUdpMetaDataForRecv)
    (p : PacketParse) : TablesInv card { s with
      packetParser := p
      qpcReq := s.qpcReq ++ [m.bth.dqpn]
      mrReq := s.mrReq ++ if m.isNeedQueryMrTable then [rkey2IndexMR m.reth.rkey] else []
      checkQpcAndMrTablePipe := s.checkQpcAndMrTablePipe ++ [parseEntry m peer] } := by
  constructor
  · rw [map_append, map_append, ← append_assoc, h.qpc]
    rfl
  · rw [map_append, ← append_assoc, h.mr]
    cases hn : m.isNeedQueryMrTable <;> simp [parseEntry, hn, mrOf]

theorem check (h : TablesInv card s) {e : CheckQpcAndMrTablePipelineEntry}
    {es : List CheckQpcAndMrTablePipelineEntry} {q : Option EntryQPC} {qs : List (Option EntryQPC)}
    (he : s.checkQpcAndMrTablePipe = e :: es) (hq : s.qpcResp = q :: qs) :
    q = qpcOf card e ∧ qs ++ s.qpcReq.map card.tables.queryQpc = es.map (qpcOf card) ∧
      (e.isNeedQueryMrTable = false → s.mrResp ++ s.mrReq.map card.tables.mr =
        (es.filter (·.isNeedQueryMrTable)).map (mrOf card)) ∧
      (e.isNeedQueryMrTable = true → ∀ r mrs, s.mrResp = r :: mrs → r = mrOf card e ∧
        mrs ++ s.mrReq.map card.tables.mr = (es.filter (·.isNeedQueryMrTable)).map
        (mrOf card)) := by
  have hqpc := h.qpc
  have hmr := h.mr
  rw [hq, he] at hqpc
  rw [he, filter_cons] at hmr
  refine ⟨(cons.inj hqpc).1, (cons.inj hqpc).2, fun hneed => ?_, fun hneed r mrs hr => ?_⟩
  · rwa [if_neg (by simp [hneed])] at hmr
  · rw [if_pos hneed, hr] at hmr
    exact cons.inj hmr

end TablesInv

/-- The steps of a run in which every packet parsed has `P`. -/
def ParsesOnly (P : RdmaRecvPacketMeta → Prop) (w : RQ × RqHistory) : RqLabel → Prop
  | .sendQpcQueryReqAndSomeSimpleParse => ∀ m ∈ w.1.packetParser.rdmaPacketMetaOut.head?, P m
  | _ => True

instance (P : RdmaRecvPacketMeta → Prop) [DecidablePred P] (w : RQ × RqHistory) (l : RqLabel) :
    Decidable (ParsesOnly P w l) := by
  unfold ParsesOnly
  split <;> infer_instance

section

variable {card : Card} {P : RdmaRecvPacketMeta → Prop} {s s' : RQ} {h h' : RqHistory}

theorem PipelineInv.congr (hi : PipelineInv card P s h) (hs : s' = { s with
      packetParser := s'.packetParser
      handleConRespPipe := s'.handleConRespPipe
      filterCmd := s'.filterCmd
      conRespIn := s'.conRespIn
      filteredDataStreamForConsume := s'.filteredDataStreamForConsume
      handleGenMetaReportQueueDescPipe := s'.handleGenMetaReportQueueDescPipe
      autoAckGenReqOut := s'.autoAckGenReqOut
      genCnpReqOut := s'.genCnpReqOut })
    (hh : h' = { h with
      arrived := h'.arrived
      filtered := h'.filtered
      filtering := h'.filtering }) : PipelineInv card P s' h' := by
  obtain ⟨A, B, C, hst⟩ := hi.stages
  rw [hs, hh]
  exact ⟨hi.entry, ⟨hi.tables.qpc, hi.tables.mr⟩,
    ⟨A, B, C, hst.parsed, hst.mrTaken, hst.step2, hst.step3, hst.tails, hst.issued⟩, hi.conReq⟩

theorem PipelineInv.check (hP : ∀ m, P m → QueryUsed card.tables m) (hi : PipelineInv card P s h)
    (hs : s.checkQpcAndMrTable card.dontCare = some s') :
    PipelineInv card P s' (h.record s .checkQpcAndMrTable) := by
  obtain ⟨A, B, C, hst⟩ := hi.stages
  obtain ⟨e, es, q, qs, r, mrs, he, hq, hr, rfl⟩ := RQ.checkQpcAndMrTable_eq hs
  obtain ⟨rfl, hqpc, hskip, htake⟩ := hi.tables.check he hq
  have hmem : e ∈ h.parsed := by
    rw [hst.parsed, he]
    simp
  obtain ⟨m, peer, rfl, hPm⟩ := hi.entry e hmem
  have hused := hP m hPm
  have hrec : h.record s .checkQpcAndMrTable = { h with mrTaken := h.mrTaken ++
      [if (qpcOf card (parseEntry m peer)).isSome && (parseEntry m peer).isNeedQueryMrTable then
        s.mrResp.head? else none] } := by
    simp only [RqHistory.record, he, hq]
  obtain ⟨htaken, hcheck, hmr⟩ :
      (if (qpcOf card (parseEntry m peer)).isSome && (parseEntry m peer).isNeedQueryMrTable then
        s.mrResp.head? else none) = mrTakenOf card (parseEntry m peer) ∧
      checkEntry card.dontCare (parseEntry m peer) (qpcOf card (parseEntry m peer)) r =
        checkOf card (parseEntry m peer) ∧
      mrs ++ s.mrReq.map card.tables.mr = (es.filter (·.isNeedQueryMrTable)).map (mrOf card) := by
    unfold mrTakenOf
    rcases hr with ⟨hneed, hr⟩ | ⟨hneed, rfl, rfl⟩
    · have hn := (Bool.and_eq_true_iff.1 hneed).2
      obtain ⟨rfl, hmr⟩ := htake hn r mrs hr
      rw [if_pos hneed, if_pos hn, hr]
      exact ⟨rfl, rfl, hmr⟩
    · have hn : (parseEntry m peer).isNeedQueryMrTable = false := by
        by_contra hn
        have hn : m.isNeedQueryMrTable = true := by simpa [parseEntry] using hn
        have hsome : (qpcOf card (parseEntry m peer)).isSome = true := hused hn
        rw [hsome] at hneed
        simp [parseEntry, hn] at hneed
      rw [hneed, hn]
      exact ⟨rfl, checkEntry_of_not_need hn _ _ _, hskip hn⟩
  rw [hrec, htaken, hcheck]
  refine ⟨hi.entry, ⟨hqpc, hmr⟩, ⟨A, B, C ++ [parseEntry m peer], ?_⟩, hi.conReq⟩
  refine ⟨?_, ?_, ?_, hst.step3, hst.tails, hst.issued⟩
  · rw [hst.parsed, he]
    simp
  · rw [hst.mrTaken, ← append_assoc, @map_append _ _ _ (A ++ B ++ C)]
    rfl
  · rw [hst.step2, map_append]
    rfl

theorem PipelineInv.step3 (hi : PipelineInv card P s h)
    (hs : s.checkMrTableStep3 = some s') : PipelineInv card P s'
    (h.record s .checkMrTableStep3) := by
  obtain ⟨A, B, C, hst⟩ := hi.stages
  obtain ⟨e, es, tail, tails, he, htail, rfl⟩ := RQ.checkMrTableStep3_eq hs
  have hstep3 := hst.step3
  rw [he] at hstep3
  obtain ⟨x, B', rfl, hx, hB'⟩ := map_eq_cons_iff.1 hstep3.symm
  rw [RqHistory.record_checkMrTableStep3 he htail]
  refine ⟨hi.entry, ⟨hi.tables.qpc, hi.tables.mr⟩, ⟨A ++ [x], B', C, ?_⟩, hi.conReq⟩
  refine ⟨?_, ?_, hst.step2, hB'.symm, ?_, ?_⟩
  · rw [hst.parsed]
    simp
  · rw [hst.mrTaken]
    simp
  · simp [hst.tails]
  · rw [← append_assoc, hst.issued, zipWith_append hst.tails.symm, ← hx]
    rfl

/-- **Every step keeps the invariant of the pipeline**, where every query is used. -/
theorem PipelineInv.step (hP : ∀ m, P m → QueryUsed card.tables m) {frames : ℕ → Frame}
    {w w' : RQ × RqHistory} {l : RqLabel} (hi : PipelineInv card P w.1 w.2) (hok : ParsesOnly P w l)
    (hstep : rqStep card frames w l = some w') : PipelineInv card P w'.1 w'.2 := by
  obtain ⟨s, h⟩ := w
  obtain ⟨s', hs', rfl⟩ := map_eq_some_iff.1 hstep
  replace hi : PipelineInv card P s h := hi
  replace hs' : s.step card (beatAt frames h.arrived) l = some s' := hs'
  obtain ⟨A, B, C, hst⟩ := hi.stages
  cases l with
  | arrive | conResp resp =>
    cases hs'
    exact hi.congr rfl rfl
  | discardPacketWhenNetworkSettingsNotReady | handleBeatStage | dispatchStream | handleBeat =>
    obtain ⟨p, -, rfl⟩ := map_eq_some_iff.1 hs'
    exact hi.congr rfl rfl
  | sendQpcQueryReqAndSomeSimpleParse =>
    obtain ⟨m, metas, peer, peers, hm, hp, rfl⟩ := RQ.sendQpcQueryReqAndSomeSimpleParse_eq hs'
    have hPm : P m := hok m (by rw [hm]; rfl)
    simp only [RqHistory.record, hm, hp]
    refine ⟨fun e he => ?_, hi.tables.parse m peer _, ⟨A, B, C, ?_⟩, hi.conReq⟩
    · rcases mem_append.1 he with he | he
      · exact hi.entry e he
      · exact ⟨m, peer, mem_singleton.1 he, hPm⟩
    · exact ⟨by simp [hst.parsed], hst.mrTaken, hst.step2, hst.step3, hst.tails, hst.issued⟩
  | answerQpc =>
    obtain ⟨qpn, qpns, hq, rfl⟩ := RQ.answerQpc_eq hs'
    refine ⟨hi.entry, ⟨?_, hi.tables.mr⟩, ⟨A, B, C, hst.parsed, hst.mrTaken, hst.step2, hst.step3, hst.tails, hst.issued⟩, hi.conReq⟩
    rw [← hi.tables.qpc, hq, append_assoc]
    rfl
  | answerMr =>
    obtain ⟨idx, idxs, hq, rfl⟩ := RQ.answerMr_eq hs'
    refine ⟨hi.entry, ⟨hi.tables.qpc, ?_⟩, ⟨A, B, C, hst.parsed, hst.mrTaken, hst.step2, hst.step3, hst.tails, hst.issued⟩, hi.conReq⟩
    rw [← hi.tables.mr, hq, append_assoc]
    rfl
  | checkQpcAndMrTable => exact hi.check hP hs'
  | checkMrTableStep2 =>
    obtain ⟨e, es, he, rfl⟩ := RQ.checkMrTableStep2_eq hs'
    have hstep2 := hst.step2
    rw [he] at hstep2
    obtain ⟨x, C', rfl, rfl, hC'⟩ := map_eq_cons_iff.1 hstep2.symm
    refine ⟨hi.entry, ⟨hi.tables.qpc, hi.tables.mr⟩, ⟨A, B ++ [x], C', ?_⟩, hi.conReq⟩
    refine ⟨by simp [RqHistory.record, hst.parsed], by simp [RqHistory.record, hst.mrTaken],
      hC'.symm, ?_, hst.tails, hst.issued⟩
    rw [hst.step3, map_append]
    rfl
  | checkMrTableStep3 => exact hi.step3 hs'
  | issuePayloadConReqOrDiscard =>
    obtain ⟨e, es, he, rfl⟩ := RQ.issuePayloadConReqOrDiscard_eq hs'
    simp only [RqHistory.record, he, head?_cons, toList_some]
    refine ⟨hi.entry, ⟨hi.tables.qpc, hi.tables.mr⟩, ⟨A, B, C, ?_⟩, ?_⟩
    · refine ⟨hst.parsed, hst.mrTaken, hst.step2, hst.step3, hst.tails, ?_⟩
      rw [← hst.issued, he, append_assoc]
      rfl
    · rw [hi.conReq, filter_append, map_append, filter_cons]
      split_ifs <;> rfl
  | handleConResp =>
    obtain ⟨e, es, resps, -, rfl⟩ := RQ.handleConResp_eq hs'
    exact hi.congr rfl rfl
  | filterDiscardedPayloadStream =>
    obtain ⟨isDiscard, cmds, ds, beats, hc, hp, rfl⟩ := RQ.filterDiscardedPayloadStream_eq hs'
    simp only [RqHistory.record, hc, hp]
    split_ifs <;> exact hi.congr rfl rfl

theorem pipelineInv_init (hs : s.Initial) : PipelineInv card P s {} := by
  obtain ⟨p, -, rfl⟩ := hs
  exact ⟨by simp, ⟨rfl, rfl⟩, ⟨[], [], [], rfl, rfl, rfl, rfl, rfl, rfl⟩, rfl⟩

end

end OpenRdma.Rtl
