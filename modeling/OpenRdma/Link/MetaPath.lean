import OpenRdma.Foundations.Channel
import OpenRdma.Foundations.Run
import OpenRdma.Link.MetaRing
import OpenRdma.Rtl.AutoAckLosses
import OpenRdma.Rtl.RqChecks

/-!
# The path of the reports

The receive queues report the headers of packets, the generator of acknowledgements reports windows,
and an arbiter merges their descriptors into the ring the driver polls. A report of two descriptors
is not torn apart on the way, so the driver reads each report as it was put out (`MetaPath.Inv`). It
panics on reports of packets the peer and the card are free to send: an acknowledgement that is
neither from the driver nor with a window that moved, and any header whose bit for congestion, which
the card leaves open, is set. On all others it does not (`goodReport_iff`).
-/

namespace OpenRdma.Link

open OpenRdma.Driver OpenRdma.Rtl Framing List Option

/-! ## The reports of a receive queue -/

structure ReportStage where
  handleGenMetaReportQueueDescPipeQ : List RdmaRecvPacketMeta := []
  metaReportMimoQueue : List RingbufRawDescriptor := []
  metaReportDescPipeOutQueue : List RingbufRawDescriptor := []
  deriving DecidableEq

namespace ReportStage

/-- The descriptors of a packet are queued, with any value of the bit that is left open. -/
def genMetaReportQueueDesc (ecnMarked : Bool) (s : ReportStage) : Option ReportStage :=
  match s.handleGenMetaReportQueueDescPipeQ with
  | [] => none
  | m :: ms =>
    some { s with
      handleGenMetaReportQueueDescPipeQ := ms
      metaReportMimoQueue := s.metaReportMimoQueue ++ (m.genDescVector ecnMarked).getD [] }

def forwardMetaReportDescToOutput (s : ReportStage) : Option ReportStage :=
  match s.metaReportMimoQueue with
  | [] => none
  | desc :: descs =>
    some { s with
      metaReportMimoQueue := descs
      metaReportDescPipeOutQueue := s.metaReportDescPipeOutQueue ++ [desc] }

end ReportStage

/-! ## The whole path -/

abbrev hardwareQpChannelCnt : ℕ := 4

/-- The inputs of `metaReportDescriptorMux`. -/
inductive DescChannel
  | rq (idx : Fin hardwareQpChannelCnt)
  | autoAckGenerator
  deriving DecidableEq

/-- The last stages of the receive queues, the generator, the arbiter, the ring and the handlers of
the driver. -/
structure MetaPath where
  rqVec : Fin hardwareQpChannelCnt → ReportStage := fun _ => {}
  autoAckGenerator : AutoAckGenerator
  isReqFirstBeatReg : Bool := true
  curReqChannelIdxReg : DescChannel := .autoAckGenerator
  ring : List RingbufRawDescriptor := []
  handlers : ℕ → MetaHandler := fun _ => {}

/-- What can happen next: a receive queue accepts a packet, a rule fires, or the driver polls. -/
inductive MetaPathLabel
  | receive (idx : Fin hardwareQpChannelCnt) (m : RdmaRecvPacketMeta)
      (peer : ThinMacIpUdpMetaDataForRecv) (tail : Option (BitVec 8))
  | genMetaReportQueueDesc (idx : Fin hardwareQpChannelCnt) (ecnMarked : Bool)
  | forwardMetaReportDescToOutput (idx : Fin hardwareQpChannelCnt)
  | autoAckGenerator (l : AutoAckLabel)
  | recvReqArbitResult (channel : DescChannel)
  | forwardMoreReqBeat
  | poll

namespace MetaPath

def setRq (w : MetaPath) (idx : Fin hardwareQpChannelCnt) (rq : ReportStage) : MetaPath :=
  { w with rqVec := Function.update w.rqVec idx rq }

def input (w : MetaPath) : DescChannel → List RingbufRawDescriptor
  | .rq idx => (w.rqVec idx).metaReportDescPipeOutQueue
  | .autoAckGenerator => w.autoAckGenerator.metaReportDescPipeOutQueue

def setInput (w : MetaPath) (descs : List RingbufRawDescriptor) : DescChannel → MetaPath
  | .rq idx => w.setRq idx { w.rqVec idx with metaReportDescPipeOutQueue := descs }
  | .autoAckGenerator =>
    { w with autoAckGenerator := { w.autoAckGenerator with metaReportDescPipeOutQueue := descs } }

def forwardBeat (w : MetaPath) (channel : DescChannel) : Option MetaPath :=
  match w.input channel with
  | [] => none
  | desc :: descs =>
    some { w.setInput descs channel with
      isReqFirstBeatReg := !hasNext desc
      curReqChannelIdxReg := channel
      ring := w.ring ++ [desc] }

/-- `MetaHandler::handle_meta` with the tables of all queue pairs. A report for no queue pair is
logged and dropped. -/
def handleMeta (handlers : ℕ → MetaHandler) (x : BitVec 24 × ReportMeta) :
    Option (ℕ → MetaHandler) :=
  ((handlers (qpnToIndex x.1)).handleMeta x.2).map fun r =>
    if qpnToIndex x.1 < maxQp then Function.update handlers (qpnToIndex x.1) r.1 else handlers

def poll (w : MetaPath) : Option MetaPath :=
  (tryRecvMeta w.ring).bind fun x =>
    (handleMeta w.handlers x.1).map fun handlers => { w with ring := x.2, handlers := handlers }

/-- A step of one of the parts. -/
def step (card : Card) (w : MetaPath) : MetaPathLabel → Option MetaPath
  | .receive idx m peer tail =>
    if (checkedOf card (parseEntry m peer) tail).isDiscard then none
    else some (w.setRq idx { w.rqVec idx with
      handleGenMetaReportQueueDescPipeQ := (w.rqVec idx).handleGenMetaReportQueueDescPipeQ ++ [m] })
  | .genMetaReportQueueDesc idx ecnMarked =>
    ((w.rqVec idx).genMetaReportQueueDesc ecnMarked).map (w.setRq idx)
  | .forwardMetaReportDescToOutput idx => (w.rqVec idx).forwardMetaReportDescToOutput.map
      (w.setRq idx)
  | .autoAckGenerator l => (w.autoAckGenerator.step l).map fun s => { w with autoAckGenerator := s }
  | .recvReqArbitResult channel => if w.isReqFirstBeatReg then w.forwardBeat channel else none
  | .forwardMoreReqBeat => if w.isReqFirstBeatReg then none else w.forwardBeat w.curReqChannelIdxReg
  | .poll => w.poll

/-- Nothing was received yet. -/
def Initial (w : MetaPath) : Prop :=
  w.autoAckGenerator.Initial ∧
    w = { autoAckGenerator := w.autoAckGenerator, curReqChannelIdxReg := w.curReqChannelIdxReg }

/-- The next report in the ring is complete. -/
def Complete : List RingbufRawDescriptor → Prop
  | [] => False
  | [desc] => hasNext desc = false
  | _ => True

instance : DecidablePred Complete
  | [] => isFalse id
  | [desc] => inferInstanceAs (Decidable (hasNext desc = false))
  | _ :: _ :: _ => isTrue trivial

/-- **The driver panics**: it reads a report, and reading or handling it has no result. -/
def Panics (w : MetaPath) : Prop := Complete w.ring ∧ w.poll = none

end MetaPath

/-! ## Reports the driver handles -/

/-- The driver reads one report that is not a congestion notification from the descriptors. -/
structure GoodReport (descs : List RingbufRawDescriptor) : Prop where
  frame : IsFrame hasNext descs
  length : descs.length ≤ 2
  read : ∃ x, tryRecvMeta descs = some (x, []) ∧ x.2 ≠ .cnp

/-- The packet is reported, and the driver can handle what the card reports about it. -/
def Reportable (ecnMarked : Bool) (m : RdmaRecvPacketMeta) : Prop :=
  m.bth.trans = .rc →
    (m.bth.opcode = .acknowledge → (extractAETH m.rdmaExtendHeaderBuf).isWindowSlided = true ∨
      (extractAETH m.rdmaExtendHeaderBuf).isSendByDriver = true) ∧
    (isPacket m.bth.opcode = true → m.bth.opcode ≠ .rdmaReadRequest →
      (packetPos m.bth.opcode = some .middle → m.bth.isRetry = true) → ecnMarked = false)

instance (ecnMarked : Bool) (m : RdmaRecvPacketMeta) : Decidable (Reportable ecnMarked m) :=
  inferInstanceAs (Decidable (_ → _ ∧ _))

section

variable {m : RdmaRecvPacketMeta} {ecnMarked : Bool} {descs : List RingbufRawDescriptor}

theorem isFrame_single {d : RingbufRawDescriptor} (h : hasNext d = false) : IsFrame hasNext [d] :=
  ⟨[], d, rfl, by simp, h⟩

theorem isFrame_pair {d₁ d₂ : RingbufRawDescriptor} (h₁ : hasNext d₁ = true)
    (h₂ : hasNext d₂ = false) : IsFrame hasNext [d₁, d₂] :=
  ⟨[d₁], d₂, rfl, by simpa using h₁, h₂⟩

theorem goodReport_basicInfo {pos : PacketPos} {type : HeaderType}
    (hpacket : isPacket m.bth.opcode = true) (hpos : packetPos m.bth.opcode = some pos)
    (htype : headerType m.bth.opcode = some type) :
    GoodReport [.packetBasicInfo (m.basicInfoDesc ecnMarked)] ↔ ecnMarked = false := by
  have hop : (m.basicInfoDesc ecnMarked).commonHeader.opcode = m.bth.opcode := rfl
  have hread : tryRecvMeta [.packetBasicInfo (m.basicInfoDesc ecnMarked)] =
      (reportMeta (if ecnMarked then .cnpPacketInfo (m.basicInfoDesc ecnMarked)
        else .writePacketInfo (m.basicInfoDesc ecnMarked))).map (·, []) := by
    have hnext : hasNext (.packetBasicInfo (m.basicInfoDesc ecnMarked)) = false := rfl
    rw [tryRecvMeta, tryPop, fromBytes, hop, hpacket]
    cases ecnMarked <;> rfl
  cases ecnMarked with
  | false =>
    refine iff_of_true ⟨isFrame_single rfl, by simp, ?_⟩ rfl
    rw [hread, if_neg Bool.false_ne_true, reportMeta, headerWriteMeta, hop, hpos, htype]
    exact ⟨_, rfl, by simp⟩
  | true =>
    refine iff_of_false (fun h => ?_) (by simp)
    obtain ⟨x, hx, hne⟩ := h.read
    rw [hread] at hx
    obtain ⟨y, hy, heq⟩ := map_eq_some_iff.1 hx
    obtain ⟨rfl, -⟩ := Prod.mk.inj heq
    cases hy
    exact hne rfl

theorem goodReport_read (hop : m.bth.opcode = .rdmaReadRequest) : GoodReport [.packetBasicInfo
      { m.basicInfoDesc ecnMarked with
        commonHeader := { m.commonHeader with hasNextFrag := true } },
      .readReqExtendInfo m.readReqExtendInfoDesc] := by
  refine ⟨isFrame_pair rfl rfl, by simp, ?_⟩
  have hpacket : isPacket m.commonHeader.opcode = true := by
    change isPacket m.bth.opcode = true
    rw [hop]
    rfl
  have hpacket' : isPacket m.readReqExtendInfoDesc.commonHeader.opcode = true := hpacket
  rw [tryRecvMeta]
  simp only [tryPop, fromBytes, hpacket, hpacket']
  exact ⟨_, rfl, by simp⟩

theorem goodReport_ackPair (hop : m.bth.opcode = .acknowledge)
    (hslid : (extractAETH m.rdmaExtendHeaderBuf).isWindowSlided = true) :
    GoodReport [.ack m.ackDesc,
      .ackExtra ⟨m.commonHeader, (extractAETH m.rdmaExtendHeaderBuf).preBitmap⟩] := by
  refine ⟨isFrame_pair hslid rfl, by simp, ?_⟩
  have hack : isAck m.ackDesc.commonHeader.opcode = true := by
    change isAck m.bth.opcode = true
    rw [hop]
    rfl
  have hack' : isAck m.commonHeader.opcode = true := hack
  have hnext : m.ackDesc.commonHeader.hasNextFrag = true := hslid
  have hlocal : m.ackDesc.isSendByLocalHw = false := rfl
  rw [tryRecvMeta]
  simp only [tryPop, hasNext, hnext, fromBytes, hack, hack', Bool.and_self, if_true, map_some,
    bind_some, reportMeta]
  cases m.ackDesc.isSendByDriver with
  | false => exact ⟨_, rfl, by simp⟩
  | true => exact ⟨_, rfl, by simp⟩

theorem goodReport_ack (hop : m.bth.opcode = .acknowledge)
    (hslid : (extractAETH m.rdmaExtendHeaderBuf).isWindowSlided = false) :
    GoodReport [.ack m.ackDesc] ↔ (extractAETH m.rdmaExtendHeaderBuf).isSendByDriver = true := by
  have hack : isAck m.ackDesc.commonHeader.opcode = true := by
    change isAck m.bth.opcode = true
    rw [hop]
    rfl
  have hnext : m.ackDesc.commonHeader.hasNextFrag = false := hslid
  have hlocal : m.ackDesc.isSendByLocalHw = false := rfl
  have hdriver : m.ackDesc.isSendByDriver = (extractAETH m.rdmaExtendHeaderBuf).isSendByDriver :=
    rfl
  have hread : tryRecvMeta [.ack m.ackDesc] = (reportMeta (.ack m.ackDesc)).map (·, []) := by
    rw [tryRecvMeta]
    simp only [tryPop, hasNext, hnext, fromBytes, hack, if_true, Bool.false_eq_true, if_false,
      map_some, bind_some]
  constructor
  · rintro ⟨-, -, x, hx, -⟩
    rw [hread, reportMeta, hdriver] at hx
    cases h : (extractAETH m.rdmaExtendHeaderBuf).isSendByDriver with
    | false =>
      rw [h] at hx
      cases hx
    | true => rfl
  · intro h
    refine ⟨isFrame_single hnext, by simp, ?_⟩
    rw [hread, reportMeta, hdriver, h]
    exact ⟨_, rfl, by simp⟩

theorem goodReport_header {pos : PacketPos} {type : HeaderType} (htrans : m.bth.trans = .rc)
    (hpacket : isPacket m.bth.opcode = true) (hpos : packetPos m.bth.opcode = some pos)
    (htype : headerType m.bth.opcode = some type) (hmiddle : pos = .middle → m.bth.isRetry = true) :
    GoodReport [.packetBasicInfo (m.basicInfoDesc ecnMarked)] ↔ Reportable ecnMarked m := by
  have hack : m.bth.opcode ≠ .acknowledge := by
    intro hop
    rw [hop] at hpacket
    cases hpacket
  have hread : m.bth.opcode ≠ .rdmaReadRequest := by
    intro hop
    rw [hop] at htype
    cases htype
  rw [goodReport_basicInfo hpacket hpos htype]
  constructor
  · exact fun hecn _ => ⟨fun hop => absurd hop hack, fun _ _ _ => hecn⟩
  · intro h
    refine (h htrans).2 hpacket hread fun hmid => hmiddle ?_
    rw [hpos] at hmid
    exact some.inj hmid

/-- **Which packets the driver can be told about.** -/
theorem goodReport_iff (h : m.genDescVector ecnMarked = some descs) (hne : descs ≠ []) :
    GoodReport descs ↔ Reportable ecnMarked m := by
  unfold RdmaRecvPacketMeta.genDescVector at h
  split at h
  -- the packets in the middle of a message, a read request and an acknowledgement
  case h_14 htrans hop =>
    cases h
    refine iff_of_true (goodReport_read hop) fun _ => ⟨fun hop' => ?_, fun _ hne => absurd hop hne⟩
    rw [hop] at hop'
    cases hop'
  case h_18 htrans hop =>
    have hpacket : isPacket m.bth.opcode ≠ true := by
      rw [hop]
      decide
    split at h
    · rename_i hslid
      cases h
      exact iff_of_true (goodReport_ackPair hop hslid) fun _ =>
        ⟨fun _ => Or.inl hslid, fun hp => absurd hp hpacket⟩
    · rename_i hslid
      cases h
      rw [goodReport_ack hop (by simpa using hslid)]
      constructor
      · exact fun hdriver _ => ⟨fun _ => Or.inr hdriver, fun hp => absurd hp hpacket⟩
      · exact fun h => ((h htrans).1 hop).resolve_left hslid
  case h_19 => cases h
  case h_15 htrans hop | h_16 htrans hop | h_17 htrans hop =>
    split at h
    · rename_i hretry
      cases h
      exact goodReport_header htrans (by rw [hop]; rfl) (by rw [hop]; rfl) (by rw [hop]; rfl)
        fun _ => hretry
    · exact absurd (some.inj h).symm hne
  all_goals
    rename_i htrans hop
    cases h
    exact goodReport_header htrans (by rw [hop]; rfl) (by rw [hop]; rfl)
      (by rw [hop]; rfl) (by simp)

theorem goodReport_nakDescs (bitmapInfo : BitmapWindowStorageUpdateResp)
    (ackMsnInfo : AtomicUpdateStorageUpdateResp AutoAckGenAtomicUpdateStorageEntry)
    (qpnKeyPart : BitVec 8) : GoodReport (nakDescs bitmapInfo ackMsnInfo qpnKeyPart) :=
  ⟨isFrame_pair rfl rfl, by simp [nakDescs], _, rfl, by simp⟩

theorem goodReport_pollingDesc (pollingQpIdx : BitVec 10) (bitmapInfo : BitmapWindowStorageEntry) :
    GoodReport [pollingDesc pollingQpIdx bitmapInfo] :=
  ⟨isFrame_single rfl, by simp, _, rfl, by simp⟩

end

/-! ## Reports are not torn apart -/

theorem AutoAckGenerator.step_good {s s' : AutoAckGenerator} {l : AutoAckLabel}
    (hpolled : ∀ desc ∈ s.pollingTimeoutDescQueue, GoodReport [desc]) (hs : s.step l = some s') :
    (∃ chunk, Framed GoodReport chunk ∧ s'.metaReportDescPipeOutQueue ++ s'.metaReportMimoQueue =
      s.metaReportDescPipeOutQueue ++ s.metaReportMimoQueue ++ chunk) ∧
      ∀ desc ∈ s'.pollingTimeoutDescQueue, GoodReport [desc] := by
  cases AutoAckGenerator.fires_of_step hs with
  | @genAutoAckReportDescriptor e es he =>
    exact ⟨⟨nakDescs e.1 e.2.1 e.2.2, .of_frame (goodReport_nakDescs _ _ _),
      (append_assoc _ _ _).symm⟩, hpolled⟩
  | forwardNakDesc hmimo =>
    refine ⟨⟨[], .nil, ?_⟩, hpolled⟩
    simp [hmimo]
  | @forwardPollingDesc desc descs hmimo hdescs =>
    rw [hdescs] at hpolled
    refine ⟨⟨[desc], .of_frame (hpolled desc mem_cons_self), ?_⟩, fun d hd =>
      hpolled d (mem_cons_of_mem _ hd)⟩
    simp [hmimo]
  | handlePollingResult =>
    refine ⟨⟨[], .nil, (append_nil _).symm⟩, fun desc hdesc => ?_⟩
    rcases mem_append.1 hdesc with hdesc | hdesc
    · exact hpolled desc hdesc
    · split at hdesc
      · obtain rfl := mem_singleton.1 hdesc
        exact goodReport_pollingDesc _ _
      · cases hdesc
  | _ => exact ⟨⟨[], .nil, (append_nil _).symm⟩, hpolled⟩

namespace MetaPath

/-- The descriptors on their way to an input of the arbiter. -/
def stream (w : MetaPath) : DescChannel → List RingbufRawDescriptor
  | .rq idx => (w.rqVec idx).metaReportDescPipeOutQueue ++ (w.rqVec idx).metaReportMimoQueue
  | .autoAckGenerator =>
    w.autoAckGenerator.metaReportDescPipeOutQueue ++ w.autoAckGenerator.metaReportMimoQueue

/-- The input of the arbiter whose report is being moved. -/
def cur (w : MetaPath) : Option DescChannel :=
  if w.isReqFirstBeatReg then none else some w.curReqChannelIdxReg

/-- Every report on its way is good, and reports are not torn apart. -/
structure Inv (w : MetaPath) : Prop where
  merging : ∃ p, Merging hasNext GoodReport w.stream w.cur p w.ring
  polled : ∀ desc ∈ w.autoAckGenerator.pollingTimeoutDescQueue, GoodReport [desc]

/-- The next packet is one the driver can be told about. -/
def Ok (w : MetaPath) : MetaPathLabel → Prop
  | .genMetaReportQueueDesc idx ecnMarked =>
    ∀ m ∈ (w.rqVec idx).handleGenMetaReportQueueDescPipeQ.head?, Reportable ecnMarked m
  | _ => True

instance (w : MetaPath) (l : MetaPathLabel) : Decidable (w.Ok l) := by
  unfold Ok
  split <;> infer_instance

variable {card : Card} {w w' : MetaPath} {l : MetaPathLabel}

theorem stream_setRq (idx : Fin hardwareQpChannelCnt) (rq : ReportStage) (c : DescChannel) :
    (w.setRq idx rq).stream c = if c = .rq idx then
      rq.metaReportDescPipeOutQueue ++ rq.metaReportMimoQueue else w.stream c := by
  cases c with
  | rq idx' =>
    by_cases hidx : idx' = idx
    · subst hidx
      simp [stream, setRq]
    · simp [stream, setRq, hidx]
  | autoAckGenerator => rfl

theorem stream_setInput {channel : DescChannel} {desc : RingbufRawDescriptor}
    {descs : List RingbufRawDescriptor} (h : w.input channel = desc :: descs) :
    ∃ l, w.stream channel = desc :: l ∧
      ∀ c, (w.setInput descs channel).stream c = if c = channel then l else w.stream c := by
  cases channel with
  | rq idx =>
    exact ⟨descs ++ (w.rqVec idx).metaReportMimoQueue, congrArg (· ++ _) h, stream_setRq idx _⟩
  | autoAckGenerator =>
    refine ⟨descs ++ w.autoAckGenerator.metaReportMimoQueue, congrArg (· ++ _) h, fun c => ?_⟩
    cases c <;> rfl

/-- A receive queue puts good reports at the end of its stream. -/
theorem Inv.setRq {idx : Fin hardwareQpChannelCnt} {rq : ReportStage}
    {chunk : List RingbufRawDescriptor} (hi : w.Inv) (hchunk : Framed GoodReport chunk)
    (hrq : rq.metaReportDescPipeOutQueue ++ rq.metaReportMimoQueue = w.stream (.rq idx) ++ chunk) :
    (w.setRq idx rq).Inv := by
  obtain ⟨p, hm⟩ := hi.merging
  refine ⟨⟨p, hm.extend fun c => ?_⟩, hi.polled⟩
  rw [stream_setRq]
  split
  · rename_i hc
    exact ⟨chunk, hchunk, hc ▸ hrq⟩
  · exact ⟨[], .nil, (append_nil _).symm⟩

theorem Inv.forwardBeat {channel : DescChannel} (hi : w.Inv) (hcur : w.cur = none ∨
    w.cur = some channel) (hs : w.forwardBeat channel = some w') : w'.Inv := by
  obtain ⟨p, hm⟩ := hi.merging
  unfold MetaPath.forwardBeat at hs
  split at hs
  · cases hs
  · rename_i desc descs hinput
    cases hs
    obtain ⟨l, hl, hstream⟩ := stream_setInput hinput
    obtain ⟨p', hm'⟩ := hm.take (fun f hf => hf.frame) hcur hl hstream
    have hpolled : (w.setInput descs channel).autoAckGenerator.pollingTimeoutDescQueue =
        w.autoAckGenerator.pollingTimeoutDescQueue := by
      cases channel <;> rfl
    refine ⟨⟨p', ?_⟩, hpolled ▸ hi.polled⟩
    convert hm' using 1
    · funext c
      cases c <;> rfl
    · change (if (!hasNext desc) = true then none else some channel) = _
      cases hasNext desc <;> rfl

theorem poll_of_good {descs rest : List RingbufRawDescriptor} (h : GoodReport descs)
    (hring : w.ring = descs ++ rest) :
    ∃ handlers, w.poll = some { w with ring := rest, handlers := handlers } := by
  obtain ⟨x, hread, hne⟩ := h.read
  have hread' := tryRecvMeta_append hread rest
  have hhandle : ∀ h : MetaHandler, ∃ r, h.handleMeta x.2 = some r := by
    intro h
    cases hx : x.2 with
    | cnp => exact absurd hx hne
    | _ => exact ⟨_, rfl⟩
  obtain ⟨r, hr⟩ := hhandle (w.handlers (qpnToIndex x.1))
  rw [poll, hring, hread', bind_some, handleMeta, hr]
  exact ⟨_, rfl⟩

theorem complete_of_poll (hs : w.poll = some w') : Complete w.ring := by
  unfold MetaPath.poll tryRecvMeta at hs
  match hring : w.ring with
  | [] =>
    rw [hring] at hs
    cases hs
  | [desc] =>
    cases hnext : hasNext desc with
    | false => exact hnext
    | true =>
      rw [hring, tryPop, if_pos hnext] at hs
      cases hs
  | _ :: _ :: _ => trivial

theorem Inv.poll (hi : w.Inv) : ¬ Complete w.ring ∨ ∃ w', w.poll = some w' ∧ w'.Inv := by
  obtain ⟨p, hm⟩ := hi.merging
  rcases hm.read with hp | ⟨f, rest, hring, hf, hm'⟩
  · refine Or.inl ?_
    rw [hp]
    rcases eq_or_ne p [] with rfl | hne
    · exact id
    · obtain ⟨q, hq, hgood⟩ := hm.exists_rest (fun f hf => hf.frame) hne
      have hlen := hgood.length
      have hqlen := length_pos_of_ne_nil hq
      have hplen := length_pos_of_ne_nil hne
      rw [length_append] at hlen
      obtain ⟨desc, rfl⟩ := length_eq_one_iff.1 (show p.length = 1 by omega)
      have := hm.more_follow desc (mem_singleton_self desc)
      intro hc
      rw [Complete, this] at hc
      cases hc
  · obtain ⟨handlers, hpoll⟩ := poll_of_good hf hring
    exact Or.inr ⟨_, hpoll, ⟨p, hm'⟩, hi.polled⟩

theorem Inv.step (hi : w.Inv) (hok : w.Ok l) (hs : w.step card l = some w') : w'.Inv := by
  cases l with
  | receive idx m peer tail =>
    obtain ⟨-, hs⟩ := ite_none_left_eq_some.1 hs
    cases hs
    exact hi.setRq .nil (append_nil _).symm
  | genMetaReportQueueDesc idx ecnMarked =>
    obtain ⟨rq, hrq, rfl⟩ := map_eq_some_iff.1 hs
    unfold ReportStage.genMetaReportQueueDesc at hrq
    split at hrq
    · cases hrq
    · rename_i m ms hms
      cases hrq
      have hgood : Framed GoodReport ((m.genDescVector ecnMarked).getD []) := by
        cases hdescs : m.genDescVector ecnMarked with
        | none => exact .nil
        | some descs =>
          rcases eq_or_ne descs [] with rfl | hne
          · exact .nil
          · exact .of_frame ((goodReport_iff hdescs hne).2 (hok m (by rw [hms]; rfl)))
      exact hi.setRq hgood (append_assoc _ _ _).symm
  | forwardMetaReportDescToOutput idx =>
    obtain ⟨rq, hrq, rfl⟩ := map_eq_some_iff.1 hs
    unfold ReportStage.forwardMetaReportDescToOutput at hrq
    split at hrq
    · cases hrq
    · rename_i desc descs hmimo
      cases hrq
      exact hi.setRq .nil (by simp [stream, hmimo])
  | autoAckGenerator l =>
    obtain ⟨s, hstep, rfl⟩ := map_eq_some_iff.1 hs
    obtain ⟨p, hm⟩ := hi.merging
    obtain ⟨⟨chunk, hchunk, hstream⟩, hpolled⟩ := AutoAckGenerator.step_good hi.polled hstep
    refine ⟨⟨p, hm.extend fun c => ?_⟩, hpolled⟩
    cases c with
    | rq idx => exact ⟨[], .nil, (append_nil _).symm⟩
    | autoAckGenerator => exact ⟨chunk, hchunk, hstream⟩
  | recvReqArbitResult channel =>
    obtain ⟨hfirst, hs⟩ := ite_none_right_eq_some.1 hs
    exact hi.forwardBeat (Or.inl (if_pos hfirst)) hs
  | forwardMoreReqBeat =>
    obtain ⟨hfirst, hs⟩ := ite_none_left_eq_some.1 hs
    exact hi.forwardBeat (Or.inr (if_neg hfirst)) hs
  | poll =>
    rcases hi.poll with hc | ⟨w'', hpoll, hi'⟩
    · exact absurd (complete_of_poll hs) hc
    · obtain rfl := some.inj (hpoll.symm.trans hs)
      exact hi'

theorem Initial.inv (h : w.Initial) : w.Inv := by
  obtain ⟨hack, hw⟩ := h
  have hstream : w.stream = fun _ => [] := by
    funext c
    cases c with
    | rq idx => rw [hw]; rfl
    | autoAckGenerator => rw [stream, hack.2.2]; rfl
  have hcur : w.cur = none := by
    rw [hw]
    rfl
  have hring : w.ring = [] := by
    rw [hw]
  refine ⟨⟨[], ?_⟩, ?_⟩
  · rw [hstream, hcur, hring]
    exact .nil
  · rw [hack.2.2]
    simp

/-- **The driver does not panic** in any run in which the driver can be told about every packet that
is reported. -/
theorem run_not_panics {w₀ : MetaPath} {ls : List MetaPathLabel} (hw₀ : w₀.Initial)
    (hrun : Run (step card) Ok w₀ ls w) : ¬ w.Panics := by
  have hinv : w.Inv := hrun.invariant (I := fun _ w => w.Inv) hw₀.inv
    fun _ _ _ _ hi hok hs => hi.step hok hs
  rintro ⟨hc, hnone⟩
  rcases hinv.poll with hn | ⟨w', hpoll, -⟩
  · exact hn hc
  · rw [hpoll] at hnone
    cases hnone

end MetaPath

/-! ## Sample packets -/

def metaPathPowerUp : MetaPath := { autoAckGenerator := autoAckPowerUp }

/-- An acknowledgement for the queue pair of the sample card. -/
def ackPacket (aeth : Aeth) : RdmaRecvPacketMeta where
  bth := ⟨.rc, .acknowledge, false, false, 0, 0x100, false, 0⟩
  rdmaExtendHeaderBuf := buildRdmaExtendHeaderBuffer aeth.pack
  hasPayload := false
  isEcnMarked := false

/-- A write without payload for the queue pair of the sample card. -/
def emptyWritePacket : RdmaRecvPacketMeta where
  bth := ⟨.rc, .rdmaWriteOnlyWithImmediate, false, false, 0, 0x100, true, 0⟩
  rdmaExtendHeaderBuf := 0
  hasPayload := false
  isEcnMarked := false

/-- A packet with a report of one descriptor is received, reported and moved into the ring. -/
def reportPacket (idx : Fin hardwareQpChannelCnt) (m : RdmaRecvPacketMeta) (ecnMarked : Bool) :
    List MetaPathLabel :=
  [.receive idx m default none, .genMetaReportQueueDesc idx ecnMarked,
    .forwardMetaReportDescToOutput idx, .recvReqArbitResult (.rq idx)]

/-- An acknowledgement of the driver and a write, of two receive queues, are in the ring. -/
theorem run_not_panics_two_reports :
    ∃ w, Run (MetaPath.step sampleCard) MetaPath.Ok metaPathPowerUp
        (reportPacket 0 (ackPacket ⟨0, 0, false, false, true, 0⟩) false ++
          reportPacket 3 emptyWritePacket false) w ∧ w.ring.length = 2 ∧ ¬ w.Panics :=
  ⟨_, .of_isSome (by decide +kernel), by decide +kernel,
    MetaPath.run_not_panics ⟨autoAckPowerUp_initial, rfl⟩ (.of_isSome _)⟩

/-- **The driver panics** on an acknowledgement with all flags clear, and on a write whose open bit
is set. -/
theorem run_panics :
    (∃ w, Run (MetaPath.step sampleCard) (fun _ _ => True) metaPathPowerUp
        (reportPacket 0 (ackPacket ⟨0, 0, false, false, false, 0⟩) false) w ∧ w.Panics) ∧
      ∃ w, Run (MetaPath.step sampleCard) (fun _ _ => True) metaPathPowerUp
        (reportPacket 0 emptyWritePacket true) w ∧ w.Panics :=
  ⟨⟨_, .of_isSome (by decide +kernel), by decide +kernel, by decide +kernel⟩,
    _, .of_isSome (by decide +kernel), by decide +kernel, by decide +kernel⟩

end OpenRdma.Link
