import OpenRdma.Rtl.AtomicStorage
import OpenRdma.Rtl.BitmapWindow
import OpenRdma.Rtl.Descriptors
import OpenRdma.Rtl.RQ

/-!
# The generator of acknowledgements

For each packet received the generator marks its sequence number in the bitmap window of its queue
pair. If the window moves past a number that did not arrive, it sends a negative acknowledgement to
the peer and reports it to the driver with a pair of descriptors. In the background it polls one
queue pair after the other and reports the window of one that has been quiet for some time with a
single descriptor.

The rules of the two storages fire on their own; the rules of the generator call their methods. The
queues of the generator are unbounded, and what it sends to the peer is never taken out of its
queue, so that the queue is the list of all packets sent.
-/

namespace OpenRdma.Rtl

open Option

/-! ## Requests and results -/

/-- A packet whose number is being marked. -/
structure AutoAckGeneratorToHandleMergedBitmapPipelineEntry where
  qpn : BitVec 24
  qpc : EntryQPC
  deriving DecidableEq

/-- A packet whose number is marked, with the answer of the bitmap storage. -/
structure AutoAckGeneratorToGenAutoAckEthPacketPipelineEntry where
  qpn : BitVec 24
  qpc : EntryQPC
  bitmapUpdateResp : BitmapWindowStorageUpdateResp
  deriving DecidableEq

/-- What the generator keeps for each queue pair besides its window. -/
structure AutoAckGenAtomicUpdateStorageEntry where
  lastEntryReceiveTime : BitVec 32
  ackMsn : BitVec 16
  hasReported : Bool
  deriving DecidableEq, Inhabited

/-- An update with `reqVal` set is reported at once and counted. -/
def atomicUpdateFunction (curTimeReg : BitVec 32) (oldVal : AutoAckGenAtomicUpdateStorageEntry)
    (reqVal isReset : Bool) : AutoAckGenAtomicUpdateStorageEntry :=
  if isReset then
    { oldVal with
      ackMsn := 0
      lastEntryReceiveTime := 0
      hasReported := true }
  else
    { oldVal with
      ackMsn := if reqVal then oldVal.ackMsn + 1 else oldVal.ackMsn
      lastEntryReceiveTime := curTimeReg
      hasReported := reqVal }

/-- The function of the storage. A reset sets every field, whatever the old value is. -/
def ackMetaUpdate (curTimeReg : BitVec 32) : UpdateFunc AutoAckGenAtomicUpdateStorageEntry Bool
    where
  update oldVal reqVal := atomicUpdateFunction curTimeReg oldVal reqVal false
  resetValue := atomicUpdateFunction curTimeReg default false true

structure ThinMacIpUdpMetaDataForSend where
  dstMacAddr : BitVec 48
  ipDscp : BitVec 6
  ipEcn : BitVec 2
  dstIpAddr : BitVec 32
  srcPort : BitVec 16
  dstPort : BitVec 16
  udpPayloadLen : BitVec 16
  ethType : BitVec 16
  deriving DecidableEq

/-- The headers of a packet to be sent. -/
structure RdmaSendPacketMeta where
  bth : Bth
  rdmaExtendHeaderBuf : RdmaExtendHeaderBuffer
  hasPayload : Bool
  deriving DecidableEq

inductive AutoAckGenBackgroundPollingState
  | sendReadReq
  | getReadResp
  | handleResp
  deriving DecidableEq

/-- The window moved past a number that did not arrive, as far as its bits tell. -/
def BitmapWindowStorageUpdateResp.hasPacketLost (resp : BitmapWindowStorageUpdateResp) : Bool :=
  resp.isShiftWindow && resp.windowShiftedOutData != -1

/-- The addresses of a negative acknowledgement. -/
def nakMacIpUdpMeta (qpc : EntryQPC) : ThinMacIpUdpMetaDataForSend where
  dstMacAddr := qpc.peerMacAddr
  ipDscp := 0
  ipEcn := 0
  dstIpAddr := qpc.peerIpAddr
  srcPort := qpc.localUdpPort
  dstPort := 4791
  udpPayloadLen := 54
  ethType := 0x0800

/-- The headers of a negative acknowledgement. -/
def nakPacketMeta (qpc : EntryQPC) (bitmapInfo : BitmapWindowStorageUpdateResp) (msn : BitVec 16) :
    RdmaSendPacketMeta where
  bth :=
    { trans := .rc
      opcode := .acknowledge
      solicited := false
      isRetry := false
      msn := msn
      dqpn := qpc.peerQPN
      ackReq := false
      psn := stridePsn bitmapInfo.newEntry.leftBound }
  rdmaExtendHeaderBuf := buildRdmaExtendHeaderBuffer (Aeth.pack
    { preBitmap := bitmapInfo.oldEntry.data
      newBitmap := bitmapInfo.newEntry.data
      isPacketLost := true
      isWindowSlided := true
      isSendByDriver := false
      preBitmapPsn := stridePsn bitmapInfo.oldEntry.leftBound })
  hasPayload := false

/-- The two descriptors of a negative acknowledgement. -/
def nakDescs (bitmapInfo : BitmapWindowStorageUpdateResp)
    (ackMsnInfo : AtomicUpdateStorageUpdateResp AutoAckGenAtomicUpdateStorageEntry)
    (qpnKeyPart : BitVec 8) : List RingbufRawDescriptor :=
  [.ack
    { commonHeader := ⟨true, .rc, .acknowledge⟩
      isSendByLocalHw := true
      isSendByDriver := false
      isWindowSlided := true
      isPacketLost := true
      psnBeforeSlide := stridePsn bitmapInfo.oldEntry.leftBound
      psnNow := stridePsn bitmapInfo.newEntry.leftBound
      qpn := genQPN ackMsnInfo.rowAddr qpnKeyPart
      msn := ackMsnInfo.oldValue.ackMsn
      nowBitmap := bitmapInfo.newEntry.data },
    .ackExtra
    { commonHeader := ⟨false, .rc, .acknowledge⟩
      preBitmap := bitmapInfo.oldEntry.data }]

/-- The descriptor of a window found by polling. -/
def pollingDesc (pollingQpIdx : BitVec 10) (bitmapInfo : BitmapWindowStorageEntry) :
    RingbufRawDescriptor :=
  .ack
    { commonHeader := ⟨false, .rc, .acknowledge⟩
      isSendByLocalHw := true
      isSendByDriver := false
      isWindowSlided := false
      isPacketLost := false
      psnBeforeSlide := 0
      psnNow := stridePsn bitmapInfo.leftBound
      qpn := genQPN pollingQpIdx bitmapInfo.qpnKeyPart
      msn := 0
      nowBitmap := bitmapInfo.data }

/-- A quiet queue pair with a packet not reported is reported after this many ticks. -/
def autoAckPollingTimeoutTicks : BitVec 32 := 5000

/-! ## The module -/

/-- The state of `mkAutoAckGenerator` with its storages. -/
structure AutoAckGenerator where
  bitmapStorage : BitmapWindowStorage
  autoAckMetaAtomicUpdateStorage : AtomicUpdateStorage AutoAckGenAtomicUpdateStorageEntry Bool
  lastReportTimeStorage : BitVec 10 → BitVec 32
  lastReportTimeReadResp : List (BitVec 32) := []
  curTimeReg : BitVec 32 := 0
  pollingQpIdxReg : BitVec 10 := 0
  bramInitedReg : Bool := false
  bramInitPtrReg : BitVec 10 := 0
  reqPipeInQueue : List AutoAckGeneratorReq := []
  resetReqPipeInQueue : List (BitVec 10) := []
  handleMergedBitmapPipelineQueue : List AutoAckGeneratorToHandleMergedBitmapPipelineEntry := []
  genAutoAckEthPacketPipelineQueue : List AutoAckGeneratorToGenAutoAckEthPacketPipelineEntry := []
  genAutoAckReportDescriptorPipelineQueue : List (BitmapWindowStorageUpdateResp ×
    AtomicUpdateStorageUpdateResp AutoAckGenAtomicUpdateStorageEntry × BitVec 8) := []
  metaReportMimoQueue : List RingbufRawDescriptor := []
  pollingTimeoutDescQueue : List RingbufRawDescriptor := []
  metaReportDescPipeOutQueue : List RingbufRawDescriptor := []
  macIpUdpMetaPipeOutQueue : List ThinMacIpUdpMetaDataForSend := []
  rdmaPacketMetaPipeOutQueue : List RdmaSendPacketMeta := []
  backgroundPollingStateReg : AutoAckGenBackgroundPollingState := .sendReadReq
  pollingQueryRespPipelineReg : BitmapWindowStorageEntry × AutoAckGenAtomicUpdateStorageEntry ×
    BitVec 32 × BitVec 10

namespace AutoAckGenerator

/-- After power-up the memory is cleared row by row. -/
def bramInit (s : AutoAckGenerator) : Option AutoAckGenerator :=
  if s.bramInitedReg then none
  else
    some { s with
      bramInitedReg := s.bramInitPtrReg == BitVec.allOnes 10
      lastReportTimeStorage := Function.update s.lastReportTimeStorage s.bramInitPtrReg 0
      bramInitPtrReg := s.bramInitPtrReg + 1 }

def timerTask (s : AutoAckGenerator) : AutoAckGenerator := { s with curTimeReg := s.curTimeReg + 1 }

/-- A packet is passed to the bitmap storage. -/
def forwardInputReqToPsnBitMapStorage (s : AutoAckGenerator) : Option AutoAckGenerator :=
  match s.reqPipeInQueue with
  | [] => none
  | req :: reqs =>
    some { s with
      reqPipeInQueue := reqs
      bitmapStorage :=
        { s.bitmapStorage with
          reqPipeInQueue := s.bitmapStorage.reqPipeInQueue ++ [⟨req.qpn, req.psn⟩] }
      handleMergedBitmapPipelineQueue := s.handleMergedBitmapPipelineQueue ++ [⟨req.qpn, req.qpc⟩] }

/-- The answer of the bitmap storage tells whether a packet is lost. -/
def handleMergedBitmap (s : AutoAckGenerator) : Option AutoAckGenerator :=
  match s.bitmapStorage.respPipeOutQueue, s.handleMergedBitmapPipelineQueue with
  | resp :: resps, e :: es =>
    some { s with
      bitmapStorage := { s.bitmapStorage with respPipeOutQueue := resps }
      handleMergedBitmapPipelineQueue := es
      autoAckMetaAtomicUpdateStorage :=
        s.autoAckMetaAtomicUpdateStorage.enqReq ⟨resp.rowAddr, resp.hasPacketLost⟩
      genAutoAckEthPacketPipelineQueue :=
        s.genAutoAckEthPacketPipelineQueue ++ [⟨e.qpn, e.qpc, resp⟩] }
  | _, _ => none

/-- A packet whose update is reported at once makes a negative acknowledgement. -/
def genAutoAckEthPacket (s : AutoAckGenerator) : Option AutoAckGenerator :=
  match s.autoAckMetaAtomicUpdateStorage.respPipeOutQueue, s.genAutoAckEthPacketPipelineQueue with
  | ackMsnInfo :: _, e :: es =>
    let s' := { s with
      autoAckMetaAtomicUpdateStorage := s.autoAckMetaAtomicUpdateStorage.deqResp
      genAutoAckEthPacketPipelineQueue := es }
    if ackMsnInfo.newValue.hasReported then
      some { s' with
        macIpUdpMetaPipeOutQueue := s.macIpUdpMetaPipeOutQueue ++ [nakMacIpUdpMeta e.qpc]
        rdmaPacketMetaPipeOutQueue := s.rdmaPacketMetaPipeOutQueue ++
          [nakPacketMeta e.qpc e.bitmapUpdateResp ackMsnInfo.oldValue.ackMsn]
        genAutoAckReportDescriptorPipelineQueue := s.genAutoAckReportDescriptorPipelineQueue ++
          [(e.bitmapUpdateResp, ackMsnInfo, e.qpc.qpnKeyPart)] }
    else some s'
  | _, _ => none

/-- The pair of descriptors of a negative acknowledgement is queued. -/
def genAutoAckReportDescriptor (s : AutoAckGenerator) : Option AutoAckGenerator :=
  match s.genAutoAckReportDescriptorPipelineQueue with
  | [] => none
  | (bitmapInfo, ackMsnInfo, qpnKeyPart) :: es =>
    some { s with
      genAutoAckReportDescriptorPipelineQueue := es
      metaReportMimoQueue := s.metaReportMimoQueue ++ nakDescs bitmapInfo ackMsnInfo qpnKeyPart }

/-- A descriptor of a negative acknowledgement or, if there is none, of the polling is put out. -/
def forwardMetaReportDescToOutput (s : AutoAckGenerator) : Option AutoAckGenerator :=
  match s.metaReportMimoQueue, s.pollingTimeoutDescQueue with
  | desc :: descs, _ =>
    some { s with
      metaReportMimoQueue := descs
      metaReportDescPipeOutQueue := s.metaReportDescPipeOutQueue ++ [desc] }
  | [], desc :: descs =>
    some { s with
      pollingTimeoutDescQueue := descs
      metaReportDescPipeOutQueue := s.metaReportDescPipeOutQueue ++ [desc] }
  | [], [] => none

/-- The polling reads the row of a queue pair in the three memories. -/
def sendPollingReq (s : AutoAckGenerator) : Option AutoAckGenerator :=
  if s.bramInitedReg && s.backgroundPollingStateReg = .sendReadReq then
    some { s with
      bitmapStorage :=
        { s.bitmapStorage with
          readOnlyReqPipeInQueue := s.bitmapStorage.readOnlyReqPipeInQueue ++ [s.pollingQpIdxReg] }
      autoAckMetaAtomicUpdateStorage :=
        s.autoAckMetaAtomicUpdateStorage.enqReadOnly s.pollingQpIdxReg
      lastReportTimeReadResp := s.lastReportTimeReadResp ++
        [s.lastReportTimeStorage s.pollingQpIdxReg]
      backgroundPollingStateReg := .getReadResp }
  else none

/-- The polling takes the three answers. -/
def getPollingResp (s : AutoAckGenerator) : Option AutoAckGenerator :=
  if s.bramInitedReg && s.backgroundPollingStateReg = .getReadResp then
    match s.bitmapStorage.readOnlyRespPipeOutQueue,
      s.autoAckMetaAtomicUpdateStorage.readOnlyRespPipeOutQueue, s.lastReportTimeReadResp with
    | bitmapInfo :: bitmapInfos, ackMeta :: _, lastPollInfo :: lastPollInfos =>
      some { s with
        bitmapStorage := { s.bitmapStorage with readOnlyRespPipeOutQueue := bitmapInfos }
        autoAckMetaAtomicUpdateStorage := s.autoAckMetaAtomicUpdateStorage.deqReadOnlyResp
        lastReportTimeReadResp := lastPollInfos
        backgroundPollingStateReg := .handleResp
        pollingQpIdxReg := s.pollingQpIdxReg + 1
        pollingQueryRespPipelineReg := (bitmapInfo, ackMeta, lastPollInfo, s.pollingQpIdxReg) }
    | _, _, _ => none
  else none

/-- The last packet of the queue pair was not reported and is old enough. -/
def needsReport (s : AutoAckGenerator) (ackMeta : AutoAckGenAtomicUpdateStorageEntry)
    (lastPollInfo : BitVec 32) : Bool :=
  !ackMeta.hasReported && lastPollInfo != ackMeta.lastEntryReceiveTime &&
    decide (s.curTimeReg - ackMeta.lastEntryReceiveTime > autoAckPollingTimeoutTicks)

/-- The polling reports the window of a quiet queue pair. -/
def handlePollingResult (s : AutoAckGenerator) : Option AutoAckGenerator :=
  if s.bramInitedReg && s.backgroundPollingStateReg = .handleResp then
    let (bitmapInfo, ackMeta, lastPollInfo, pollingQpIdx) := s.pollingQueryRespPipelineReg
    let isReport := s.needsReport ackMeta lastPollInfo
    some { s with
      pollingTimeoutDescQueue := s.pollingTimeoutDescQueue ++
        if isReport then [pollingDesc pollingQpIdx bitmapInfo] else []
      lastReportTimeStorage :=
        if isReport || ackMeta.hasReported then
          Function.update s.lastReportTimeStorage pollingQpIdx ackMeta.lastEntryReceiveTime
        else s.lastReportTimeStorage
      backgroundPollingStateReg := .sendReadReq }
  else none

/-- A reset is passed to both storages. -/
def forwardQpResetSignal (s : AutoAckGenerator) : Option AutoAckGenerator :=
  match s.resetReqPipeInQueue with
  | [] => none
  | row :: rows =>
    some { s with
      resetReqPipeInQueue := rows
      bitmapStorage :=
        { s.bitmapStorage with resetReqPipeInQ := s.bitmapStorage.resetReqPipeInQ ++ [row] }
      autoAckMetaAtomicUpdateStorage := s.autoAckMetaAtomicUpdateStorage.enqReset row }

end AutoAckGenerator

/-- What can happen next: a packet or a reset arrives, or a rule of the generator or of a storage
fires. -/
inductive AutoAckLabel
  | request (req : AutoAckGeneratorReq)
  | resetRequest (row : BitVec 10)
  | bitmapStorage (l : BitmapLabel)
  | autoAckMeta (r : AtomicRule)
  | bramInit
  | timerTask
  | forwardInputReqToPsnBitMapStorage
  | handleMergedBitmap
  | genAutoAckEthPacket
  | genAutoAckReportDescriptor
  | forwardMetaReportDescToOutput
  | sendPollingReq
  | getPollingResp
  | handlePollingResult
  | forwardQpResetSignal
  deriving DecidableEq

namespace AutoAckGenerator

/-- A rule of the generator, or a step of its users. -/
def step (s : AutoAckGenerator) : AutoAckLabel → Option AutoAckGenerator
  | .request req => some { s with reqPipeInQueue := s.reqPipeInQueue ++ [req] }
  | .resetRequest row => some { s with resetReqPipeInQueue := s.resetReqPipeInQueue ++ [row] }
  | .bitmapStorage l =>
    if l.isRule then (s.bitmapStorage.step l).map fun b => { s with bitmapStorage := b } else none
  | .autoAckMeta r =>
    (s.autoAckMetaAtomicUpdateStorage.rule (ackMetaUpdate s.curTimeReg) r).map fun m =>
      { s with autoAckMetaAtomicUpdateStorage := m }
  | .bramInit => s.bramInit
  | .timerTask => some s.timerTask
  | .forwardInputReqToPsnBitMapStorage => s.forwardInputReqToPsnBitMapStorage
  | .handleMergedBitmap => s.handleMergedBitmap
  | .genAutoAckEthPacket => s.genAutoAckEthPacket
  | .genAutoAckReportDescriptor => s.genAutoAckReportDescriptor
  | .forwardMetaReportDescToOutput => s.forwardMetaReportDescToOutput
  | .sendPollingReq => s.sendPollingReq
  | .getPollingResp => s.getPollingResp
  | .handlePollingResult => s.handlePollingResult
  | .forwardQpResetSignal => s.forwardQpResetSignal

/-- The state after power-up: the memories and the register of the polling have any content. -/
def Initial (s : AutoAckGenerator) : Prop :=
  s.bitmapStorage.Initial ∧ s.autoAckMetaAtomicUpdateStorage.Initial ∧
    s = { bitmapStorage := s.bitmapStorage
          autoAckMetaAtomicUpdateStorage := s.autoAckMetaAtomicUpdateStorage
          lastReportTimeStorage := s.lastReportTimeStorage
          pollingQueryRespPipelineReg := s.pollingQueryRespPipelineReg }

end AutoAckGenerator

/-! ## The rules, inverted -/

namespace AutoAckGenerator

variable {s s' : AutoAckGenerator} {l : AutoAckLabel}

/-- What a step does, one case for each rule. -/
inductive Fires (s : AutoAckGenerator) : AutoAckLabel → AutoAckGenerator → Prop
  | request (req) : Fires s (.request req) { s with reqPipeInQueue := s.reqPipeInQueue ++ [req] }
  | resetRequest (row) : Fires s (.resetRequest row) { s with
      resetReqPipeInQueue := s.resetReqPipeInQueue ++ [row] }
  | bitmapStorage {l b} (hl : l.isRule) (hb : s.bitmapStorage.step l = some b) :
      Fires s (.bitmapStorage l) { s with bitmapStorage := b }
  | autoAckMeta {r m} (hm : s.autoAckMetaAtomicUpdateStorage.rule (ackMetaUpdate s.curTimeReg) r =
      some m) : Fires s (.autoAckMeta r) { s with autoAckMetaAtomicUpdateStorage := m }
  | bramInit (hinit : s.bramInitedReg = false) : Fires s .bramInit { s with
      bramInitedReg := s.bramInitPtrReg == BitVec.allOnes 10
      lastReportTimeStorage := Function.update s.lastReportTimeStorage s.bramInitPtrReg 0
      bramInitPtrReg := s.bramInitPtrReg + 1 }
  | timerTask : Fires s .timerTask s.timerTask
  | forwardInputReq {req reqs} (hreq : s.reqPipeInQueue = req :: reqs) :
      Fires s .forwardInputReqToPsnBitMapStorage { s with
        reqPipeInQueue := reqs
        bitmapStorage :=
          { s.bitmapStorage with
            reqPipeInQueue := s.bitmapStorage.reqPipeInQueue ++ [⟨req.qpn, req.psn⟩] }
        handleMergedBitmapPipelineQueue := s.handleMergedBitmapPipelineQueue ++
          [⟨req.qpn, req.qpc⟩] }
  | handleMergedBitmap {resp resps e es} (hresp : s.bitmapStorage.respPipeOutQueue = resp :: resps)
      (he : s.handleMergedBitmapPipelineQueue = e :: es) : Fires s .handleMergedBitmap { s with
        bitmapStorage := { s.bitmapStorage with respPipeOutQueue := resps }
        handleMergedBitmapPipelineQueue := es
        autoAckMetaAtomicUpdateStorage :=
          s.autoAckMetaAtomicUpdateStorage.enqReq ⟨resp.rowAddr, resp.hasPacketLost⟩
        genAutoAckEthPacketPipelineQueue := s.genAutoAckEthPacketPipelineQueue ++
          [⟨e.qpn, e.qpc, resp⟩] }
  | genNak {info infos e es} (hinfo : s.autoAckMetaAtomicUpdateStorage.respPipeOutQueue =
      info :: infos) (he : s.genAutoAckEthPacketPipelineQueue = e :: es) (hr :
      info.newValue.hasReported = true) : Fires s .genAutoAckEthPacket { s with
        autoAckMetaAtomicUpdateStorage := s.autoAckMetaAtomicUpdateStorage.deqResp
        genAutoAckEthPacketPipelineQueue := es
        macIpUdpMetaPipeOutQueue := s.macIpUdpMetaPipeOutQueue ++ [nakMacIpUdpMeta e.qpc]
        rdmaPacketMetaPipeOutQueue := s.rdmaPacketMetaPipeOutQueue ++
          [nakPacketMeta e.qpc e.bitmapUpdateResp info.oldValue.ackMsn]
        genAutoAckReportDescriptorPipelineQueue := s.genAutoAckReportDescriptorPipelineQueue ++
          [(e.bitmapUpdateResp, info, e.qpc.qpnKeyPart)] }
  | genNothing {info infos e es} (hinfo : s.autoAckMetaAtomicUpdateStorage.respPipeOutQueue =
      info :: infos) (he : s.genAutoAckEthPacketPipelineQueue = e :: es) (hr :
      info.newValue.hasReported = false) : Fires s .genAutoAckEthPacket { s with
        autoAckMetaAtomicUpdateStorage := s.autoAckMetaAtomicUpdateStorage.deqResp
        genAutoAckEthPacketPipelineQueue := es }
  | genAutoAckReportDescriptor {e es} (he : s.genAutoAckReportDescriptorPipelineQueue = e :: es) :
      Fires s .genAutoAckReportDescriptor { s with
        genAutoAckReportDescriptorPipelineQueue := es
        metaReportMimoQueue := s.metaReportMimoQueue ++ nakDescs e.1 e.2.1 e.2.2 }
  | forwardNakDesc {desc descs} (hq : s.metaReportMimoQueue = desc :: descs) :
      Fires s .forwardMetaReportDescToOutput { s with
        metaReportMimoQueue := descs
        metaReportDescPipeOutQueue := s.metaReportDescPipeOutQueue ++ [desc] }
  | forwardPollingDesc {desc descs} (hnil : s.metaReportMimoQueue = [])
      (hq : s.pollingTimeoutDescQueue = desc :: descs) :
      Fires s .forwardMetaReportDescToOutput { s with
        pollingTimeoutDescQueue := descs
        metaReportDescPipeOutQueue := s.metaReportDescPipeOutQueue ++ [desc] }
  | sendPollingReq (hinit : s.bramInitedReg = true) (hstate : s.backgroundPollingStateReg =
      .sendReadReq) : Fires s .sendPollingReq { s with
        bitmapStorage :=
          { s.bitmapStorage with
            readOnlyReqPipeInQueue := s.bitmapStorage.readOnlyReqPipeInQueue ++
              [s.pollingQpIdxReg] }
        autoAckMetaAtomicUpdateStorage := s.autoAckMetaAtomicUpdateStorage.enqReadOnly
          s.pollingQpIdxReg
        lastReportTimeReadResp := s.lastReportTimeReadResp ++
          [s.lastReportTimeStorage s.pollingQpIdxReg]
        backgroundPollingStateReg := .getReadResp }
  | getPollingResp {bitmapInfo bitmapInfos ackMeta ackMetas lastPollInfo lastPollInfos}
      (hinit : s.bramInitedReg = true) (hstate : s.backgroundPollingStateReg = .getReadResp)
      (hbitmap : s.bitmapStorage.readOnlyRespPipeOutQueue = bitmapInfo :: bitmapInfos)
      (hmeta : s.autoAckMetaAtomicUpdateStorage.readOnlyRespPipeOutQueue = ackMeta :: ackMetas)
      (hlast : s.lastReportTimeReadResp = lastPollInfo :: lastPollInfos) :
      Fires s .getPollingResp { s with
        bitmapStorage := { s.bitmapStorage with readOnlyRespPipeOutQueue := bitmapInfos }
        autoAckMetaAtomicUpdateStorage := s.autoAckMetaAtomicUpdateStorage.deqReadOnlyResp
        lastReportTimeReadResp := lastPollInfos
        backgroundPollingStateReg := .handleResp
        pollingQpIdxReg := s.pollingQpIdxReg + 1
        pollingQueryRespPipelineReg := (bitmapInfo, ackMeta, lastPollInfo, s.pollingQpIdxReg) }
  | handlePollingResult {bitmapInfo ackMeta lastPollInfo pollingQpIdx lastReportTimeStorage}
      (hinit : s.bramInitedReg = true) (hstate : s.backgroundPollingStateReg = .handleResp)
      (hreg : s.pollingQueryRespPipelineReg = (bitmapInfo, ackMeta, lastPollInfo, pollingQpIdx)) :
      Fires s .handlePollingResult { s with
        pollingTimeoutDescQueue := s.pollingTimeoutDescQueue ++
          if s.needsReport ackMeta lastPollInfo then [pollingDesc pollingQpIdx bitmapInfo] else []
        lastReportTimeStorage := lastReportTimeStorage
        backgroundPollingStateReg := .sendReadReq }
  | forwardQpResetSignal {row rows} (hrow : s.resetReqPipeInQueue = row :: rows) :
      Fires s .forwardQpResetSignal { s with
        resetReqPipeInQueue := rows
        bitmapStorage := { s.bitmapStorage with
          resetReqPipeInQ := s.bitmapStorage.resetReqPipeInQ ++ [row] }
        autoAckMetaAtomicUpdateStorage := s.autoAckMetaAtomicUpdateStorage.enqReset row }

theorem fires_genAutoAckEthPacket (h : s.genAutoAckEthPacket = some s') :
    Fires s .genAutoAckEthPacket s' := by
  unfold genAutoAckEthPacket at h
  split at h
  next info infos e es hinfo he =>
    by_cases hr : info.newValue.hasReported = true
    · rw [if_pos hr] at h
      cases h
      exact .genNak hinfo he hr
    · rw [if_neg hr] at h
      cases h
      exact .genNothing hinfo he (Bool.not_eq_true _ ▸ hr)
  · cases h

theorem fires_polling (h : s.step l = some s')
    (hl : l = .sendPollingReq ∨ l = .getPollingResp ∨ l = .handlePollingResult) : Fires s l s' := by
  rcases hl with rfl | rfl | rfl
  all_goals
    obtain ⟨hc, h⟩ := ite_none_right_eq_some.1 h
    simp only [Bool.and_eq_true, decide_eq_true_eq] at hc
  · cases h
    exact .sendPollingReq hc.1 hc.2
  · split at h
    next hbitmap hmeta hlast =>
      cases h
      exact .getPollingResp hc.1 hc.2 hbitmap hmeta hlast
    · cases h
  · cases h
    exact .handlePollingResult hc.1 hc.2 rfl

theorem fires_of_step (h : s.step l = some s') : Fires s l s' := by
  cases l with
  | request | resetRequest | timerTask =>
    cases h
    constructor
  | bitmapStorage l =>
    obtain ⟨hl, h⟩ := ite_none_right_eq_some.1 h
    obtain ⟨b, hb, rfl⟩ := map_eq_some_iff.1 h
    exact .bitmapStorage hl hb
  | autoAckMeta r =>
    obtain ⟨m, hm, rfl⟩ := map_eq_some_iff.1 h
    exact .autoAckMeta hm
  | bramInit =>
    obtain ⟨hi, h⟩ := ite_none_left_eq_some.1 h
    cases h
    exact .bramInit (Bool.not_eq_true _ ▸ hi)
  | forwardInputReqToPsnBitMapStorage =>
    rw [step, forwardInputReqToPsnBitMapStorage] at h
    split at h
    · cases h
    next hreq =>
      cases h
      exact .forwardInputReq hreq
  | handleMergedBitmap =>
    rw [step, AutoAckGenerator.handleMergedBitmap] at h
    split at h
    next hresp he =>
      cases h
      exact .handleMergedBitmap hresp he
    · cases h
  | genAutoAckEthPacket => exact fires_genAutoAckEthPacket h
  | genAutoAckReportDescriptor =>
    rw [step, AutoAckGenerator.genAutoAckReportDescriptor] at h
    split at h
    · cases h
    next bitmapInfo ackMsnInfo qpnKeyPart es he =>
      cases h
      exact .genAutoAckReportDescriptor (e := (bitmapInfo, ackMsnInfo, qpnKeyPart)) he
  | forwardMetaReportDescToOutput =>
    rw [step, forwardMetaReportDescToOutput] at h
    split at h
    next hq =>
      cases h
      exact .forwardNakDesc hq
    next hnil hq =>
      cases h
      exact .forwardPollingDesc hnil hq
    · cases h
  | sendPollingReq | getPollingResp | handlePollingResult => exact fires_polling h (by simp)
  | forwardQpResetSignal =>
    rw [step, AutoAckGenerator.forwardQpResetSignal] at h
    split at h
    · cases h
    next hrow =>
      cases h
      exact .forwardQpResetSignal hrow

theorem bitmapStorage_eq {l : BitmapLabel} (h : s.step (.bitmapStorage l) = some s') :
    l.isRule ∧ ∃ b, s.bitmapStorage.step l = some b ∧ s' = { s with bitmapStorage := b } := by
  cases fires_of_step h with
  | bitmapStorage hl hb => exact ⟨hl, _, hb, rfl⟩

theorem genAutoAckEthPacket_eq (h : s.step .genAutoAckEthPacket = some s') :
    ∃ info infos e es, s.autoAckMetaAtomicUpdateStorage.respPipeOutQueue = info :: infos ∧
      s.genAutoAckEthPacketPipelineQueue = e :: es ∧ s'.bitmapStorage = s.bitmapStorage ∧
      s'.autoAckMetaAtomicUpdateStorage = s.autoAckMetaAtomicUpdateStorage.deqResp ∧
      s'.genAutoAckEthPacketPipelineQueue = es ∧
      s'.handleMergedBitmapPipelineQueue = s.handleMergedBitmapPipelineQueue := by
  cases fires_of_step h with
  | genNak hinfo he | genNothing hinfo he => exact ⟨_, _, _, _, hinfo, he, rfl, rfl, rfl, rfl⟩

/-- What the bitmap storage does in a step of the generator. -/
def bitmapLabel (s : AutoAckGenerator) : AutoAckLabel → Option BitmapLabel
  | .bitmapStorage l => some l
  | .forwardInputReqToPsnBitMapStorage => s.reqPipeInQueue.head?.map fun req =>
    .update ⟨req.qpn, req.psn⟩
  | .handleMergedBitmap => some .takeResp
  | .sendPollingReq => some (.readOnly s.pollingQpIdxReg)
  | .getPollingResp => some .takeReadOnlyResp
  | .forwardQpResetSignal => s.resetReqPipeInQueue.head?.map .reset
  | _ => none

theorem bitmapStorage_step (h : s.step l = some s') :
    (s.bitmapLabel l).elim (s'.bitmapStorage = s.bitmapStorage) fun l =>
      s.bitmapStorage.step l = some s'.bitmapStorage := by
  cases fires_of_step h with
  | bitmapStorage _ hb => exact hb
  | forwardInputReq hreq =>
    rw [bitmapLabel, hreq]
    rfl
  | handleMergedBitmap hresp =>
    change s.bitmapStorage.takeResp = _
    rw [BitmapWindowStorage.takeResp, hresp]
  | getPollingResp _ _ hinfo =>
    change s.bitmapStorage.takeReadOnlyResp = _
    rw [BitmapWindowStorage.takeReadOnlyResp, hinfo]
  | forwardQpResetSignal hrow =>
    rw [bitmapLabel, hrow]
    rfl
  | _ => rfl

end AutoAckGenerator

/-! ## Histories -/

/-- An update of a window: the request, the numbers merged before, and the window it was merged
into. -/
structure Update where
  req : BitmapWindowStorageUpdateReq
  received : List ℤ
  old : BitmapWindowStorageEntry

namespace Update

/-- The row of the window. -/
def rowAddr (u : Update) : BitVec 10 := getIndexQP u.req.qpn

/-- The number merged. -/
def number (u : Update) : ℤ := countPsn u.received u.req.psn

/-- The answer of the bitmap storage. -/
def resp (u : Update) : BitmapWindowStorageUpdateResp :=
  updateResp u.old (oneHotEntry u.req) u.rowAddr

/-- The update is reported. -/
def lost (u : Update) : Bool := u.resp.hasPacketLost

end Update

/-- The update the bitmap storage merges next, if that is not a reset. -/
def nextUpdate (s : BitmapWindowStorage) (h : BitmapHistory) : Option Update :=
  s.stageOneToTwoPipelineQueue.head?.bind fun e =>
    if e.isReset then none
    else
      h.requests[h.responses.length]?.map fun req =>
        ⟨req, countPsns (h.handled (getIndexQP req.qpn)), s.storage (getIndexQP req.qpn)⟩

/-- The history of the generator: that of its bitmap storage, the packets passed to it, the updates
it merged, how many of them were looked at for a negative acknowledgement, and the negative
acknowledgements whose descriptors were queued. -/
structure AutoAckHistory where
  bitmap : BitmapHistory := {}
  forwarded : List AutoAckGeneratorReq := []
  updates : List Update := []
  done : ℕ := 0
  reported : List (BitmapWindowStorageUpdateResp ×
    AtomicUpdateStorageUpdateResp AutoAckGenAtomicUpdateStorageEntry × BitVec 8) := []

def AutoAckHistory.record (h : AutoAckHistory) (s : AutoAckGenerator) (l : AutoAckLabel) :
    AutoAckHistory :=
  let h' := { h with bitmap := (s.bitmapLabel l).elim h.bitmap (h.bitmap.record s.bitmapStorage) }
  match l with
  | .bitmapStorage .getBramQueryRespAndMergeThem =>
    { h' with updates := h.updates ++ (nextUpdate s.bitmapStorage h.bitmap).toList }
  | .forwardInputReqToPsnBitMapStorage =>
    { h' with forwarded := h.forwarded ++ s.reqPipeInQueue.head?.toList }
  | .genAutoAckEthPacket => { h' with done := h.done + 1 }
  | .genAutoAckReportDescriptor =>
    { h' with reported := h.reported ++ s.genAutoAckReportDescriptorPipelineQueue.head?.toList }
  | _ => h'

def autoAckStep (w : AutoAckGenerator × AutoAckHistory) (l : AutoAckLabel) :
    Option (AutoAckGenerator × AutoAckHistory) :=
  (w.1.step l).map fun s' => (s', w.2.record w.1 l)

end OpenRdma.Rtl
