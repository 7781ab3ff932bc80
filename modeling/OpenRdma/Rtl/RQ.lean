import OpenRdma.Rtl.FrameIO

/-!
# The receive queue

The pipeline of the receive queue. A packet is parsed and its queue pair context and memory region
are queried; the answers are checked in three stages; then its payload is either written to memory
by a request to the payload consumer or discarded, and the packet is reported. The tables answer
every query with their content, in order. A value the hardware leaves undefined is a field of
`DontCare`.
-/

namespace OpenRdma.Rtl

/-! ## Entries of the pipeline -/

structure CheckQpcAndMrTablePipelineEntry where
  rdmaPacketMeta : RdmaRecvPacketMeta
  packetStatus : RdmaRecvPacketStatus
  isNeedQueryMrTable : Bool
  isZeroPayload : Bool
  isFirstPacket : Bool
  peerMacIpUdpMeta : ThinMacIpUdpMetaDataForRecv
  deriving DecidableEq

/-- A packet with its context and memory region, in the second and third stages of the check. -/
structure CheckMrTablePipelineEntry where
  rdmaPacketMeta : RdmaRecvPacketMeta
  packetStatus : RdmaRecvPacketStatus
  isNeedQueryMrTable : Bool
  isZeroPayload : Bool
  mrEntry : MemRegionTableEntry
  qpc : EntryQPC
  isMrLowerAddrBoundOk : Bool
  zerobasedExpectedPayloadBeatNum : BitVec 8
  packetLen : BitVec 32
  deltaLen : BitVec 33
  peerMacIpUdpMeta : ThinMacIpUdpMetaDataForRecv
  deriving DecidableEq

structure CheckedPipelineEntry where
  rdmaPacketMeta : RdmaRecvPacketMeta
  packetStatus : RdmaRecvPacketStatus
  isNeedQueryMrTable : Bool
  isZeroPayload : Bool
  mrEntry : MemRegionTableEntry
  qpc : EntryQPC
  zerobasedExpectedPayloadBeatNum : BitVec 8
  packetLen : BitVec 32
  peerMacIpUdpMeta : ThinMacIpUdpMetaDataForRecv
  deriving DecidableEq

structure PayloadConReq where
  addr : BitVec 64
  len : BitVec 32
  baseVA : BitVec 64
  pgtOffset : BitVec 17
  deriving DecidableEq

/-- A request to mark a sequence number as received. -/
structure AutoAckGeneratorReq where
  psn : BitVec 24
  qpn : BitVec 24
  qpc : EntryQPC
  deriving DecidableEq

/-- A request to notify the sender of congestion. -/
structure CnpPacketGenReq where
  peerAddrInfo : ThinMacIpUdpMetaDataForRecv
  peerQpn : BitVec 24
  peerMsn : BitVec 16
  localUdpPort : BitVec 16
  deriving DecidableEq

/-- Undefined values of the hardware. -/
structure DontCare where
  mrEntry : MemRegionTableEntry := default
  qpc : EntryQPC := default
  packetLen : BitVec 32 := 0
  zerobasedExpectedPayloadBeatNum : BitVec 8 := 0
  deltaLen : BitVec 33 := 0

/-! ## What the stages compute -/

/-- The memory region of the packet is queried. -/
def RdmaRecvPacketMeta.isNeedQueryMrTable (m : RdmaRecvPacketMeta) : Bool :=
  (m.bth.opcode.rdmaRespNeedDmaWrite || m.bth.opcode.rdmaReqNeedDmaWrite) && !(m.reth.dlen == 0)

/-- The entry of a packet before its checks. An index beyond its table is an error. -/
def parseEntry (m : RdmaRecvPacketMeta) (peer : ThinMacIpUdpMetaDataForRecv) :
    CheckQpcAndMrTablePipelineEntry where
  rdmaPacketMeta := m
  packetStatus :=
    if (getQpnRawIndexPart m.bth.dqpn).toNat ≥ maxQp then .qpIdxOverflow
    else if m.isNeedQueryMrTable ∧ (getMrRawIndexPartFromRkey m.reth.rkey).toNat ≥ maxMr then
      .mrIdxOverflow
    else .normal
  isNeedQueryMrTable := m.isNeedQueryMrTable
  isZeroPayload := m.reth.dlen == 0
  isFirstPacket := m.bth.opcode.isFirstRdmaOpCode
  peerMacIpUdpMeta := peer

/-- What the queue pair must allow. -/
def qpAccessFlag (opcode : RdmaOpCode) : Option MemAccessTypeFlag :=
  match opcode.isSendReqRdmaOpCode || opcode.isWriteReqRdmaOpCode, opcode.isReadReqRdmaOpCode,
    opcode.isAtomicReqRdmaOpCode, opcode.isReadRespRdmaOpCode with
  | true, false, false, false => some .remoteWrite
  | false, true, false, false => some .remoteRead
  | false, false, true, false => some .remoteAtomic
  | false, false, false, true => some .localWrite
  | _, _, _, _ => none

/-- What the memory region must allow. -/
def mrAccessFlag (opcode : RdmaOpCode) : MemAccessTypeFlag :=
  match opcode.isSendReqRdmaOpCode, opcode.isReadReqRdmaOpCode,
    opcode.isWriteReqRdmaOpCode || opcode.isReadRespRdmaOpCode, opcode.isAtomicReqRdmaOpCode with
  | true, false, false, false => .localWrite
  | false, true, false, false => .remoteRead
  | false, false, true, false => .remoteWrite
  | false, false, false, true => .remoteAtomic
  | _, _, _, _ => .localWrite

/-- The length of the first packet of several: it ends at a multiple of the path MTU. -/
def calculatedFirstPacketLen (pmtu : BitVec 3) (va : BitVec 64) : BitVec 32 :=
  let pmtuByteSize := (1 : BitVec 32) <<< getPmtuSizeByPmtuEnum pmtu
  pmtuByteSize - (va &&& (pmtuByteSize - 1).signExtend 64).setWidth 32

/-- The length of the payload of a packet. -/
def packetLen (pmtu : BitVec 3) (isFirstPacket : Bool) (reth : Reth) : BitVec 32 :=
  if isFirstPacket then calculatedFirstPacketLen pmtu reth.va else reth.dlen

/-- The number of beats of the payload, less one. -/
def zerobasedExpectedPayloadBeatNum (va : BitVec 64) (packetLen : BitVec 32) : BitVec 8 :=
  let endAddr := va + packetLen.setWidth 64 - 1
  let startAddrAsDwordOffset := (va >>> 2).setWidth 16
  let endAddrAsDwordOffset := (endAddr >>> 2).setWidth 16
  ((endAddrAsDwordOffset - startAddrAsDwordOffset) >>> 3).setWidth 8

namespace CheckQpcAndMrTablePipelineEntry

variable (e : CheckQpcAndMrTablePipelineEntry) (qpcMaybe : Option EntryQPC)
  (mrEntryMaybe : Option MemRegionTableEntry)

/-- The context has the key of the packet's queue pair number. -/
def isQpKeyCheckPass : Bool :=
  qpcMaybe.any fun qpc => getKeyQP e.rdmaPacketMeta.bth.dqpn == qpc.qpnKeyPart

/-- The queue pair allows what the packet does. -/
def isQpAccCheckPass : Bool :=
  qpcMaybe.any fun qpc =>
    !e.isNeedQueryMrTable ||
      (qpAccessFlag e.rdmaPacketMeta.bth.opcode).any (containAccessTypeFlag qpc.rqAccessFlags)

/-- The memory region has the packet's key. -/
def isMrKeyCheckPass : Bool :=
  qpcMaybe.isSome && (!e.isNeedQueryMrTable ||
    mrEntryMaybe.any fun mrEntry => rkey2KeyPartMR e.rdmaPacketMeta.reth.rkey == mrEntry.keyPart)

/-- The memory region allows what the packet does. -/
def isMrAccCheckPass : Bool :=
  qpcMaybe.isSome && (!e.isNeedQueryMrTable ||
    mrEntryMaybe.any fun mrEntry =>
      containAccessTypeFlag mrEntry.accFlags (mrAccessFlag e.rdmaPacketMeta.bth.opcode))

def mrEntry : Option MemRegionTableEntry :=
  if qpcMaybe.isSome && e.isNeedQueryMrTable then mrEntryMaybe else none

def packetLen : Option (BitVec 32) :=
  qpcMaybe.map fun qpc => Rtl.packetLen qpc.pmtu e.isFirstPacket e.rdmaPacketMeta.reth

end CheckQpcAndMrTablePipelineEntry

/-- The first check of a packet, with the answers of the tables. Without a context nothing is
checked, and the answer about the memory region is not looked at. -/
def checkEntry (u : DontCare) (e : CheckQpcAndMrTablePipelineEntry) (qpcMaybe : Option EntryQPC)
    (mrEntryMaybe : Option MemRegionTableEntry) : CheckMrTablePipelineEntry where
  rdmaPacketMeta := e.rdmaPacketMeta
  packetStatus :=
    if e.packetStatus.isRecvPacketStatusNormal then
      if !e.isQpKeyCheckPass qpcMaybe then .invalidQpContext
      else if !e.isQpAccCheckPass qpcMaybe then .invalidQpAccessFlag
      else if !e.isMrKeyCheckPass qpcMaybe mrEntryMaybe then .invalidMrKey
      else if !e.isMrAccCheckPass qpcMaybe mrEntryMaybe then .invalidMrAccessFlag
      else e.packetStatus
    else e.packetStatus
  isNeedQueryMrTable := e.isNeedQueryMrTable
  isZeroPayload := e.isZeroPayload
  mrEntry := (e.mrEntry qpcMaybe mrEntryMaybe).getD u.mrEntry
  qpc := qpcMaybe.getD u.qpc
  isMrLowerAddrBoundOk :=
    (e.mrEntry qpcMaybe mrEntryMaybe).any fun mrEntry => mrEntry.baseVA ≤ e.rdmaPacketMeta.reth.va
  zerobasedExpectedPayloadBeatNum :=
    ((e.packetLen qpcMaybe).map (zerobasedExpectedPayloadBeatNum e.rdmaPacketMeta.reth.va)).getD
      u.zerobasedExpectedPayloadBeatNum
  packetLen := (e.packetLen qpcMaybe).getD u.packetLen
  deltaLen :=
    ((e.mrEntry qpcMaybe mrEntryMaybe).map fun mrEntry =>
      e.rdmaPacketMeta.reth.va.setWidth 33 - mrEntry.baseVA.setWidth 33).getD u.deltaLen
  peerMacIpUdpMeta := e.peerMacIpUdpMeta

/-- The second stage: the end of the payload, counted from the start of the region. -/
def checkMrTableStep2Entry (e : CheckMrTablePipelineEntry) : CheckMrTablePipelineEntry :=
  { e with deltaLen := e.deltaLen + e.packetLen.setWidth 33 }

/-- The third stage: the bounds of the region, and the number of beats of the payload, of which
`beatCnt` were counted. -/
def checkMrTableStep3Entry (e : CheckMrTablePipelineEntry) (beatCnt : BitVec 8) :
    CheckedPipelineEntry where
  rdmaPacketMeta := e.rdmaPacketMeta
  packetStatus :=
    if e.packetStatus.isRecvPacketStatusNormal && e.isNeedQueryMrTable then
      if !(e.isMrLowerAddrBoundOk && e.deltaLen ≤
        e.mrEntry.len.setWidth 33) then .memAccessOutOfBound
      else if e.rdmaPacketMeta.hasPayload && !(beatCnt -
        1 == e.zerobasedExpectedPayloadBeatNum) then
        .corruptPktLength
      else e.packetStatus
    else e.packetStatus
  isNeedQueryMrTable := e.isNeedQueryMrTable
  isZeroPayload := e.isZeroPayload
  mrEntry := e.mrEntry
  qpc := e.qpc
  zerobasedExpectedPayloadBeatNum := e.zerobasedExpectedPayloadBeatNum
  packetLen := e.packetLen
  peerMacIpUdpMeta := e.peerMacIpUdpMeta

namespace CheckedPipelineEntry

/-- The packet failed a check. -/
def isDiscard (e : CheckedPipelineEntry) : Bool := !e.packetStatus.isRecvPacketStatusNormal

/-- The request to write the payload to memory. -/
def payloadConReq (e : CheckedPipelineEntry) : PayloadConReq where
  addr := e.rdmaPacketMeta.reth.va
  len := e.packetLen
  baseVA := e.mrEntry.baseVA
  pgtOffset := e.mrEntry.pgtOffset

/-- The packet marks its sequence number as received. -/
def needUpdatePsnBitmap (e : CheckedPipelineEntry) : Bool :=
  e.rdmaPacketMeta.bth.opcode.isOnlyWithImm || e.rdmaPacketMeta.hasPayload

/-- The request to mark the sequence number. -/
def autoAckReq (e : CheckedPipelineEntry) : AutoAckGeneratorReq :=
  ⟨e.rdmaPacketMeta.bth.psn, e.rdmaPacketMeta.bth.dqpn, e.qpc⟩

/-- The request to notify the sender of congestion. -/
def cnpReq (e : CheckedPipelineEntry) : CnpPacketGenReq :=
  ⟨e.peerMacIpUdpMeta, e.qpc.peerQPN, e.rdmaPacketMeta.bth.msn, e.qpc.localUdpPort⟩

end CheckedPipelineEntry

/-! ## Rules -/

/-- The FIFOs of the receive queue. Those of requests to other modules and of reports are only
written. -/
structure RQ where
  packetParser : PacketParse
  qpcReq : List (BitVec 24) := []
  qpcResp : List (Option EntryQPC) := []
  mrReq : List (BitVec 13) := []
  mrResp : List (Option MemRegionTableEntry) := []
  checkQpcAndMrTablePipe : List CheckQpcAndMrTablePipelineEntry := []
  checkMrTableStep2Pipe : List CheckMrTablePipelineEntry := []
  checkMrTableStep3Pipe : List CheckMrTablePipelineEntry := []
  issuePayloadConReqOrDiscardPipe : List CheckedPipelineEntry := []
  handleConRespPipe : List CheckedPipelineEntry := []
  filterCmd : List Bool := []
  conReqOut : List PayloadConReq := []
  conRespIn : List Bool := []
  filteredDataStreamForConsume : List DataStream := []
  handleGenMetaReportQueueDescPipe : List RdmaRecvPacketMeta := []
  autoAckGenReqOut : List AutoAckGeneratorReq := []
  genCnpReqOut : List CnpPacketGenReq := []
  deriving DecidableEq

namespace RQ

/-- A packet is parsed and its queries are sent. -/
def sendQpcQueryReqAndSomeSimpleParse (s : RQ) : Option RQ :=
  match s.packetParser.rdmaPacketMetaOut, s.packetParser.rdmaMacIpUdpMetaOut with
  | m :: metas, peer :: peers =>
    some { s with
      packetParser := { s.packetParser with rdmaPacketMetaOut := metas, rdmaMacIpUdpMetaOut := peers }
      qpcReq := s.qpcReq ++ [m.bth.dqpn]
      mrReq := s.mrReq ++ if m.isNeedQueryMrTable then [rkey2IndexMR m.reth.rkey] else []
      checkQpcAndMrTablePipe := s.checkQpcAndMrTablePipe ++ [parseEntry m peer] }
  | _, _ => none

def answerQpc (t : Tables) (s : RQ) : Option RQ :=
  match s.qpcReq with
  | [] => none
  | qpn :: qpns => some { s with qpcReq := qpns, qpcResp := s.qpcResp ++ [t.queryQpc qpn] }

def answerMr (t : Tables) (s : RQ) : Option RQ :=
  match s.mrReq with
  | [] => none
  | idx :: idxs => some { s with mrReq := idxs, mrResp := s.mrResp ++ [t.mr idx] }

/-- The answer about the memory region is taken only for a packet that needs it and has a
context. -/
def checkQpcAndMrTable (u : DontCare) (s : RQ) : Option RQ :=
  match s.checkQpcAndMrTablePipe, s.qpcResp with
  | e :: es, qpcMaybe :: qpcs =>
    if qpcMaybe.isSome && e.isNeedQueryMrTable then
      match s.mrResp with
      | [] => none
      | mrEntryMaybe :: mrs =>
        some { s with
          checkQpcAndMrTablePipe := es
          qpcResp := qpcs
          mrResp := mrs
          checkMrTableStep2Pipe := s.checkMrTableStep2Pipe ++
            [checkEntry u e qpcMaybe mrEntryMaybe] }
    else
      some { s with
        checkQpcAndMrTablePipe := es
        qpcResp := qpcs
        checkMrTableStep2Pipe := s.checkMrTableStep2Pipe ++ [checkEntry u e qpcMaybe none] }
  | _, _ => none

def checkMrTableStep2 (s : RQ) : Option RQ :=
  match s.checkMrTableStep2Pipe with
  | [] => none
  | e :: es =>
    some { s with
      checkMrTableStep2Pipe := es
      checkMrTableStep3Pipe := s.checkMrTableStep3Pipe ++ [checkMrTableStep2Entry e] }

/-- The third stage takes the number of beats of a packet with payload. -/
def checkMrTableStep3 (s : RQ) : Option RQ :=
  match s.checkMrTableStep3Pipe with
  | [] => none
  | e :: es =>
    if e.rdmaPacketMeta.hasPayload then
      match s.packetParser.rdmaPacketTailMetaOut with
      | [] => none
      | beatCnt :: beatCnts =>
        some { s with
          packetParser := { s.packetParser with rdmaPacketTailMetaOut := beatCnts }
          checkMrTableStep3Pipe := es
          issuePayloadConReqOrDiscardPipe :=
            s.issuePayloadConReqOrDiscardPipe ++ [checkMrTableStep3Entry e beatCnt] }
    else
      some { s with
        checkMrTableStep3Pipe := es
        issuePayloadConReqOrDiscardPipe :=
          s.issuePayloadConReqOrDiscardPipe ++ [checkMrTableStep3Entry e 0] }

/-- The payload of a packet is written or discarded. -/
def issuePayloadConReqOrDiscard (s : RQ) : Option RQ :=
  match s.issuePayloadConReqOrDiscardPipe with
  | [] => none
  | e :: es =>
    some { s with
      issuePayloadConReqOrDiscardPipe := es
      filterCmd := s.filterCmd ++ if e.rdmaPacketMeta.hasPayload then [e.isDiscard] else []
      conReqOut := s.conReqOut ++
        if e.rdmaPacketMeta.hasPayload && !e.isDiscard then [e.payloadConReq] else []
      handleConRespPipe := s.handleConRespPipe ++ [e] }

/-- A packet whose payload is written, if it has one, is reported. -/
def handleConResp (s : RQ) : Option RQ :=
  match s.handleConRespPipe with
  | [] => none
  | e :: es =>
    let s' := { s with
      handleConRespPipe := es
      handleGenMetaReportQueueDescPipe := s.handleGenMetaReportQueueDescPipe ++
        if e.isDiscard then [] else [e.rdmaPacketMeta]
      autoAckGenReqOut := s.autoAckGenReqOut ++
        if !e.isDiscard && e.needUpdatePsnBitmap then [e.autoAckReq] else []
      genCnpReqOut := s.genCnpReqOut ++
        if !e.isDiscard && (e.rdmaPacketMeta.isEcnMarked && e.rdmaPacketMeta.bth.trans ≠ .cnp) then
          [e.cnpReq]
        else [] }
    if e.rdmaPacketMeta.hasPayload && !e.isDiscard then
      match s.conRespIn with
      | [] => none
      | _ :: resps => some { s' with conRespIn := resps }
    else some s'

/-- A beat of the payload is forwarded or discarded, as its packet's command says. -/
def filterDiscardedPayloadStream (s : RQ) : Option RQ :=
  match s.filterCmd, s.packetParser.rdmaPayloadOut with
  | isDiscard :: cmds, ds :: beats =>
    some { s with
      packetParser := { s.packetParser with rdmaPayloadOut := beats }
      filteredDataStreamForConsume := s.filteredDataStreamForConsume ++
        if isDiscard then [] else [ds]
      filterCmd := if ds.isLast then cmds else isDiscard :: cmds }
  | _, _ => none

end RQ

/-- What can happen next: a beat arrives, a rule of the parser or of the receive queue fires, a
table answers, or the payload consumer does. -/
inductive RqLabel
  | arrive
  | discardPacketWhenNetworkSettingsNotReady
  | handleBeatStage
  | dispatchStream
  | handleBeat
  | sendQpcQueryReqAndSomeSimpleParse
  | answerQpc
  | answerMr
  | checkQpcAndMrTable
  | checkMrTableStep2
  | checkMrTableStep3
  | issuePayloadConReqOrDiscard
  | conResp (resp : Bool)
  | handleConResp
  | filterDiscardedPayloadStream
  deriving DecidableEq

/-- The card around the receive queue: its addresses, its tables and the undefined values. -/
structure Card where
  settings : LocalNetworkSettings
  tables : Tables
  dontCare : DontCare

/-- A rule of `mkRQ`, or a step of what is around it. -/
def RQ.step (card : Card) (ds : DataStream) (s : RQ) : RqLabel → Option RQ
  | .arrive =>
    some { s with packetParser :=
      { s.packetParser with ethRawPacketIn := s.packetParser.ethRawPacketIn ++ [ds] } }
  | .discardPacketWhenNetworkSettingsNotReady =>
    (s.packetParser.discardPacketWhenNetworkSettingsNotReady card.settings).map
      fun p => { s with packetParser := p }
  | .handleBeatStage =>
    (s.packetParser.handleBeatStage card.settings).map fun p => { s with packetParser := p }
  | .dispatchStream => s.packetParser.dispatchStream.map fun p => { s with packetParser := p }
  | .handleBeat => s.packetParser.handleBeat.map fun p => { s with packetParser := p }
  | .sendQpcQueryReqAndSomeSimpleParse => s.sendQpcQueryReqAndSomeSimpleParse
  | .answerQpc => s.answerQpc card.tables
  | .answerMr => s.answerMr card.tables
  | .checkQpcAndMrTable => s.checkQpcAndMrTable card.dontCare
  | .checkMrTableStep2 => s.checkMrTableStep2
  | .checkMrTableStep3 => s.checkMrTableStep3
  | .issuePayloadConReqOrDiscard => s.issuePayloadConReqOrDiscard
  | .conResp resp => some { s with conRespIn := s.conRespIn ++ [resp] }
  | .handleConResp => s.handleConResp
  | .filterDiscardedPayloadStream => s.filterDiscardedPayloadStream

end OpenRdma.Rtl
