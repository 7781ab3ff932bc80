import OpenRdma.Foundations.Run
import OpenRdma.Link.CommandDescs
import OpenRdma.Link.ReportDescs

/-!
# The dispatcher of commands

The card takes the commands of the driver one after the other. A command for a table is passed on to
its server, and the next one is taken after the server answered; the others are answered at once,
with their parameters in a queue. Nothing takes the address of the buffer for raw packets from its
queue, which has one place.

A command for a queue pair also resets it in the two storages of the generator of acknowledgements.
A reset waits in a queue of the dispatcher, in one of the generator and in one of each storage, and
a storage that is blocked takes none from its queue any more.
-/

namespace OpenRdma.Link

open OpenRdma.Driver OpenRdma.Rtl Layout List Option

/-! ## Requests and responses -/

/-- `CommandQueueOpcode`, with the values no case of the dispatcher is for as one. -/
inductive CommandQueueOpcode
  | updateMrTable
  | updatePgt
  | qpManagement
  | setNetworkParam
  | setRawPacketReceiveMeta
  | unsupported
  deriving DecidableEq

/-- The operation of a descriptor, the lowest three bits of the field for it. -/
def opcodeOf (raw : RawDesc) : CommandQueueOpcode :=
  match (raw.opCode.setWidth 3).toNat with
  | 0 => .updateMrTable
  | 1 => .updatePgt
  | 2 => .qpManagement
  | 3 => .setNetworkParam
  | 4 => .setRawPacketReceiveMeta
  | _ => .unsupported

/-- A request that is one descriptor with a known operation. -/
def Supported (raw : RawDesc) : Prop := opcodeOf raw ≠ .unsupported ∧ raw.hasNextFrag = false

instance (raw : RawDesc) : Decidable (Supported raw) := inferInstanceAs (Decidable (_ ∧ _))

/-- The request is for the table of memory regions or the page table. -/
def isTable (raw : RawDesc) : Bool := opcodeOf raw = .updateMrTable || opcodeOf raw = .updatePgt

/-- The request is for the table of queue pairs. -/
def isQp (raw : RawDesc) : Bool := opcodeOf raw = .qpManagement

/-- The request is for the buffer of raw packets. -/
def isRawPacket (raw : RawDesc) : Bool := opcodeOf raw = .setRawPacketReceiveMeta

/-- The request for the table of queue pairs, and the queue pair that is reset. -/
def qpcReq (raw : RawDesc) : WriteReqQPC × BitVec 10 :=
  dispatchQpManagement (Rtl.CmdQueueReqDescQpManagement.unpack raw).toCmdQueueReqDescQpManagement

def respWidths : List ℕ := [1, 1, 5, 1, 8, 7, 1, 8, 224]

/-- The heads of a response: those of the request, valid and complete. -/
def respHeads (raw : RawDesc) (isSuccess : Bool) : List Field :=
  DescHead.fields ⟨true, false, raw.getLsbD (fieldPos respWidths 3), raw.opCode⟩ ++
    [⟨7, 0⟩, .flag isSuccess, ⟨8, (CmdHeads.unpack raw).userData.toNat⟩]

def respDesc (raw : RawDesc) (isSuccess : Bool) : RawDesc :=
  packDesc (respHeads raw isSuccess ++ [⟨224, 0⟩])

/-- `CmdQueueRespDescQpManagement`, with the fields of the request. -/
def respDescQp (raw : RawDesc) (isSuccess : Bool) : RawDesc :=
  let desc := Rtl.CmdQueueReqDescQpManagement.unpack raw
  packDesc (respHeads raw isSuccess ++ [⟨32, desc.peerIpAddr.toNat⟩, .flag desc.isValid,
    .flag desc.isError, ⟨6, 0⟩, ⟨24, desc.qpn.toNat⟩, ⟨32, 0⟩, ⟨24, desc.peerQPN.toNat⟩,
  ⟨8, desc.rqAccessFlags.toNat⟩,
    ⟨4, desc.qpType.toNat⟩, ⟨4, 0⟩, ⟨3, desc.pmtu.toNat⟩, ⟨5, 0⟩, ⟨16, 0⟩,
    ⟨16, desc.localUdpPort.toNat⟩, ⟨48, desc.peerMacAddr.toNat⟩])

/-- The response is valid, of one descriptor, and has the operation and the data of the user of the
request. -/
structure Answers (raw resp : RawDesc) : Prop where
  valid : resp.valid = true
  hasNextFrag : resp.hasNextFrag = false
  heads : CmdHeads.unpack resp = CmdHeads.unpack raw

theorem answers_of_heads {raw : RawDesc} {isSuccess : Bool} {fs : List Field}
    (hw : width fs.reverse = 224) (hpos : ∀ f ∈ fs.reverse, 0 < f.width) :
    Answers raw (packDesc (respHeads raw isSuccess ++ fs)) := by
  have hs (off w : ℕ) : slice (224 + off) w (respHeads raw isSuccess ++ fs).reverse =
      slice off w (respHeads raw isSuccess).reverse := by
    rw [reverse_append, ← hw, slice_append hpos]
  refine ⟨getLsbD_pack (by decide) (hs 31 1), getLsbD_pack (by decide) (hs 30 1), ?_⟩
  rw [CmdHeads.mk.injEq]
  refine ⟨?_, ?_⟩
  · refine (extractLsb'_pack (by decide) (hs 16 8)).trans ?_
    rw [pack_singleton, Nat.mod_eq_of_lt (BitVec.isLt _), BitVec.ofNat_toNat]
    rfl
  · refine (extractLsb'_pack (by decide) (hs 0 8)).trans ?_
    rw [pack_singleton, Nat.mod_eq_of_lt (BitVec.isLt _), BitVec.ofNat_toNat, BitVec.setWidth_eq]

theorem answers_respDesc (raw : RawDesc) (isSuccess : Bool) :
    Answers raw (respDesc raw isSuccess) :=
  answers_of_heads rfl (by simp)

theorem answers_respDescQp (raw : RawDesc) (isSuccess : Bool) :
    Answers raw (respDescQp raw isSuccess) :=
  answers_of_heads (by simp [width, Field.flag]) (by simp [Field.flag])

/-! ## The rules -/

/-- The storages of `mkAutoAckGenerator`: `bitmapStorage` and `autoAckMetaAtomicUpdateStorage`. -/
inductive ResetStorage
  | bitmap
  | autoAckMeta
  deriving DecidableEq

/-- The command rings, the read and the write proxy, `mkCommandQueueDescParserAndDispatcher` with
the servers of the tables, the queues a reset passes in `mkAutoAckGenerator`, and `QpUpdate` of the
driver. A storage takes as many resets as there is `resetRoom`, without a bound if that is `none`.
The last four fields are the history: what the servers answered, the responses of the dispatcher and
those the driver took. -/
structure CmdSystem where
  reqRing : List RawDesc
  readProxy : ReadProxy
  descFragsPipeOut : List DescFrags
  isDispatchingReqReg : Bool
  mrAndPgtReqQ : List RawDesc
  mrAndPgtInflightReqQ : List RawDesc
  mrAndPgtServer : List RawDesc
  mrAndPgtRespQ : List Bool
  qpcReqQ : List WriteReqQPC
  qpcInflightReqQ : List RawDesc
  qpcServer : List WriteReqQPC
  qpcRespQ : List Bool
  setNetworkParamPipeOutQ : List LocalNetworkSettings
  setRawPacketReceiveMetaReqQ : List (BitVec 64)
  qpResetReqPipeOutQ : List (BitVec 10)
  resetReqPipeInQueue : List (BitVec 10)
  resetReqPipeInQ : ResetStorage → List (BitVec 10)
  resetRoom : ResetStorage → Option ℕ
  descFragQ : List RawDesc
  ringbufQ : List RawDesc
  respRing : List RawDesc
  num : ℕ
  mrAndPgtAcked : List RawDesc
  qpcAcked : List WriteReqQPC
  responses : List RawDesc
  received : List RawDesc

/-- The driver pushes a command, or a step of the rest: a rule of the proxies, of the dispatcher, of
`Top` or of the generator, a step of a server or of a storage, or a response that the driver
takes. -/
inductive CmdLabel
  | push (raw : RawDesc)
  | fillAllReqSegments
  | dispatchRingbufRequestDescriptors
  | gatherResponse
  | mrAndPgtTake
  | mrAndPgtAnswer (ok : Bool)
  | qpcTake
  | qpcAnswer (ok : Bool)
  | forwardSetNetworkParamReqPipeOut
  | connectQpReset
  | forwardQpResetSignal
  | takeReset (storage : ResetStorage)
  | sendFirstBeat
  | putResponse
  | tryPop
  deriving DecidableEq

def CmdLabel.Own (l : CmdLabel) : Prop := ∀ raw, l ≠ .push raw

namespace CmdSystem

/-- The state after a reset, with anything in the segments of the read proxy, where the storages
take as many resets of queue pairs as `room` says. -/
def init (segBuf : RawDesc × RawDesc) (room : ResetStorage → Option ℕ) : CmdSystem :=
  ⟨[], ⟨segBuf, 0⟩, [], true, [], [], [], [], [], [], [], [], [], [], [], [], fun _ => [], room,
    [], [], [], 0, [], [], [], []⟩

def headDesc (f : DescFrags) : RawDesc := if f.2 = 0 then f.1.1 else f.1.2

def respond (s : CmdSystem) (resp : RawDesc) : CmdSystem :=
  { s with descFragQ := s.descFragQ ++ [resp], responses := s.responses ++ [resp] }

/-- `dispatchRingbufRequestDescriptors`. A case is possible if there is room in the queues it
fills. -/
def dispatchRingbufRequestDescriptors (s : CmdSystem) : Option CmdSystem :=
  match s.descFragsPipeOut with
  | [] => none
  | frags :: rest =>
    let raw := headDesc frags
    let s' := { s with descFragsPipeOut := rest }
    if s.isDispatchingReqReg = true then
      match opcodeOf raw with
      | .updateMrTable | .updatePgt =>
        if s.mrAndPgtReqQ.length < 1 ∧ s.mrAndPgtInflightReqQ.length < 2 then
          some { s' with
            mrAndPgtReqQ := s.mrAndPgtReqQ ++ [raw]
            mrAndPgtInflightReqQ := s.mrAndPgtInflightReqQ ++ [raw]
            isDispatchingReqReg := false }
        else none
      | .qpManagement =>
        if s.qpcInflightReqQ.length < 2 ∧ s.qpcReqQ.length < 2 ∧
          s.qpResetReqPipeOutQ.length < 2 then
          some { s' with
            qpcInflightReqQ := s.qpcInflightReqQ ++ [raw]
            qpcReqQ := s.qpcReqQ ++ [(qpcReq raw).1]
            qpResetReqPipeOutQ := s.qpResetReqPipeOutQ ++ [(qpcReq raw).2]
            isDispatchingReqReg := false }
        else none
      | .setNetworkParam =>
        if s.setNetworkParamPipeOutQ.length < 2 ∧ s.descFragQ.length < 1 then
          let reqDesc := CmdQueueReqDescSetNetworkParam.unpack raw
          some (respond { s' with
            setNetworkParamPipeOutQ := s.setNetworkParamPipeOutQ ++
              [⟨reqDesc.macAddr, reqDesc.ipAddr⟩] } (respDesc raw true))
        else none
      | .setRawPacketReceiveMeta =>
        if s.setRawPacketReceiveMetaReqQ.length < 1 ∧ s.descFragQ.length < 1 then
          let reqDesc := CmdQueueReqDescSetRawPacketReceiveMeta.unpack raw
          some (respond { s' with
            setRawPacketReceiveMetaReqQ := s.setRawPacketReceiveMetaReqQ ++
              [reqDesc.writeBaseAddr] } (respDesc raw true))
        else none
      | .unsupported => some s'
    else none

def gatherResponse (s : CmdSystem) : Option CmdSystem :=
  if s.isDispatchingReqReg = false ∧ s.descFragQ.length < 1 then
    match s.mrAndPgtRespQ with
    | isSuccess :: resps =>
      match s.mrAndPgtInflightReqQ with
      | [] => none
      | raw :: inflight =>
        some (respond { s with
          mrAndPgtRespQ := resps
          mrAndPgtInflightReqQ := inflight
          isDispatchingReqReg := true } (respDesc raw isSuccess))
    | [] =>
      match s.qpcRespQ, s.qpcInflightReqQ with
      | isSuccess :: resps, raw :: inflight =>
        some (respond { s with
          qpcRespQ := resps
          qpcInflightReqQ := inflight
          isDispatchingReqReg := true } (respDescQp raw isSuccess))
      | _, _ => none
  else none

/-- A step of one of the parts. -/
def step (s : CmdSystem) : CmdLabel → Option CmdSystem
  | .push raw => some { s with reqRing := s.reqRing ++ [raw], num := s.num + 1 }
  | .fillAllReqSegments =>
    match s.reqRing with
    | [] => none
    | raw :: raws =>
      if s.descFragsPipeOut.length < 2 then
        let (readProxy, out) := s.readProxy.fillAllReqSegments raw
        some { s with
          reqRing := raws
          readProxy := readProxy
          descFragsPipeOut := s.descFragsPipeOut ++ out.toList }
      else none
  | .dispatchRingbufRequestDescriptors => s.dispatchRingbufRequestDescriptors
  | .gatherResponse => s.gatherResponse
  | .mrAndPgtTake =>
    match s.mrAndPgtReqQ with
    | [] => none
    | raw :: raws => some { s with mrAndPgtReqQ := raws, mrAndPgtServer :=
        s.mrAndPgtServer ++ [raw] }
  | .mrAndPgtAnswer ok =>
    match s.mrAndPgtServer with
    | [] => none
    | raw :: raws => some { s with
        mrAndPgtServer := raws
        mrAndPgtRespQ := s.mrAndPgtRespQ ++ [ok]
        mrAndPgtAcked := s.mrAndPgtAcked ++ [raw] }
  | .qpcTake =>
    match s.qpcReqQ with
    | [] => none
    | req :: reqs => some { s with qpcReqQ := reqs, qpcServer := s.qpcServer ++ [req] }
  | .qpcAnswer ok =>
    match s.qpcServer with
    | [] => none
    | req :: reqs => some { s with
        qpcServer := reqs
        qpcRespQ := s.qpcRespQ ++ [ok]
        qpcAcked := s.qpcAcked ++ [req] }
  | .forwardSetNetworkParamReqPipeOut =>
    match s.setNetworkParamPipeOutQ with
    | [] => none
    | _ :: q => some { s with setNetworkParamPipeOutQ := q }
  | .connectQpReset =>
    match s.qpResetReqPipeOutQ with
    | [] => none
    | qp :: q =>
      if s.resetReqPipeInQueue.length < 1 then
        some { s with qpResetReqPipeOutQ := q, resetReqPipeInQueue :=
          s.resetReqPipeInQueue ++ [qp] }
      else none
  | .forwardQpResetSignal =>
    match s.resetReqPipeInQueue with
    | [] => none
    | qp :: q =>
      if (s.resetReqPipeInQ .bitmap).length < 1 ∧ (s.resetReqPipeInQ .autoAckMeta).length < 1 then
        some { s with
          resetReqPipeInQueue := q
          resetReqPipeInQ := fun storage => s.resetReqPipeInQ storage ++ [qp] }
      else none
  | .takeReset storage =>
    match s.resetReqPipeInQ storage with
    | [] => none
    | _ :: q =>
      if s.resetRoom storage ≠ some 0 then
        some { s with
          resetReqPipeInQ := Function.update s.resetReqPipeInQ storage q
          resetRoom := Function.update s.resetRoom storage ((s.resetRoom storage).map (· - 1)) }
      else none
  | .sendFirstBeat =>
    match s.descFragQ with
    | [] => none
    | resp :: q =>
      if s.ringbufQ.length < 2 then some { s with descFragQ := q, ringbufQ := s.ringbufQ ++ [resp] }
        else none
  | .putResponse =>
    match s.ringbufQ with
    | [] => none
    | resp :: q => some { s with ringbufQ := q, respRing := s.respRing ++ [resp] }
  | .tryPop =>
    -- `QpUpdate::wait` looks for responses as long as there are commands without one
    match s.respRing with
    | [] => none
    | resp :: q =>
      if s.num ≠ 0 then some { s with respRing := q, num := s.num - 1, received :=
        s.received ++ [resp] } else none

/-- The driver pushes requests that are supported. -/
def Possible (_ : CmdSystem) : CmdLabel → Prop
  | .push raw => Supported raw
  | _ => True

instance (s : CmdSystem) (l : CmdLabel) : Decidable (s.Possible l) := by
  unfold Possible
  split <;> infer_instance

def requests (ls : List CmdLabel) : List RawDesc :=
  ls.filterMap fun l => match l with
    | .push raw => some raw
    | _ => none

/-! ## Order -/

variable {room : ResetStorage → Option ℕ}
variable {s s' : CmdSystem} {ls : List CmdLabel} {l : CmdLabel} {done : List RawDesc}

/-- The resets that wait for a storage. -/
def resetsQueued (s : CmdSystem) (storage : ResetStorage) : ℕ :=
  s.qpResetReqPipeOutQ.length + s.resetReqPipeInQueue.length + (s.resetReqPipeInQ storage).length

/-- The requests in `done` are answered, the others are on their way, and what the servers have
belongs to them. Each request for a queue pair that was dispatched has a reset that waits or was
taken. -/
structure InvAt (room : ResetStorage → Option ℕ) (ls : List CmdLabel) (s : CmdSystem)
    (done : List RawDesc) : Prop where
  order : done ++ (s.mrAndPgtInflightReqQ ++ (s.qpcInflightReqQ ++
    (s.descFragsPipeOut.map headDesc ++ s.reqRing))) = requests ls
  supported : ∀ raw ∈ requests ls, Supported raw
  curSegCnt : s.readProxy.curSegCnt = 0
  answers : List.Forall₂ Answers done s.responses
  responses : s.received ++ (s.respRing ++ (s.ringbufQ ++ s.descFragQ)) = s.responses
  num : s.num + s.received.length = (requests ls).length
  table : s.mrAndPgtAcked ++ (s.mrAndPgtServer ++ s.mrAndPgtReqQ) =
    done.filter isTable ++ s.mrAndPgtInflightReqQ
  tableAcks : s.mrAndPgtAcked.length = (done.filter isTable).length + s.mrAndPgtRespQ.length
  tableInflight : ∀ raw ∈ s.mrAndPgtInflightReqQ, isTable raw = true
  qp : s.qpcAcked ++ (s.qpcServer ++ s.qpcReqQ) =
    (done.filter isQp ++ s.qpcInflightReqQ).map fun raw => (qpcReq raw).1
  qpAcks : s.qpcAcked.length = (done.filter isQp).length + s.qpcRespQ.length
  qpInflight : ∀ raw ∈ s.qpcInflightReqQ, isQp raw = true
  busy : s.mrAndPgtInflightReqQ.length + s.qpcInflightReqQ.length = if s.isDispatchingReqReg then 0
    else 1
  rawPacket : s.setRawPacketReceiveMetaReqQ.length = done.countP isRawPacket
  rawPacketLe : s.setRawPacketReceiveMetaReqQ.length ≤ 1
  resets : ∀ storage, (s.resetRoom storage).map (· +
    ((done.filter isQp).length + s.qpcInflightReqQ.length)) =
    (room storage).map (· + s.resetsQueued storage)
  resetsLe : s.qpResetReqPipeOutQ.length ≤ 2 ∧ s.resetReqPipeInQueue.length ≤ 1 ∧
    ∀ storage, (s.resetReqPipeInQ storage).length ≤ 1

/-- Some requests are answered and the others are on their way. -/
def Inv (room : ResetStorage → Option ℕ) (ls : List CmdLabel) (s : CmdSystem) : Prop :=
  ∃ done, InvAt room ls s done

theorem inv_init (segBuf : RawDesc × RawDesc) (room : ResetStorage → Option ℕ) :
    Inv room [] (init segBuf room) :=
  ⟨[], rfl, fun _ h => absurd h not_mem_nil, rfl, .nil, rfl, rfl, rfl, rfl,
    fun _ h => absurd h not_mem_nil, rfl, rfl, fun _ h => absurd h not_mem_nil, rfl, rfl,
    Nat.zero_le 1, fun _ => rfl, Nat.zero_le 2, Nat.zero_le 1, fun _ => Nat.zero_le 1⟩

theorem requests_append_push (ls : List CmdLabel) (raw : RawDesc) :
    requests (ls ++ [.push raw]) = requests ls ++ [raw] := by
  rw [requests, filterMap_append]
  rfl

theorem requests_append_own (ls : List CmdLabel) (h : l.Own) :
    requests (ls ++ [l]) = requests ls := by
  rw [requests, filterMap_append]
  cases l with
  | push raw => exact absurd rfl (h raw)
  | _ => exact append_nil _

theorem InvAt.own (h : InvAt room ls s done) (hl : l.Own) : InvAt room (ls ++ [l]) s done := by
  have heq := requests_append_own ls hl
  exact { h with
    order := heq ▸ h.order
    supported := heq ▸ h.supported
    num := heq ▸ h.num }

theorem InvAt.idle (h : InvAt room ls s done) (hd : s.isDispatchingReqReg = true) :
    s.mrAndPgtInflightReqQ = [] ∧ s.qpcInflightReqQ = [] := by
  have hbusy := h.busy
  rw [hd, if_pos rfl] at hbusy
  exact ⟨eq_nil_of_length_eq_zero (by omega), eq_nil_of_length_eq_zero (by omega)⟩

theorem InvAt.answers_respond (h : InvAt room ls s done) {raw resp : RawDesc}
    (ha : Answers raw resp) : List.Forall₂ Answers (done ++ [raw]) (s.responses ++ [resp]) :=
  rel_append h.answers (.cons ha .nil)

theorem InvAt.responses_respond (h : InvAt room ls s done) (resp : RawDesc) :
    s.received ++ (s.respRing ++ (s.ringbufQ ++ (s.descFragQ ++ [resp]))) =
    s.responses ++ [resp] := by
  rw [← h.responses]
  simp only [append_assoc]

theorem filter_append_of_false {p : RawDesc → Bool} {raw : RawDesc} (h : p raw = false)
    (done : List RawDesc) : (done ++ [raw]).filter p = done.filter p := by
  rw [filter_append, filter_singleton, h]
  exact append_nil _

theorem filter_append_of_true {p : RawDesc → Bool} {raw : RawDesc} (h : p raw = true)
    (done : List RawDesc) : (done ++ [raw]).filter p = done.filter p ++ [raw] := by
  rw [filter_append, filter_singleton, h]
  rfl

section Dispatch

variable {raw : RawDesc} {rest : List DescFrags}

/-- The next request is `raw`, and nothing is on its way. -/
structure Next (s : CmdSystem) (raw : RawDesc) (rest : List DescFrags) : Prop where
  frags : s.descFragsPipeOut.map headDesc = raw :: rest.map headDesc
  tableIdle : s.mrAndPgtInflightReqQ = []
  qpIdle : s.qpcInflightReqQ = []

variable (h : InvAt room ls s done)
include h

section

variable (hn : s.Next raw rest)
include hn

theorem InvAt.order_next : done ++ (raw :: (rest.map headDesc ++ s.reqRing)) = requests ls := by
  have horder := h.order
  rwa [hn.frags, hn.tableIdle, hn.qpIdle] at horder

theorem InvAt.order_answered :
    done ++ [raw] ++ (s.mrAndPgtInflightReqQ ++
      (s.qpcInflightReqQ ++ (rest.map headDesc ++ s.reqRing))) =
      requests ls := by
  rw [hn.tableIdle, hn.qpIdle, ← h.order_next hn, append_assoc]
  rfl

theorem InvAt.dispatch_table (hraw : isTable raw = true) : InvAt room ls { s with
      descFragsPipeOut := rest
      mrAndPgtReqQ := s.mrAndPgtReqQ ++ [raw]
      mrAndPgtInflightReqQ := s.mrAndPgtInflightReqQ ++ [raw]
      isDispatchingReqReg := false } done :=
  { h with
    order := by
      rw [hn.tableIdle, hn.qpIdle]
      exact h.order_next hn
    table := by
      rw [← append_assoc _ _ [raw], ← append_assoc _ _ [raw], ← append_assoc _ _ [raw], h.table]
    tableInflight := by
      rw [forall_mem_append]
      exact ⟨h.tableInflight, forall_mem_singleton.2 hraw⟩
    busy := by
      rw [hn.tableIdle, hn.qpIdle]
      rfl }

theorem InvAt.dispatch_qp (hraw : isQp raw = true) (hroom : s.qpResetReqPipeOutQ.length < 2) :
    InvAt room ls { s with
      descFragsPipeOut := rest
      qpcInflightReqQ := s.qpcInflightReqQ ++ [raw]
      qpcReqQ := s.qpcReqQ ++ [(qpcReq raw).1]
      qpResetReqPipeOutQ := s.qpResetReqPipeOutQ ++ [(qpcReq raw).2]
      isDispatchingReqReg := false } done :=
  { h with
    order := by
      rw [hn.tableIdle, hn.qpIdle]
      exact h.order_next hn
    qp := by
      rw [← append_assoc s.qpcServer, ← append_assoc s.qpcAcked, h.qp]
      simp only [map_append, map_singleton, append_assoc]
    qpInflight := by
      rw [forall_mem_append]
      exact ⟨h.qpInflight, forall_mem_singleton.2 hraw⟩
    busy := by
      rw [hn.tableIdle, hn.qpIdle]
      rfl
    resets := fun storage => by
      have heq := congrArg (Option.map (· + 1)) (h.resets storage)
      simp only [Option.map_map, Function.comp_def, resetsQueued, length_append,
        length_singleton] at heq ⊢
      convert heq using 3 <;> omega
    resetsLe := ⟨by rw [length_append]; exact hroom, h.resetsLe.2⟩ }

theorem InvAt.dispatch_answered (htable : isTable raw = false)
    (hqp : isQp raw = false) (params : List LocalNetworkSettings) {addrs : List (BitVec 64)}
    (haddrs : addrs.length = s.setRawPacketReceiveMetaReqQ.length +
      if isRawPacket raw then 1 else 0)
    (hle : addrs.length ≤ 1) : InvAt room ls (respond { s with
      descFragsPipeOut := rest
      setNetworkParamPipeOutQ := params
      setRawPacketReceiveMetaReqQ := addrs } (respDesc raw true)) (done ++ [raw]) :=
  { h with
    order := h.order_answered hn
    answers := h.answers_respond (answers_respDesc raw true)
    responses := h.responses_respond _
    table := by
      rw [filter_append_of_false htable]
      exact h.table
    tableAcks := by
      rw [filter_append_of_false htable]
      exact h.tableAcks
    qp := by
      rw [filter_append_of_false hqp]
      exact h.qp
    qpAcks := by
      rw [filter_append_of_false hqp]
      exact h.qpAcks
    rawPacket := by
      rw [countP_append, countP_singleton, ← h.rawPacket]
      exact haddrs
    rawPacketLe := hle
    resets := by
      rw [filter_append_of_false hqp]
      exact h.resets }

end

theorem InvAt.dispatch (hs : s.dispatchRingbufRequestDescriptors = some s') :
    ∃ done', InvAt room ls s' done' := by
  rw [dispatchRingbufRequestDescriptors] at hs
  split at hs
  · cases hs
  · next frags rest hq =>
    obtain ⟨hd, hs⟩ := ite_none_right_eq_some.1 hs
    obtain ⟨hmr, hqp⟩ := h.idle hd
    have hn : s.Next (headDesc frags) rest := ⟨by rw [hq, map_cons], hmr, hqp⟩
    split at hs
    · next hop =>
      obtain ⟨-, rfl⟩ := ite_some_none_eq_some.1 hs
      exact ⟨done, h.dispatch_table hn (by simp [isTable, hop])⟩
    · next hop =>
      obtain ⟨-, rfl⟩ := ite_some_none_eq_some.1 hs
      exact ⟨done, h.dispatch_table hn (by simp [isTable, hop])⟩
    · next hop =>
      obtain ⟨⟨-, -, hroom⟩, rfl⟩ := ite_some_none_eq_some.1 hs
      exact ⟨done, h.dispatch_qp hn (by simp [isQp, hop]) hroom⟩
    · next hop =>
      obtain ⟨-, rfl⟩ := ite_some_none_eq_some.1 hs
      exact ⟨_, h.dispatch_answered hn (by simp [isTable, hop]) (by simp [isQp, hop]) _
        (by simp [isRawPacket, hop]) h.rawPacketLe⟩
    · next hop =>
      obtain ⟨⟨hroom, -⟩, rfl⟩ := ite_some_none_eq_some.1 hs
      exact ⟨_, h.dispatch_answered hn (by simp [isTable, hop]) (by simp [isQp, hop]) _
        (by simp [isRawPacket, hop]) (by rw [length_append]; exact Nat.succ_le_of_lt hroom)⟩
    · next hop =>
      have hmem : headDesc frags ∈ requests ls := by
        rw [← h.order_next hn]
        exact mem_append_right _ mem_cons_self
      exact absurd hop (h.supported _ hmem).1

end Dispatch

variable {raw : RawDesc}

theorem isQp_of_isTable (h : isTable raw = true) : isQp raw = false := by
  unfold isTable at h
  unfold isQp
  cases hop : opcodeOf raw <;> simp_all

theorem isRawPacket_of_isTable (h : isTable raw = true) : isRawPacket raw = false := by
  unfold isTable at h
  unfold isRawPacket
  cases hop : opcodeOf raw <;> simp_all

theorem isTable_of_isQp (h : isQp raw = true) : isTable raw = false := by
  unfold isQp at h
  unfold isTable
  cases hop : opcodeOf raw <;> simp_all

theorem isRawPacket_of_isQp (h : isQp raw = true) : isRawPacket raw = false := by
  unfold isQp at h
  unfold isRawPacket
  cases hop : opcodeOf raw <;> simp_all

theorem countP_append_of_false (h : isRawPacket raw = false) (done : List RawDesc) :
    (done ++ [raw]).countP isRawPacket = done.countP isRawPacket := by
  rw [countP_append, countP_singleton, h]
  rfl

section

variable (h : InvAt room ls s done)
include h

theorem InvAt.gather_table {inflight : List RawDesc} {isSuccess : Bool} {resps : List Bool}
    (hd : s.isDispatchingReqReg = false) (hr : s.mrAndPgtRespQ = isSuccess :: resps)
    (hq : s.mrAndPgtInflightReqQ = raw :: inflight) : InvAt room ls (respond { s with
      mrAndPgtRespQ := resps
      mrAndPgtInflightReqQ := inflight
      isDispatchingReqReg := true } (respDesc raw isSuccess)) (done ++ [raw]) := by
  have hraw : isTable raw = true := h.tableInflight raw (hq ▸ mem_cons_self)
  have horder := h.order
  have htable := h.table
  have hacks := h.tableAcks
  have hbusy := h.busy
  rw [hq] at horder htable hbusy
  rw [hr] at hacks
  rw [hd, length_cons] at hbusy
  exact { h with
    order := by
      rw [append_assoc]
      exact horder
    answers := h.answers_respond (answers_respDesc raw isSuccess)
    responses := h.responses_respond _
    table := by
      rw [filter_append_of_true hraw, append_assoc]
      exact htable
    tableAcks := by
      rw [filter_append_of_true hraw, length_append]
      exact hacks.trans (Nat.add_right_comm _ _ 1)
    tableInflight := fun raw' hraw' => h.tableInflight raw' (hq ▸ mem_cons_of_mem raw hraw')
    qp := by
      rw [filter_append_of_false (isQp_of_isTable hraw)]
      exact h.qp
    qpAcks := by
      rw [filter_append_of_false (isQp_of_isTable hraw)]
      exact h.qpAcks
    busy := by
      change inflight.length + s.qpcInflightReqQ.length = 0
      simp only [Bool.false_eq_true, if_false] at hbusy
      omega
    rawPacket := by
      rw [countP_append_of_false (isRawPacket_of_isTable hraw)]
      exact h.rawPacket
    resets := by
      rw [filter_append_of_false (isQp_of_isTable hraw)]
      exact h.resets }

theorem InvAt.gather_qp {inflight : List RawDesc} {isSuccess : Bool} {resps : List Bool}
    (hd : s.isDispatchingReqReg = false) (hr : s.qpcRespQ = isSuccess :: resps)
    (hq : s.qpcInflightReqQ = raw :: inflight) : InvAt room ls (respond { s with
      qpcRespQ := resps
      qpcInflightReqQ := inflight
      isDispatchingReqReg := true } (respDescQp raw isSuccess)) (done ++ [raw]) := by
  have hraw : isQp raw = true := h.qpInflight raw (hq ▸ mem_cons_self)
  have horder := h.order
  have hqpc := h.qp
  have hacks := h.qpAcks
  have hbusy := h.busy
  rw [hq] at horder hqpc hbusy
  rw [hr] at hacks
  rw [hd, length_cons] at hbusy
  simp only [Bool.false_eq_true, if_false] at hbusy
  have hmr : s.mrAndPgtInflightReqQ = [] := eq_nil_of_length_eq_zero (by omega)
  rw [hmr] at horder
  exact { h with
    order := by
      rw [hmr, append_assoc]
      exact horder
    answers := h.answers_respond (answers_respDescQp raw isSuccess)
    responses := h.responses_respond _
    table := by
      rw [filter_append_of_false (isTable_of_isQp hraw)]
      exact h.table
    tableAcks := by
      rw [filter_append_of_false (isTable_of_isQp hraw)]
      exact h.tableAcks
    qp := by
      rw [filter_append_of_true hraw, append_assoc]
      exact hqpc
    qpAcks := by
      rw [filter_append_of_true hraw, length_append]
      exact hacks.trans (Nat.add_right_comm _ _ 1)
    qpInflight := fun raw' hraw' => h.qpInflight raw' (hq ▸ mem_cons_of_mem raw hraw')
    busy := by
      change s.mrAndPgtInflightReqQ.length + inflight.length = 0
      omega
    rawPacket := by
      rw [countP_append_of_false (isRawPacket_of_isQp hraw)]
      exact h.rawPacket
    resets := fun storage => by
      have heq := h.resets storage
      rw [hq] at heq
      rw [filter_append_of_true hraw, length_append, Nat.add_right_comm, add_assoc]
      exact heq }

/-- A response leaves, and its request is answered. -/
theorem InvAt.gather (hs : s.gatherResponse = some s') : ∃ done', InvAt room ls s' done' := by
  obtain ⟨⟨hd, -⟩, hs⟩ := ite_none_right_eq_some.1 hs
  split at hs
  · next isSuccess resps hr =>
    split at hs
    · cases hs
    · next raw inflight hq =>
      cases hs
      exact ⟨_, h.gather_table hd hr hq⟩
  · split at hs
    · next hr hq =>
      cases hs
      exact ⟨_, h.gather_qp hd hr hq⟩
    · cases hs

theorem InvAt.fill {raws : List RawDesc} (hq : s.reqRing = raw :: raws) : InvAt room ls { s with
      reqRing := raws
      readProxy := (s.readProxy.fillAllReqSegments raw).1
      descFragsPipeOut := s.descFragsPipeOut ++ (s.readProxy.fillAllReqSegments raw).2.toList }
        done := by
  have horder := h.order
  rw [hq] at horder
  have hmem : raw ∈ requests ls := by
    rw [← horder]
    simp only [mem_append, mem_cons, true_or, or_true]
  have hfill : s.readProxy.fillAllReqSegments raw =
      (⟨(raw, s.readProxy.segBuf.1), 0⟩, some ((raw, s.readProxy.segBuf.1),
        s.readProxy.curSegCnt)) := by
    rw [ReadProxy.fillAllReqSegments, (h.supported raw hmem).2]
    rfl
  have hhead : headDesc ((raw, s.readProxy.segBuf.1), s.readProxy.curSegCnt) = raw := by
    rw [h.curSegCnt]
    rfl
  exact { h with
    order := by
      rw [hfill, map_append, ← horder, append_assoc]
      refine congrArg (done ++ ·) (congrArg (_ ++ ·) (congrArg (_ ++ ·) (congrArg (_ ++ ·) ?_)))
      change headDesc _ :: raws = raw :: raws
      rw [hhead]
    curSegCnt := by rw [hfill] }

theorem InvAt.push (hraw : Supported raw) :
    InvAt room (ls ++ [.push raw]) { s with reqRing := s.reqRing ++ [raw], num := s.num + 1 } done := by
  have hreq := requests_append_push ls raw
  exact { h with
    order := by
      rw [hreq, ← h.order]
      simp only [append_assoc]
    supported := by
      rw [hreq, forall_mem_append]
      exact ⟨h.supported, forall_mem_singleton.2 hraw⟩
    num := by
      rw [hreq, length_append, ← h.num]
      exact Nat.add_right_comm _ _ _ }

theorem InvAt.server (hl : l = .mrAndPgtTake ∨ (∃ ok, l = .mrAndPgtAnswer ok) ∨
    l = .qpcTake ∨ ∃ ok, l = .qpcAnswer ok) (hs : s.step l = some s') : InvAt room ls s' done := by
  obtain rfl | ⟨ok, rfl⟩ | rfl | ⟨ok, rfl⟩ := hl <;> rw [step] at hs <;> split at hs
  · cases hs
  · next hq =>
    cases hs
    have htable := h.table
    rw [hq] at htable
    exact { h with table := by rw [append_assoc s.mrAndPgtServer]; exact htable }
  · cases hs
  · next hq =>
    cases hs
    have htable := h.table
    have hacks := h.tableAcks
    rw [hq] at htable
    exact { h with
      table := by rw [append_assoc]; exact htable
      tableAcks := by rw [length_append, length_append, hacks]; rfl }
  · cases hs
  · next hq =>
    cases hs
    have hqp := h.qp
    rw [hq] at hqp
    exact { h with qp := by rw [append_assoc s.qpcServer]; exact hqp }
  · cases hs
  · next hq =>
    cases hs
    have hqp := h.qp
    have hacks := h.qpAcks
    rw [hq] at hqp
    exact { h with
      qp := by rw [append_assoc]; exact hqp
      qpAcks := by rw [length_append, length_append, hacks]; rfl }

theorem InvAt.passReset (hl : l = .connectQpReset ∨ l = .forwardQpResetSignal ∨
    ∃ storage, l = .takeReset storage) (hs : s.step l = some s') : InvAt room ls s' done := by
  obtain ⟨hout, hgen, hstorage⟩ := h.resetsLe
  obtain rfl | rfl | ⟨storage, rfl⟩ := hl <;> rw [step] at hs <;> split at hs
  · cases hs
  · next hq =>
    obtain ⟨hroom, rfl⟩ := ite_some_none_eq_some.1 hs
    rw [hq, length_cons] at hout
    refine { h with resets := fun storage => ?_, resetsLe :=
      ⟨Nat.le_of_succ_le hout, ?_, hstorage⟩ }
    · refine (h.resets storage).trans (congrArg (Option.map · _) (funext fun r => ?_))
      simp only [resetsQueued, hq, length_append, length_cons, length_nil]
      omega
    · rw [length_append]
      exact hroom
  · cases hs
  · next hq =>
    obtain ⟨hroom, rfl⟩ := ite_some_none_eq_some.1 hs
    rw [hq, length_cons] at hgen
    refine { h with resets := fun storage => ?_, resetsLe :=
      ⟨hout, Nat.le_of_succ_le hgen, fun storage => ?_⟩ }
    · refine (h.resets storage).trans (congrArg (Option.map · _) (funext fun r => ?_))
      simp only [resetsQueued, hq, length_append, length_cons, length_nil]
      omega
    · rw [length_append]
      cases storage
      · exact hroom.1
      · exact hroom.2
  · cases hs
  · next hq =>
    obtain ⟨hroom, rfl⟩ := ite_some_none_eq_some.1 hs
    refine { h with resets := fun storage' => ?_, resetsLe := ⟨hout, hgen, fun storage' => ?_⟩ }
    · by_cases hne : storage' = storage
      · subst hne
        have heq := h.resets storage'
        simp only [resetsQueued, hq, length_cons] at heq
        simp only [resetsQueued, Function.update_self]
        cases hr : s.resetRoom storage' <;> cases hr' : room storage' <;> rw [hr, hr'] at heq
        case none.none => rfl
        case none.some | some.none => cases heq
        case some.some r r' =>
          have hpos : r ≠ 0 := fun h0 => hroom (by rw [hr, h0])
          have := some.inj heq
          exact congrArg some (by dsimp only at this ⊢; omega)
      · simpa only [resetsQueued, Function.update_of_ne hne] using h.resets storage'
    · by_cases hne : storage' = storage
      · subst hne
        have := hstorage storage'
        rw [hq, length_cons] at this
        simp only [Function.update_self]
        omega
      · simp only [Function.update_of_ne hne]
        exact hstorage storage'

theorem InvAt.deliver (hl : l = .sendFirstBeat ∨ l = .putResponse ∨ l = .tryPop)
    (hs : s.step l = some s') : InvAt room ls s' done := by
  have hresp := h.responses
  obtain rfl | rfl | rfl := hl <;> rw [step] at hs <;> split at hs
  · cases hs
  · next hq =>
    obtain ⟨-, rfl⟩ := ite_some_none_eq_some.1 hs
    rw [hq] at hresp
    exact { h with responses := by rw [append_assoc s.ringbufQ]; exact hresp }
  · cases hs
  · next hq =>
    cases hs
    rw [hq] at hresp
    exact { h with responses := by rw [append_assoc s.respRing]; exact hresp }
  · cases hs
  · next hq =>
    obtain ⟨hnum, rfl⟩ := ite_some_none_eq_some.1 hs
    rw [hq] at hresp
    exact { h with
      responses := by rw [append_assoc]; exact hresp
      num := by
        rw [length_append, ← h.num]
        change s.num - 1 + (s.received.length + 1) = s.num + s.received.length
        omega }

end

theorem Inv.step (h : Inv room ls s) (hok : s.Possible l) (hs : s.step l = some s') : Inv room (ls ++ [l]) s' := by
  obtain ⟨done, h⟩ := h
  cases l with
  | push raw =>
    cases hs
    exact ⟨done, h.push hok⟩
  | fillAllReqSegments =>
    rw [CmdSystem.step] at hs
    split at hs
    · cases hs
    · next hq =>
      obtain ⟨-, rfl⟩ := ite_some_none_eq_some.1 hs
      exact ⟨done, (h.fill hq).own (by rintro _ ⟨⟩)⟩
  | dispatchRingbufRequestDescriptors =>
    obtain ⟨done', h'⟩ := h.dispatch hs
    exact ⟨done', h'.own (by rintro _ ⟨⟩)⟩
  | gatherResponse =>
    obtain ⟨done', h'⟩ := h.gather hs
    exact ⟨done', h'.own (by rintro _ ⟨⟩)⟩
  | mrAndPgtTake => exact ⟨done, (h.server (.inl rfl) hs).own (by rintro _ ⟨⟩)⟩
  | mrAndPgtAnswer ok => exact ⟨done, (h.server (.inr (.inl ⟨ok, rfl⟩)) hs).own (by rintro _ ⟨⟩)⟩
  | qpcTake => exact ⟨done, (h.server (.inr (.inr (.inl rfl))) hs).own (by rintro _ ⟨⟩)⟩
  | qpcAnswer ok => exact ⟨done, (h.server (.inr (.inr (.inr ⟨ok, rfl⟩))) hs).own (by rintro _ ⟨⟩)⟩
  | forwardSetNetworkParamReqPipeOut =>
    rw [CmdSystem.step] at hs
    split at hs
    · cases hs
    · cases hs
      exact ⟨done, InvAt.own { h with } (by rintro _ ⟨⟩)⟩
  | connectQpReset => exact ⟨done, (h.passReset (.inl rfl) hs).own (by rintro _ ⟨⟩)⟩
  | forwardQpResetSignal => exact ⟨done, (h.passReset (.inr (.inl rfl)) hs).own (by rintro _ ⟨⟩)⟩
  | takeReset storage => exact ⟨done, (h.passReset (.inr (.inr ⟨storage, rfl⟩)) hs).own (by rintro _ ⟨⟩)⟩
  | sendFirstBeat => exact ⟨done, (h.deliver (.inl rfl) hs).own (by rintro _ ⟨⟩)⟩
  | putResponse => exact ⟨done, (h.deliver (.inr (.inl rfl)) hs).own (by rintro _ ⟨⟩)⟩
  | tryPop => exact ⟨done, (h.deliver (.inr (.inr rfl)) hs).own (by rintro _ ⟨⟩)⟩

theorem inv_of_run {segBuf : RawDesc × RawDesc} (h : Run step Possible (init segBuf room) ls s) :
    Inv room ls s :=
  h.invariant (I := Inv room) (inv_init segBuf room) fun _ _ _ _ hI hok hs => hI.step hok hs

end CmdSystem

end OpenRdma.Link
