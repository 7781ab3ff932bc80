import OpenRdma.Driver.Send
import OpenRdma.Foundations.Run
import OpenRdma.Rtl.RQ

/-!
# The packet generator

The card reads the chunks of the driver from the send ring as work queue elements. For an element
with payload it queries the memory region of the local key and requests the payload from memory. The
table answers every query with its content, in order; so the requests are those of the elements,
each with the entry of its own key (`PacketGenInv.genReqs`). An entry that is not valid is not
refused: what the request then holds is undefined, and is the parameter `u` here.
-/

namespace OpenRdma.Rtl

open OpenRdma.Driver List

inductive ImmOrRKey
  | imm (v : BitVec 32)
  | rkey (v : BitVec 32)
  deriving DecidableEq

/-- `WorkQueueElem`, without the fields the parser leaves zero and nothing sets: `comp`, `swap`,
`srqn` and `qkey`. -/
structure WorkQueueElem where
  msn : BitVec 16
  opcode : WorkReqOpCode
  flags : BitVec 5
  qpType : BitVec 4
  psn : BitVec 24
  pmtu : BitVec 3
  dqpIP : BitVec 32
  macAddr : BitVec 48
  laddr : BitVec 64
  lkey : BitVec 32
  raddr : BitVec 64
  rkey : BitVec 32
  len : BitVec 32
  totalLen : BitVec 32
  dqpn : BitVec 24
  sqpn : BitVec 24
  immDtOrInvRKey : Option ImmOrRKey
  isFirst : Bool
  isLast : Bool
  isRetry : Bool
  enableEcn : Bool
  deriving DecidableEq

def workReqNeedPayloadGen : WorkReqOpCode → Bool
  | .rdmaWrite | .rdmaWriteWithImm | .send | .sendWithImm | .sendWithInv | .rdmaReadResp => true
  | _ => false

def WorkQueueElem.hasPayload (wqe : WorkQueueElem) : Bool :=
  workReqNeedPayloadGen wqe.opcode && !(wqe.len == 0)

def lkey2IndexMR (lkey : BitVec 32) : BitVec 13 := rkey2IndexMR lkey

structure PayloadGenReq where
  addr : BitVec 64
  len : BitVec 32
  baseVA : BitVec 64
  pgtOffset : BitVec 17
  deriving DecidableEq

def payloadGenReq (u : MemRegionTableEntry) (wqe : WorkQueueElem)
    (mrTableMaybe : Option MemRegionTableEntry) : PayloadGenReq :=
  let mrTable := mrTableMaybe.getD u
  ⟨wqe.laddr, wqe.len, mrTable.baseVA, mrTable.pgtOffset⟩

/-- The FIFOs of the generator up to the requests for payload. -/
structure PacketGen where
  wqePipeIn : List WorkQueueElem := []
  mrReq : List (BitVec 13) := []
  mrResp : List (Option MemRegionTableEntry) := []
  sendChunkByRemoteAddrReqAndPayloadGenReqPipeline : List (WorkQueueElem × Bool) := []
  genReqPipeOut : List PayloadGenReq := []
  deriving DecidableEq

namespace PacketGen

/-- The memory region of an element with payload is queried. -/
def queryMrTable (s : PacketGen) : Option PacketGen :=
  match s.wqePipeIn with
  | [] => none
  | wqe :: wqes =>
    some { s with
      wqePipeIn := wqes
      mrReq := s.mrReq ++ if wqe.hasPayload then [lkey2IndexMR wqe.lkey] else []
      sendChunkByRemoteAddrReqAndPayloadGenReqPipeline :=
        s.sendChunkByRemoteAddrReqAndPayloadGenReqPipeline ++ [(wqe, wqe.hasPayload)] }

/-- The table of memory regions answers a query. -/
def answerMr (t : Tables) (s : PacketGen) : Option PacketGen :=
  match s.mrReq with
  | [] => none
  | idx :: idxs => some { s with mrReq := idxs, mrResp := s.mrResp ++ [t.mr idx] }

/-- The payload of an element is requested, whatever the answer is. -/
def sendChunkByRemoteAddrReqAndPayloadGenReq (u : MemRegionTableEntry) (s : PacketGen) :
    Option PacketGen :=
  match s.sendChunkByRemoteAddrReqAndPayloadGenReqPipeline with
  | [] => none
  | (wqe, hasPayload) :: es =>
    if hasPayload then
      match s.mrResp with
      | [] => none
      | mrTableMaybe :: mrs =>
        some { s with
          sendChunkByRemoteAddrReqAndPayloadGenReqPipeline := es
          mrResp := mrs
          genReqPipeOut := s.genReqPipeOut ++ [payloadGenReq u wqe mrTableMaybe] }
    else some { s with sendChunkByRemoteAddrReqAndPayloadGenReqPipeline := es }

end PacketGen

inductive PacketGenLabel
  | arrive (wqe : WorkQueueElem)
  | queryMrTable
  | answerMr
  | sendChunkByRemoteAddrReqAndPayloadGenReq
  deriving DecidableEq

/-- A request, a rule of the generator, or an answer of the table. -/
def PacketGen.step (t : Tables) (u : MemRegionTableEntry) (s : PacketGen) :
    PacketGenLabel → Option PacketGen
  | .arrive wqe => some { s with wqePipeIn := s.wqePipeIn ++ [wqe] }
  | .queryMrTable => s.queryMrTable
  | .answerMr => s.answerMr t
  | .sendChunkByRemoteAddrReqAndPayloadGenReq => s.sendChunkByRemoteAddrReqAndPayloadGenReq u

/-- The request of an element with the entry of its own key. -/
def WorkQueueElem.genReq (t : Tables) (u : MemRegionTableEntry) (wqe : WorkQueueElem) :
    Option PayloadGenReq :=
  if wqe.hasPayload then some (payloadGenReq u wqe (t.mr (lkey2IndexMR wqe.lkey))) else none

def PacketGenLabel.wqes : PacketGenLabel → List WorkQueueElem
  | .arrive wqe => [wqe]
  | _ => []

/-- The elements `A` left the generator and `B` wait for the answer about their memory region. -/
structure PacketGenInv (t : Tables) (u : MemRegionTableEntry) (wqes : List WorkQueueElem)
    (s : PacketGen) (A B : List WorkQueueElem) : Prop where
  arrived : wqes = A ++ B ++ s.wqePipeIn
  waiting : s.sendChunkByRemoteAddrReqAndPayloadGenReqPipeline = B.map fun wqe =>
    (wqe, wqe.hasPayload)
  answers : s.mrResp ++ s.mrReq.map t.mr =
    (B.filter (·.hasPayload)).map fun wqe => t.mr (lkey2IndexMR wqe.lkey)
  genReqs : s.genReqPipeOut = A.filterMap (·.genReq t u)

variable {t : Tables} {u : MemRegionTableEntry} {wqes A B : List WorkQueueElem} {s s' : PacketGen}
  {l : PacketGenLabel}

theorem PacketGenInv.step (hi : PacketGenInv t u wqes s A B) (hs : s.step t u l = some s') :
    ∃ A B, PacketGenInv t u (wqes ++ l.wqes) s' A B := by
  obtain ⟨harrived, hwaiting, hanswers, hreqs⟩ := hi
  cases l with
  | arrive wqe =>
    cases hs
    refine ⟨A, B, ?_, hwaiting, hanswers, hreqs⟩
    rw [harrived, append_assoc]
    rfl
  | queryMrTable =>
    simp only [PacketGen.step, PacketGen.queryMrTable] at hs
    split at hs
    · cases hs
    · rename_i wqe rest hwqe
      cases hs
      refine ⟨A, B ++ [wqe], ?_, ?_, ?_, hreqs⟩
      · simp [harrived, hwqe, PacketGenLabel.wqes]
      · simp [hwaiting]
      · rw [map_append, ← append_assoc, hanswers, filter_append, map_append]
        by_cases hp : wqe.hasPayload = true
        · simp [hp]
        · simp [hp]
  | answerMr =>
    simp only [PacketGen.step, PacketGen.answerMr] at hs
    split at hs
    · cases hs
    · rename_i idx idxs hidx
      cases hs
      refine ⟨A, B, ?_, hwaiting, ?_, hreqs⟩
      · simp [harrived, PacketGenLabel.wqes]
      · rw [← hanswers, hidx]
        simp
  | sendChunkByRemoteAddrReqAndPayloadGenReq =>
    simp only [PacketGen.step, PacketGen.sendChunkByRemoteAddrReqAndPayloadGenReq] at hs
    rw [hwaiting] at hs
    cases B with
    | nil => cases hs
    | cons wqe B =>
      simp only [map_cons] at hs
      refine ⟨A ++ [wqe], B, ?_⟩
      by_cases hp : wqe.hasPayload = true
      · rw [if_pos hp] at hs
        rw [filter_cons_of_pos hp, map_cons] at hanswers
        cases hresp : s.mrResp with
        | nil =>
          rw [hresp] at hs
          cases hs
        | cons r rs =>
          rw [hresp] at hs hanswers
          obtain ⟨rfl, hrest⟩ := cons.inj hanswers
          cases hs
          refine ⟨by simp [harrived, PacketGenLabel.wqes], rfl, hrest, ?_⟩
          simp [hreqs, WorkQueueElem.genReq, hp]
      · rw [if_neg hp] at hs
        cases hs
        rw [filter_cons_of_neg hp] at hanswers
        refine ⟨by simp [harrived, PacketGenLabel.wqes], rfl, hanswers, ?_⟩
        simp [hreqs, WorkQueueElem.genReq, hp]

theorem packetGenInv_of_run {ok : PacketGen → PacketGenLabel → Prop} {ls : List PacketGenLabel}
    (hrun : Run (PacketGen.step t u) ok {} ls s) :
    ∃ A B, PacketGenInv t u (ls.flatMap (·.wqes)) s A B := by
  refine hrun.invariant (I := fun ls s => ∃ A B, PacketGenInv t u (ls.flatMap (·.wqes)) s A B)
    ⟨[], [], rfl, rfl, rfl, rfl⟩ ?_
  rintro ls s l s' ⟨A, B, hi⟩ - hs
  rw [flatMap_append, flatMap_singleton]
  exact hi.step hs

end OpenRdma.Rtl
