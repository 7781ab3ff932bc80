import OpenRdma.Driver.Completion
import OpenRdma.Driver.PsnTracker
import OpenRdma.Driver.Retransmit

/-!
# The handler of meta reports

What the card reports to the driver, and how the handler turns it into tasks of the other workers.
The functions are those of one queue pair: the handler keeps the tracker of what the peer
acknowledged and the tracker of what arrived.
-/

namespace OpenRdma.Driver

/-! ## Reports -/

inductive PacketPos
  | first
  | middle
  | last
  | only
  deriving DecidableEq

inductive HeaderType
  | write
  | writeWithImm
  | send
  | sendWithImm
  | readResp
  deriving DecidableEq

/-- The fields of `HeaderWriteMeta` the handler uses. -/
structure HeaderWriteMeta where
  pos : PacketPos
  msn : Msn
  psn : Psn
  ackReq : Bool
  isRetry : Bool
  imm : ℕ
  headerType : HeaderType
  deriving DecidableEq

/-- A read request of the peer. -/
@[ext]
structure HeaderReadMeta where
  msn : Msn
  psn : Psn
  raddr : ℕ
  rkey : ℕ
  totalLen : ℕ
  laddr : ℕ
  lkey : ℕ
  ackReq : Bool
  raddr_lt : raddr < 2 ^ 64
  totalLen_lt : totalLen < 2 ^ 32
  laddr_lt : laddr < 2 ^ 64

instance : DecidableEq HeaderReadMeta := fun _ _ => decidable_of_iff' _ HeaderReadMeta.ext_iff

/-- `ReportMeta`, with the fields of its variants. -/
inductive ReportMeta
  | headerWrite (x : HeaderWriteMeta)
  | headerRead (x : HeaderReadMeta)
  | ackLocalHw (psnNow : Psn) (nowBitmap : BitVec 128)
  | ackRemoteDriver (psnNow : Psn)
  | nakLocalHw (psnNow : Psn) (nowBitmap : BitVec 128) (psnPre : Psn) (preBitmap : BitVec 128)
  | nakRemoteHw (msn : Msn) (psnNow : Psn) (nowBitmap : BitVec 128) (psnPre : Psn)
      (preBitmap : BitVec 128)
  | nakRemoteDriver (psnNow psnPre : Psn)
  | cnp
  deriving DecidableEq

/-! ## The handler -/

/-- The tasks a report makes the handler send. -/
structure MetaOutput where
  ack : List AckResponse := []
  ackTimeout : List AckTimeoutTask := []
  packetRetransmit : List PacketRetransmitTask := []
  completion : List CompletionTask := []
  rdmaWrite : List RdmaWriteTask := []
  deriving DecidableEq

/-- `MetaHandler`, for one queue pair. -/
structure MetaHandler where
  send : RemoteAckTracker := default
  recv : LocalAckTracker := default
  deriving DecidableEq, Inhabited

def senderUpdates (basePsn : Psn) : MetaOutput where
  completion := [.ackSend basePsn]
  packetRetransmit := [.ack basePsn]
  rdmaWrite := [.ack basePsn]

def receiverUpdates (basePsn : Psn) : MetaOutput where
  completion := [.ackRecv basePsn]
  packetRetransmit := [.ack basePsn]

/-- The event of the last packet of a message, by the type of its header. -/
def recvEventOp (headerType : HeaderType) (imm : ℕ) : RecvEventOp :=
  match headerType with
  | .write => .write
  | .writeWithImm => .writeWithImm imm
  | .send => .recv
  | .sendWithImm => .recvWithImm imm
  | .readResp => .readResp

def PacketPos.isEnd (pos : PacketPos) : Bool := pos = .last ∨ pos = .only

namespace MetaHandler

/-- A packet of a write, of a send or of a read response. -/
def handleHeaderWrite (h : MetaHandler) (x : HeaderWriteMeta) : MetaHandler × MetaOutput :=
  let endPsn := x.psn + 1
  let event : Event := .recv ⟨recvEventOp x.headerType x.imm, ⟨x.msn, endPsn⟩, x.ackReq⟩
  let registered := if x.pos.isEnd then [.register event] else []
  let acked := h.recv.ackOne x.psn
  ({ h with recv := acked.1 },
    { completion := registered ++ (acked.2.map CompletionTask.ackRecv).toList
      ack :=
        if x.pos.isEnd ∧ x.isRetry ∧ x.ackReq then [.nak acked.1.basePsn (x.psn - (1 : ℕ))]
        else [] })

/-- The work request that answers a read, built by `MetaHandler::handle_header_read`. -/
def readRespWr (x : HeaderReadMeta) : SendWrRdma where
  base :=
    { wrId := 0
      sendFlags := if x.ackReq then 4 else 0
      laddr := x.raddr
      length := x.totalLen
      lkey := x.rkey
      immData := 0
      opcode := .rdmaReadResp
      laddr_lt := x.raddr_lt
      length_lt := x.totalLen_lt }
  raddr := x.laddr
  rkey := x.lkey
  raddr_lt := x.laddr_lt

def handleHeaderRead (h : MetaHandler) (x : HeaderReadMeta) : MetaHandler × MetaOutput :=
  let event : Event := .recv ⟨.recvRead, ⟨x.msn, x.psn + 1⟩, true⟩
  let acked := if x.ackReq then h.recv.ackOne x.psn else (h.recv, none)
  ({ h with recv := acked.1 },
    { completion :=
        if x.ackReq then .register event :: (acked.2.map CompletionTask.ackRecv).toList else []
      rdmaWrite := [.write (readRespWr x)] })

/-- A window of the local card. -/
def handleAckLocalHw (h : MetaHandler) (psnNow : Psn) (nowBitmap : BitVec 128) :
    MetaHandler × MetaOutput :=
  let acked := h.recv.ackBitmap psnNow nowBitmap
  ({ h with recv := acked.1 }, (acked.2.map receiverUpdates).getD {})

/-- A window of the local card, and the one it left. -/
def handleNakLocalHw (h : MetaHandler) (psnNow : Psn) (nowBitmap : BitVec 128) (psnPre : Psn)
    (preBitmap : BitVec 128) : MetaHandler × MetaOutput :=
  let acked := h.recv.nakBitmap psnPre preBitmap psnNow nowBitmap
  ({ h with recv := acked.1 }, (acked.2.map receiverUpdates).getD {})

/-- An acknowledgement of the driver of the peer. -/
def handleAckRemoteDriver (h : MetaHandler) (psnNow : Psn) : MetaHandler × MetaOutput :=
  let acked := h.send.ackBefore psnNow
  ({ h with send := acked.1 }, (acked.2.map senderUpdates).getD {})

/-- Add a range retransmission to what is sent. -/
def withRetransmitRange (out : MetaOutput) (psnLow psnHigh : Psn) : MetaOutput :=
  { out with packetRetransmit := out.packetRetransmit ++ [.retransmitRange psnLow psnHigh] }

/-- A negative acknowledgement of the card of the peer. -/
def handleNakRemoteHw (h : MetaHandler) (msn : Msn) (psnNow : Psn) (nowBitmap : BitVec 128)
    (psnPre : Psn) (preBitmap : BitVec 128) : MetaHandler × MetaOutput :=
  let acked := h.send.nakBitmap msn psnPre preBitmap psnNow nowBitmap
  ({ h with send := acked.1 },
    withRetransmitRange ((acked.2.map senderUpdates).getD {}) psnPre (psnNow + 128))

def handleNakRemoteDriver (h : MetaHandler) (psnNow psnPre : Psn) : MetaHandler × MetaOutput :=
  let acked := h.send.ackBefore psnPre
  ({ h with send := acked.1 },
    withRetransmitRange ((acked.2.map senderUpdates).getD {}) psnPre psnNow)

/-- `MetaHandler::update_ack_timer`, which comes before the report is handled. -/
def withAckTimer (r : MetaHandler × MetaOutput) : MetaHandler × MetaOutput :=
  (r.1, { r.2 with ackTimeout := .recvMeta :: r.2.ackTimeout })

/-- `MetaHandler::handle_meta`: `none` is the `todo!` of congestion notifications. -/
def handleMeta (h : MetaHandler) : ReportMeta → Option (MetaHandler × MetaOutput)
  | .headerWrite x => some (withAckTimer (h.handleHeaderWrite x))
  | .headerRead x => some (withAckTimer (h.handleHeaderRead x))
  | .ackLocalHw psnNow nowBitmap => some (withAckTimer (h.handleAckLocalHw psnNow nowBitmap))
  | .ackRemoteDriver psnNow => some (withAckTimer (h.handleAckRemoteDriver psnNow))
  | .nakLocalHw psnNow nowBitmap psnPre preBitmap =>
    some (withAckTimer (h.handleNakLocalHw psnNow nowBitmap psnPre preBitmap))
  | .nakRemoteHw msn psnNow nowBitmap psnPre preBitmap =>
    some (withAckTimer (h.handleNakRemoteHw msn psnNow nowBitmap psnPre preBitmap))
  | .nakRemoteDriver psnNow psnPre => some (withAckTimer (h.handleNakRemoteDriver psnNow psnPre))
  | .cnp => none

end MetaHandler

end OpenRdma.Driver
