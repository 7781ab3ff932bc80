import OpenRdma.Driver.Commands
import OpenRdma.Link.MemRegions
import OpenRdma.Link.QpContext
import OpenRdma.Link.SendDescs

/-!
# The descriptors of the command ring

The driver writes one descriptor for a command, and the card unpacks the structure of its operation
from it. Every field is read back, cut to its width in the card; the widths are those of the driver
but for three fields of the command about queue pairs.
-/

namespace OpenRdma.Rtl

/-- The fields of the two heads of a command that the card reads. -/
structure CmdHeads where
  opCode : BitVec 8
  userData : BitVec 8
  deriving DecidableEq

def CmdHeads.widths : List ℕ := [16, 7, 1, 8, 224]

def CmdHeads.unpack (b : RawDesc) : CmdHeads where
  opCode := b.opCode
  userData := b.extractLsb' (fieldPos widths 3) 8

def CmdQueueReqDescUpdateMrTable.widths : List ℕ := [16, 16, 32, 64, 32, 32, 32, 8, 17, 7]

def CmdQueueReqDescUpdateMrTable.unpack (b : RawDesc) : CmdQueueReqDescUpdateMrTable where
  mrBaseVA := b.extractLsb' (fieldPos widths 3) 64
  mrLength := b.extractLsb' (fieldPos widths 4) 32
  mrKey := b.extractLsb' (fieldPos widths 5) 32
  accFlags := b.extractLsb' (fieldPos widths 7) 8
  pgtOffset := b.extractLsb' (fieldPos widths 8) 17

def CmdQueueReqDescUpdatePGT.widths : List ℕ := [16, 16, 32, 64, 32, 32, 64]

def CmdQueueReqDescUpdatePGT.unpack (b : RawDesc) : CmdQueueReqDescUpdatePGT where
  dmaAddr := b.extractLsb' (fieldPos widths 3) 64
  startIndex := b.extractLsb' (fieldPos widths 4) 32
  zeroBasedEntryCount := b.extractLsb' (fieldPos widths 5) 32

/-- `CmdQueueReqDescQpManagement` with all its fields. -/
structure CmdQueueReqDescQpManagement extends Link.CmdQueueReqDescQpManagement where
  qpType : BitVec 4
  deriving DecidableEq

def CmdQueueReqDescQpManagement.widths : List ℕ :=
  [16, 16, 32, 1, 1, 6, 24, 32, 24, 8, 4, 4, 3, 5, 16, 16, 48]

def CmdQueueReqDescQpManagement.unpack (b : RawDesc) : CmdQueueReqDescQpManagement where
  peerIpAddr := b.extractLsb' (fieldPos widths 2) 32
  isValid := b.getLsbD (fieldPos widths 3)
  isError := b.getLsbD (fieldPos widths 4)
  qpn := b.extractLsb' (fieldPos widths 6) 24
  peerQPN := b.extractLsb' (fieldPos widths 8) 24
  rqAccessFlags := b.extractLsb' (fieldPos widths 9) 8
  qpType := b.extractLsb' (fieldPos widths 10) 4
  pmtu := b.extractLsb' (fieldPos widths 12) 3
  localUdpPort := b.extractLsb' (fieldPos widths 15) 16
  peerMacAddr := b.extractLsb' (fieldPos widths 16) 48

structure CmdQueueReqDescSetNetworkParam where
  gateWay : BitVec 32
  netMask : BitVec 32
  ipAddr : BitVec 32
  macAddr : BitVec 48
  deriving DecidableEq

def CmdQueueReqDescSetNetworkParam.widths : List ℕ := [16, 16, 32, 32, 32, 32, 32, 48, 16]

/-- The command that sets the addresses of the card, of its bits. -/
def CmdQueueReqDescSetNetworkParam.unpack (b : RawDesc) : CmdQueueReqDescSetNetworkParam where
  gateWay := b.extractLsb' (fieldPos widths 3) 32
  netMask := b.extractLsb' (fieldPos widths 4) 32
  ipAddr := b.extractLsb' (fieldPos widths 5) 32
  macAddr := b.extractLsb' (fieldPos widths 7) 48

structure CmdQueueReqDescSetRawPacketReceiveMeta where
  writeBaseAddr : BitVec 64
  deriving DecidableEq

def CmdQueueReqDescSetRawPacketReceiveMeta.widths : List ℕ := [16, 16, 32, 64, 64, 64]

/-- The command that sets the buffer for raw packets, of its bits. -/
def CmdQueueReqDescSetRawPacketReceiveMeta.unpack (b : RawDesc) :
    CmdQueueReqDescSetRawPacketReceiveMeta where
  writeBaseAddr := b.extractLsb' (fieldPos widths 3) 64

end OpenRdma.Rtl

namespace OpenRdma.Driver.DriverCommand

open OpenRdma.Rtl OpenRdma.Link

variable {c : DriverCommand} {d : Desc}

/-! ## What the card unpacks -/

/-- The fields of a command that the driver takes from its caller and that are narrower in the
card. -/
def Fits : DriverCommand → Prop
  | updateQp e => e.peerQpn < 2 ^ 24 ∧ e.qpType < 2 ^ 4 ∧ e.pmtu < 2 ^ 3
  | _ => True

end OpenRdma.Driver.DriverCommand
