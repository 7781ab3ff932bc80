import OpenRdma.Driver.AckTimeout
import OpenRdma.Driver.Fragments
import OpenRdma.Driver.Handles
import OpenRdma.Driver.MatchCalls
import OpenRdma.Driver.Pairing
import OpenRdma.Driver.ReadCompletion
import OpenRdma.Driver.RetransmitQueue
import OpenRdma.Driver.SendStall
import OpenRdma.Driver.SendWindow
import OpenRdma.Driver.WriteErrors
import OpenRdma.Link.CommandAnswers
import OpenRdma.Link.LocalReports
import OpenRdma.Link.MetaPath
import OpenRdma.Link.MrTable
import OpenRdma.Link.PacketHeaders
import OpenRdma.Link.QpReset
import OpenRdma.Link.ReadPath
import OpenRdma.Link.RemoteNaks
import OpenRdma.Link.RingC2hFifo
import OpenRdma.Link.RingH2c
import OpenRdma.Link.SimpleNic
import OpenRdma.Rtl.BiDirectionShifter
import OpenRdma.Rtl.CnpPacketGen
import OpenRdma.Rtl.NetworkParam
import OpenRdma.Rtl.RqLengths
