import OpenRdma.Foundations.Layout
import OpenRdma.Rtl.Headers

/-!
# From Ethernet frames to packets

The two modules in front of the receive queue. The classifier routes the beats of a frame by the
addresses and the port in its first two beats; the extractor takes the headers of a routed frame
from its first three beats and passes the others on as payload. Each rule is a function of the state
that has no value where the rule is not enabled. FIFOs are unbounded, and FIFOs joined by a
connection are one. Assertions are those of a simulation, and no part of the model.
-/

namespace OpenRdma.Rtl

open Layout BitVec

/-! ## Beats and frames -/

/-- A beat of 32 bytes. -/
structure DataStream where
  data : BitVec 256
  byteNum : BitVec 6
  startByteIdx : BitVec 5
  isFirst : Bool
  isLast : Bool
  deriving DecidableEq

/-- The bytes of a number in reverse order. -/
def swapBytes : ℕ → ℕ → ℕ
  | 0, _ => 0
  | n + 1, x => x % 256 * 256 ^ n + swapBytes n (x / 256)

/-- The beat with its bytes in reverse order. -/
def swapEndianByte (data : BitVec 256) : BitVec 256 := BitVec.ofNat 256 (swapBytes 32 data.toNat)

theorem swapBytes_eq (n x : ℕ) : swapBytes n x = Nat.ofDigits 256 (leBytes n x).reverse := by
  induction n generalizing x with
  | zero => rfl
  | succ n ih =>
    rw [swapBytes, ih, leBytes, List.reverse_cons, Nat.ofDigits_append, List.length_reverse,
      length_leBytes, Nat.ofDigits_singleton, Nat.mul_comm, Nat.add_comm]

theorem leBytes_swapBytes (n x : ℕ) : leBytes n (swapBytes n x) = (leBytes n x).reverse := by
  have hlen : (leBytes n x).reverse.length = n := by rw [List.length_reverse, length_leBytes]
  rw [swapBytes_eq]
  nth_rewrite 1 [← hlen]
  exact leBytes_ofDigits fun d hd => lt_of_mem_leBytes (List.mem_reverse.1 hd)

theorem swapBytes_swapBytes (n x : ℕ) : swapBytes n (swapBytes n x) = x % 256 ^ n := by
  rw [swapBytes_eq, leBytes_swapBytes, List.reverse_reverse, ofDigits_leBytes]

theorem swapBytes_lt (n x : ℕ) : swapBytes n x < 256 ^ n := by
  induction n generalizing x with
  | zero => exact Nat.one_pos
  | succ n ih =>
    have hbyte := Nat.mod_lt x (show 256 > 0 by decide)
    have hrest := ih (x / 256)
    rw [swapBytes, pow_succ']
    calc x % 256 * 256 ^ n + swapBytes n (x / 256)
        < x % 256 * 256 ^ n + 256 ^ n := Nat.add_lt_add_left hrest _
      _ = (x % 256 + 1) * 256 ^ n := (Nat.succ_mul _ _).symm
      _ ≤ 256 * 256 ^ n := Nat.mul_le_mul_right _ hbyte

theorem toNat_swapEndianByte (data : BitVec 256) :
    (swapEndianByte data).toNat = swapBytes 32 data.toNat := by
  have hlt := swapBytes_lt 32 data.toNat
  rw [show 256 ^ 32 = 2 ^ 256 by norm_num] at hlt
  rw [swapEndianByte, toNat_ofNat, Nat.mod_eq_of_lt hlt]

theorem swapEndianByte_swapEndianByte (data : BitVec 256) :
    swapEndianByte (swapEndianByte data) = data := by
  apply eq_of_toNat_eq
  rw [toNat_swapEndianByte, toNat_swapEndianByte, swapBytes_swapBytes,
    show 256 ^ 32 = 2 ^ 256 by norm_num, Nat.mod_eq_of_lt data.isLt]

/-- A field inside a byte is found in the byte at the mirrored place. -/
theorem extractLsb'_swapEndianByte (data : BitVec 256) {j b w : ℕ} (hj : j < 32) (hb : b + w ≤ 8) :
    (swapEndianByte data).extractLsb' (8 * j + b) w = data.extractLsb' (8 * (31 - j) + b) w := by
  have hfield : ∀ x k, x >>> (8 * k + b) % 2 ^ w = x / 256 ^ k % 256 / 2 ^ b % 2 ^ w :=
    fun x k => by
    have hbyte : 2 ^ b * 2 ^ (8 - b) = 2 ^ 8 := by rw [← pow_add, show b + (8 - b) = 8 by omega]
    rw [Nat.shiftRight_eq_div_pow, pow_add, ← Nat.div_div_eq_div_mul, pow_mul]
    change _ = x / (2 ^ 8) ^ k % 2 ^ 8 / 2 ^ b % 2 ^ w
    rw [← hbyte, Nat.mod_mul_right_div_self, Nat.mod_mod_of_dvd _
      (pow_dvd_pow 2 (show w ≤ 8 - b by omega))]
  have hbytes := congrArg (·[j]?) (leBytes_swapBytes 32 data.toNat)
  simp only [List.getElem?_reverse (show j < (leBytes 32 data.toNat).length by rwa
    [length_leBytes]), length_leBytes, getElem?_leBytes hj,
    getElem?_leBytes (show 32 - 1 - j < 32 by omega), Option.some.injEq] at hbytes
  apply eq_of_toNat_eq
  rw [extractLsb'_toNat, extractLsb'_toNat, toNat_swapEndianByte, hfield, hfield, hbytes]

/-- The addresses of the card. -/
structure LocalNetworkSettings where
  macAddr : BitVec 48
  ipAddr : BitVec 32
  deriving DecidableEq

/-- The addresses of the sender of a packet. -/
structure ThinMacIpUdpMetaDataForRecv where
  srcMacAddr : BitVec 48
  ipDscp : BitVec 6
  ipEcn : BitVec 2
  srcIpAddr : BitVec 32
  srcPort : BitVec 16
  deriving DecidableEq, Inhabited

/-! ## Fields of the first beats -/

def ethTypeIp : BitVec 16 := 0x0800

def ipProtocolUdp : BitVec 8 := 0x11

def udpPortRdma : BitVec 16 := 4791

/-- The classification of a frame. -/
structure EthernetPacketMeta where
  isRdmaPacket : Bool
  isError : Bool
  isAddrMatch : Bool
  deriving DecidableEq

/-- What the classifier keeps of the first beat. -/
structure EthernetPacketMetaExtractPipelineEntry where
  mustNotBeRdmaPacket : Bool
  macIpUdpMeta : ThinMacIpUdpMetaDataForRecv
  macUnicastMatch : Bool
  macAddrBroadcastMatch : Bool
  partialDstIpAddrHigher16BitsMatch : Bool
  deriving DecidableEq, Inhabited

/-- The destination of the frame, if `data` is its first beat. -/
def macUnicastMatch (settings : LocalNetworkSettings) (data : BitVec 256) : Bool :=
  (swapEndianByte data).extractLsb' 208 48 == settings.macAddr

/-- The fields of the first beat. It ends in the middle of the destination IP address. -/
def firstBeatEntry (settings : LocalNetworkSettings) (macUnicastMatch : Bool) (data : BitVec 256) :
    EthernetPacketMetaExtractPipelineEntry :=
  let data := swapEndianByte data
  { mustNotBeRdmaPacket :=
      data.extractLsb' 144 16 != ethTypeIp || data.extractLsb' 64 8 != ipProtocolUdp
    macIpUdpMeta :=
      { srcMacAddr := data.extractLsb' 160 48
        ipDscp := data.extractLsb' 130 6
        ipEcn := data.extractLsb' 128 2
        srcIpAddr := data.extractLsb' 16 32
        srcPort := 0 }
    macUnicastMatch := macUnicastMatch
    macAddrBroadcastMatch := data.extractLsb' 208 48 == BitVec.allOnes 48
    partialDstIpAddrHigher16BitsMatch := data.extractLsb' 0 16 == settings.ipAddr.extractLsb' 16
      16 }

/-- The classification of a frame with this second beat. -/
def secondBeatMeta (settings : LocalNetworkSettings)
    (entry : EthernetPacketMetaExtractPipelineEntry) (data : BitVec 256) : EthernetPacketMeta :=
  let data := swapEndianByte data
  { isRdmaPacket := !(data.extractLsb' 208 16 != udpPortRdma || entry.mustNotBeRdmaPacket)
    isError := false
    isAddrMatch := (entry.macUnicastMatch || entry.macAddrBroadcastMatch) &&
      (entry.partialDstIpAddrHigher16BitsMatch &&
        settings.ipAddr.extractLsb' 0 16 == data.extractLsb' 240 16) }

/-- The addresses of the sender, with the port from the second beat. -/
def secondBeatMacIpUdpMeta (entry : EthernetPacketMetaExtractPipelineEntry) (data : BitVec 256) :
    ThinMacIpUdpMetaDataForRecv :=
  { entry.macIpUdpMeta with srcPort := (swapEndianByte data).extractLsb' 224 16 }

/-- The frame goes to the receive queue. -/
def EthernetPacketMeta.routed (m : EthernetPacketMeta) : Bool :=
  m.isAddrMatch && m.isRdmaPacket && !m.isError

def ipHeaderEcnFlagMarked : BitVec 2 := 3

/-- The mark of congestion, as the extractor reads it: without a change of the order of bytes. -/
def ecnMarked (data : BitVec 256) : Bool := data.extractLsb' 128 2 == 3

/-- The headers in the second beat, with the first part of the extended headers. -/
def secondBeatPacketMeta (ecnFlag : Bool) (data : BitVec 256) : RdmaRecvPacketMeta :=
  let data := swapEndianByte data
  let bth := Bth.unpack (data.extractLsb' 80 96)
  { bth := bth
    rdmaExtendHeaderBuf := data.extractLsb' 0 80 ++ (0 : BitVec 256)
    hasPayload := bth.opcode.rdmaOpCodeHasPayload
    isEcnMarked := ecnFlag }

/-- The headers with the extended headers of the third beat. A packet of length zero has no
payload. -/
def thirdBeatPacketMeta (rdmaMeta : RdmaRecvPacketMeta) (data : BitVec 256) : RdmaRecvPacketMeta :=
  let buf := rdmaMeta.rdmaExtendHeaderBuf.extractLsb' 256 80 ++ swapEndianByte data
  { rdmaMeta with
    rdmaExtendHeaderBuf := buf
    hasPayload := rdmaMeta.hasPayload && !((extractPriRETH buf rdmaMeta.bth.trans).dlen == 0) }

/-! ## The two modules -/

inductive InputPacketClassifierState
  | handleFirstBeat | handleSecondBeat | handleMoreBeat
  deriving DecidableEq

inductive RdmaMetaAndPayloadExtractorState
  | handleFirstBeat | handleSecondBeat | handleThirdBeat | handleMoreBeat
  deriving DecidableEq

/-- The registers and FIFOs of the classifier and the extractor. The last four FIFOs are those the
receive queue reads. -/
structure PacketParse where
  classifierState : InputPacketClassifierState
  canAcceptRawInputPacket : Bool
  metaExtract : EthernetPacketMetaExtractPipelineEntry
  ethRawPacketIn : List DataStream
  ethRawPacketForHandle : List (DataStream × Bool)
  waitingForRoute : List DataStream
  ethPacketMeta : List EthernetPacketMeta
  otherRawPacketOut : List DataStream
  rdmaRawPacketOut : List DataStream
  extractorState : RdmaMetaAndPayloadExtractorState
  firstBeatEcn : Bool
  partialRdmaMeta : RdmaRecvPacketMeta
  payloadStreamOutputIsFirst : Bool
  beatCnt : BitVec 8
  rdmaMacIpUdpMetaOut : List ThinMacIpUdpMetaDataForRecv
  rdmaPacketMetaOut : List RdmaRecvPacketMeta
  rdmaPacketTailMetaOut : List (BitVec 8)
  rdmaPayloadOut : List DataStream
  deriving DecidableEq

namespace PacketParse

/-- The state after a reset. The other registers have no value then. -/
structure Initial (p : PacketParse) : Prop where
  classifierState : p.classifierState = .handleFirstBeat
  canAcceptRawInputPacket : p.canAcceptRawInputPacket = false
  ethRawPacketIn : p.ethRawPacketIn = []
  ethRawPacketForHandle : p.ethRawPacketForHandle = []
  waitingForRoute : p.waitingForRoute = []
  ethPacketMeta : p.ethPacketMeta = []
  rdmaRawPacketOut : p.rdmaRawPacketOut = []
  extractorState : p.extractorState = .handleFirstBeat
  payloadStreamOutputIsFirst : p.payloadStreamOutputIsFirst = true
  beatCnt : p.beatCnt = 1
  rdmaMacIpUdpMetaOut : p.rdmaMacIpUdpMetaOut = []
  rdmaPacketMetaOut : p.rdmaPacketMetaOut = []
  rdmaPacketTailMetaOut : p.rdmaPacketTailMetaOut = []
  rdmaPayloadOut : p.rdmaPayloadOut = []

/-- Beats before the first beat of a frame are dropped. The network settings are set. -/
def discardPacketWhenNetworkSettingsNotReady (settings : LocalNetworkSettings) (p : PacketParse) :
    Option PacketParse :=
  match p.ethRawPacketIn with
  | [] => none
  | ds :: rest =>
    if ds.isFirst || p.canAcceptRawInputPacket then
      some { p with
        ethRawPacketIn := rest
        canAcceptRawInputPacket := true
        ethRawPacketForHandle := p.ethRawPacketForHandle ++ [(ds, macUnicastMatch settings ds.data)]
        waitingForRoute := p.waitingForRoute ++ [ds] }
    else some { p with ethRawPacketIn := rest }

def handleFirstBeatStage (settings : LocalNetworkSettings) (ds : DataStream) (macMatch : Bool)
    (p : PacketParse) : PacketParse :=
  let p := { p with metaExtract := firstBeatEntry settings macMatch ds.data }
  if ds.isLast then { p with ethPacketMeta := p.ethPacketMeta ++ [⟨false, true, false⟩] }
  else { p with classifierState := .handleSecondBeat }

def handleSecondBeatStage (settings : LocalNetworkSettings) (ds : DataStream) (p : PacketParse) :
    PacketParse :=
  let ethMeta := secondBeatMeta settings p.metaExtract ds.data
  { p with
    ethPacketMeta := p.ethPacketMeta ++ [ethMeta]
    rdmaMacIpUdpMetaOut := p.rdmaMacIpUdpMetaOut ++
      if ethMeta.routed then [secondBeatMacIpUdpMeta p.metaExtract ds.data] else []
    classifierState := if ds.isLast then .handleFirstBeat else .handleMoreBeat }

def handleMoreBeatStage (ds : DataStream) (p : PacketParse) : PacketParse :=
  if ds.isLast then { p with classifierState := .handleFirstBeat } else p

/-- The rule of the classifier for the next beat. -/
def handleBeatStage (settings : LocalNetworkSettings) (p : PacketParse) : Option PacketParse :=
  match p.ethRawPacketForHandle with
  | [] => none
  | (ds, macMatch) :: rest =>
    let p' := { p with ethRawPacketForHandle := rest }
    some <|
      match p.classifierState with
      | .handleFirstBeat => p'.handleFirstBeatStage settings ds macMatch
      | .handleSecondBeat => p'.handleSecondBeatStage settings ds
      | .handleMoreBeat => p'.handleMoreBeatStage ds

/-- A beat goes where its frame is routed. -/
def dispatchStream (p : PacketParse) : Option PacketParse :=
  match p.waitingForRoute, p.ethPacketMeta with
  | ds :: rest, ethMeta :: metas =>
    let p := { p with
      waitingForRoute := rest
      ethPacketMeta := if ds.isLast then metas else ethMeta :: metas }
    some <|
      if !ethMeta.isError && ethMeta.isAddrMatch then
        if ethMeta.isRdmaPacket then { p with rdmaRawPacketOut := p.rdmaRawPacketOut ++ [ds] }
        else { p with otherRawPacketOut := p.otherRawPacketOut ++ [ds] }
      else p
  | _, _ => none

def handleFirstBeat (ds : DataStream) (p : PacketParse) : PacketParse :=
  let p := { p with firstBeatEcn := ecnMarked ds.data }
  if ds.isLast then p else { p with extractorState := .handleSecondBeat }

def handleSecondBeat (ds : DataStream) (p : PacketParse) : PacketParse :=
  { p with
    partialRdmaMeta := secondBeatPacketMeta p.firstBeatEcn ds.data
    extractorState := if ds.isLast then .handleFirstBeat else .handleThirdBeat }

/-- The third beat of a routed frame: the headers are complete. -/
def handleThirdBeat (ds : DataStream) (p : PacketParse) : PacketParse :=
  { p with
    rdmaPacketMetaOut := p.rdmaPacketMetaOut ++ [thirdBeatPacketMeta p.partialRdmaMeta ds.data]
    extractorState := if ds.isLast then .handleFirstBeat else .handleMoreBeat }

/-- A beat of payload. With the last one, the number of beats is passed on. -/
def handleMoreBeat (ds : DataStream) (p : PacketParse) : PacketParse :=
  let p := { p with
    rdmaPayloadOut := p.rdmaPayloadOut ++ [{ ds with isFirst := p.payloadStreamOutputIsFirst }] }
  if ds.isLast then
    { p with
      extractorState := .handleFirstBeat
      payloadStreamOutputIsFirst := true
      beatCnt := 1
      rdmaPacketTailMetaOut := p.rdmaPacketTailMetaOut ++ [p.beatCnt] }
  else
    { p with
      payloadStreamOutputIsFirst := false
      beatCnt := p.beatCnt + 1 }

/-- The rule of the extractor for the next beat. -/
def handleBeat (p : PacketParse) : Option PacketParse :=
  match p.rdmaRawPacketOut with
  | [] => none
  | ds :: rest =>
    let p' := { p with rdmaRawPacketOut := rest }
    some <|
      match p.extractorState with
      | .handleFirstBeat => p'.handleFirstBeat ds
      | .handleSecondBeat => p'.handleSecondBeat ds
      | .handleThirdBeat => p'.handleThirdBeat ds
      | .handleMoreBeat => p'.handleMoreBeat ds

end PacketParse

end OpenRdma.Rtl
