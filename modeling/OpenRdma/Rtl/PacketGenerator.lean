import OpenRdma.Foundations.Layout
import OpenRdma.Rtl.AutoAck
import OpenRdma.Rtl.FrameIO

/-!
# The generator of Ethernet frames

The generator puts the Ethernet, IP and UDP headers in front of the headers and the payload of a
packet. The addresses of the destination come with the packet, those of the source are the ones of
the card, from a register that is not valid after a reset. All of them but a half of the IP address
of the destination are in the first beat.
-/

namespace OpenRdma.Rtl

open Layout BitVec List

/-! ## Headers -/

structure EthHeader where
  dstMacAddr : BitVec 48
  srcMacAddr : BitVec 48
  ethType : BitVec 16
  deriving DecidableEq

structure IpHeader where
  ipVersion : BitVec 4
  ipIHL : BitVec 4
  ipDscp : BitVec 6
  ipEcn : BitVec 2
  ipTL : BitVec 16
  ipID : BitVec 16
  ipFlag : BitVec 3
  ipOffset : BitVec 13
  ipTTL : BitVec 8
  ipProtocol : BitVec 8
  ipChecksum : BitVec 16
  srcIpAddr : BitVec 32
  dstIpAddr : BitVec 32
  deriving DecidableEq

structure UdpHeader where
  srcPort : BitVec 16
  dstPort : BitVec 16
  length : BitVec 16
  checksum : BitVec 16
  deriving DecidableEq

/-- The three headers of a frame. -/
structure MacIpUdpHeader where
  ethHeader : EthHeader
  ipHeader : IpHeader
  udpHeader : UdpHeader
  deriving DecidableEq

/-- The packed fields, the first in the highest bits. -/
def EthHeader.fields (h : EthHeader) : List Field :=
  [⟨48, h.dstMacAddr.toNat⟩, ⟨48, h.srcMacAddr.toNat⟩, ⟨16, h.ethType.toNat⟩]

/-- The packed fields, the first in the highest bits. -/
def IpHeader.fields (h : IpHeader) : List Field :=
  [⟨4, h.ipVersion.toNat⟩, ⟨4, h.ipIHL.toNat⟩, ⟨6, h.ipDscp.toNat⟩, ⟨2, h.ipEcn.toNat⟩,
    ⟨16, h.ipTL.toNat⟩, ⟨16, h.ipID.toNat⟩, ⟨3, h.ipFlag.toNat⟩, ⟨13, h.ipOffset.toNat⟩,
    ⟨8, h.ipTTL.toNat⟩, ⟨8, h.ipProtocol.toNat⟩, ⟨16, h.ipChecksum.toNat⟩, ⟨32, h.srcIpAddr.toNat⟩,
    ⟨32, h.dstIpAddr.toNat⟩]

/-- The packed fields, the first in the highest bits. -/
def UdpHeader.fields (h : UdpHeader) : List Field :=
  [⟨16, h.srcPort.toNat⟩, ⟨16, h.dstPort.toNat⟩, ⟨16, h.length.toNat⟩, ⟨16, h.checksum.toNat⟩]

/-- The packed fields, the first in the highest bits. -/
def MacIpUdpHeader.fields (h : MacIpUdpHeader) : List Field :=
  h.ethHeader.fields ++ h.ipHeader.fields ++ h.udpHeader.fields

/-- The packed headers. -/
def MacIpUdpHeader.bits (h : MacIpUdpHeader) : BitVec 336 :=
  BitVec.ofNat 336 (pack h.fields.reverse)

/-- `mapPairs(add, pass, ·)`, a level of the tree of adders: pairs are added with one bit more. -/
def mapPairs {w : ℕ} : List (BitVec w) → List (BitVec (w + 1))
  | a :: b :: l => (a.setWidth (w + 1) + b.setWidth (w + 1)) :: mapPairs l
  | l => l.map (·.setWidth (w + 1))

/-- What `mkIpHdrCheckSumStream` computes of a header: the ten words are added by a tree, and the
carries of their sum are added once. -/
def ipHdrCheckSum (h : IpHeader) : BitVec 16 :=
  let ipHdrVec : List (BitVec 16) := (List.range 10).map fun i =>
    .ofNat 16 (pack h.fields.reverse / 2 ^ (16 * i))
  let sum : BitVec 20 := (mapPairs (mapPairs (mapPairs (mapPairs ipHdrVec)))).headD 0
  ~~~(sum.setWidth 16 + (sum.extractLsb' 16 4).setWidth 16)

/-- `genUdpIpHeader` and the Ethernet header of `prepareIpHeader`. -/
def genMacIpUdpHeader (ethIpUdpMeta : ThinMacIpUdpMetaDataForSend)
    (localNetSettings : LocalNetworkSettings) (ipId : BitVec 16) : MacIpUdpHeader :=
  let udpLen := ethIpUdpMeta.udpPayloadLen + 8
  { ethHeader := ⟨ethIpUdpMeta.dstMacAddr, localNetSettings.macAddr, ethIpUdpMeta.ethType⟩
    ipHeader :=
      { ipVersion := 4
        ipIHL := 5
        ipDscp := ethIpUdpMeta.ipDscp
        ipEcn := ethIpUdpMeta.ipEcn
        ipTL := udpLen + 20
        ipID := ipId
        ipFlag := 0
        ipOffset := 0
        ipTTL := 64
        ipProtocol := 17
        ipChecksum := 0
        srcIpAddr := localNetSettings.ipAddr
        dstIpAddr := ethIpUdpMeta.dstIpAddr }
    udpHeader := ⟨ethIpUdpMeta.srcPort, ethIpUdpMeta.dstPort, udpLen, 0⟩ }

/-! ## The rules -/

inductive EthernetPacketGeneratorState
  | genFirstBeat | genSecondBeat | genThirdBeat | genMoreBeat
  deriving DecidableEq

/-- `mkEthernetPacketGenerator`, without the queue the beats leave by. The headers of RDMA come
packed. -/
structure EthernetPacketGenerator where
  macIpUdpMetaPipeInQ : List ThinMacIpUdpMetaDataForSend
  rdmaPacketMetaPipeInQ : List (BitVec 432)
  rdmaPayloadPipeInQ : List DataStream
  ipHdrCheckSumStream : List (BitVec 16)
  ipHeaderChecksumCalcPipelineQ : List (MacIpUdpHeader × BitVec 14)
  firstBeatToSecondBeatPipelineReg : MacIpUdpHeader
  secondBeatToThirdBeatPipelineReg : MacIpUdpHeader × BitVec 432
  networkSettingsReg : Option LocalNetworkSettings
  ethernetFrameLeftByteCounterReg : BitVec 14
  statusReg : EthernetPacketGeneratorState
  deriving DecidableEq

/-- The rules of `mkEthernetPacketGenerator`. -/
inductive PacketGeneratorRule
  | prepareIpHeader
  | genFirstBeat
  | genSecondBeat
  | genThirdBeat
  | genMoreBeat
  deriving DecidableEq

namespace EthernetPacketGenerator

/-- The state after a reset. The other registers keep what they hold. -/
def reset (g : EthernetPacketGenerator) : EthernetPacketGenerator :=
  { g with
    macIpUdpMetaPipeInQ := []
    rdmaPacketMetaPipeInQ := []
    rdmaPayloadPipeInQ := []
    ipHdrCheckSumStream := []
    ipHeaderChecksumCalcPipelineQ := []
    networkSettingsReg := none
    statusReg := .genFirstBeat }

/-- `prepareIpHeader`, with `undef` in place of settings that are not there. -/
def prepareIpHeader (undef : LocalNetworkSettings) (g : EthernetPacketGenerator) :
    Option EthernetPacketGenerator :=
  match g.macIpUdpMetaPipeInQ with
  | [] => none
  | macIpUdpMeta :: metas =>
    let header := genMacIpUdpHeader macIpUdpMeta (g.networkSettingsReg.getD undef) 1
    some { g with
      macIpUdpMetaPipeInQ := metas
      ipHdrCheckSumStream := g.ipHdrCheckSumStream ++ [ipHdrCheckSum header.ipHeader]
      ipHeaderChecksumCalcPipelineQ := g.ipHeaderChecksumCalcPipelineQ ++
        [(header, macIpUdpMeta.udpPayloadLen.setWidth 14 + 42)] }

/-- A beat of headers, of the 256 bits of a frame from the bit `off` on, counted from the
highest. -/
def headerBeat (macIpUdpHeader : MacIpUdpHeader) (header : BitVec 432) (off : ℕ)
    (isFirst isLast : Bool) : DataStream where
  data := swapEndianByte ((macIpUdpHeader.bits ++ header).extractLsb' (512 - off) 256)
  byteNum := 32
  startByteIdx := 0
  isFirst := isFirst
  isLast := isLast

/-- `genFirstBeat`. The headers of RDMA are not in the first beat. -/
def genFirstBeat (g : EthernetPacketGenerator) : Option (EthernetPacketGenerator × DataStream) :=
  match g.ipHdrCheckSumStream, g.ipHeaderChecksumCalcPipelineQ with
  | checksum :: checksums, (header, totalEthernetFrameLen) :: entries =>
    if g.statusReg = .genFirstBeat then
      let header := { header with ipHeader := { header.ipHeader with ipChecksum := checksum } }
      some ({ g with
        ipHdrCheckSumStream := checksums
        ipHeaderChecksumCalcPipelineQ := entries
        ethernetFrameLeftByteCounterReg := totalEthernetFrameLen - 32
        firstBeatToSecondBeatPipelineReg := header
        statusReg := .genSecondBeat }, headerBeat header 0 0 true false)
    else none
  | _, _ => none

def genSecondBeat (g : EthernetPacketGenerator) : Option (EthernetPacketGenerator × DataStream) :=
  match g.rdmaPacketMetaPipeInQ with
  | [] => none
  | header :: headers =>
    if g.statusReg = .genSecondBeat then
      let isLast : Bool := g.ethernetFrameLeftByteCounterReg ≤ 32
      some ({ g with
        rdmaPacketMetaPipeInQ := headers
        ethernetFrameLeftByteCounterReg := g.ethernetFrameLeftByteCounterReg - 32
        secondBeatToThirdBeatPipelineReg := (g.firstBeatToSecondBeatPipelineReg, header)
        statusReg := if isLast then .genFirstBeat else .genThirdBeat },
        headerBeat g.firstBeatToSecondBeatPipelineReg header 256 false isLast)
    else none

def genThirdBeat (g : EthernetPacketGenerator) : Option (EthernetPacketGenerator × DataStream) :=
  if g.statusReg = .genThirdBeat then
    let isLast : Bool := g.ethernetFrameLeftByteCounterReg ≤ 32
    some ({ g with
      ethernetFrameLeftByteCounterReg := g.ethernetFrameLeftByteCounterReg - 32
      statusReg := if isLast then .genFirstBeat else .genMoreBeat },
      headerBeat g.secondBeatToThirdBeatPipelineReg.1 g.secondBeatToThirdBeatPipelineReg.2 512
      false isLast)
  else none

/-- `genMoreBeat`. A stream of Ethernet starts at the first byte, so the bytes before the payload
are taken for payload. -/
def genMoreBeat (g : EthernetPacketGenerator) : Option (EthernetPacketGenerator × DataStream) :=
  match g.rdmaPayloadPipeInQ with
  | [] => none
  | payload :: payloads =>
    if g.statusReg = .genMoreBeat then
      let isLast : Bool := g.ethernetFrameLeftByteCounterReg ≤ 32
      some ({ g with
        rdmaPayloadPipeInQ := payloads
        ethernetFrameLeftByteCounterReg := g.ethernetFrameLeftByteCounterReg - 32
        statusReg := if isLast then .genFirstBeat else .genMoreBeat },
        ⟨payload.data, payload.byteNum + payload.startByteIdx.setWidth 6, 0, false, isLast⟩)
    else none

def fire (undef : LocalNetworkSettings) (g : EthernetPacketGenerator) :
    PacketGeneratorRule → Option (EthernetPacketGenerator × List DataStream)
  | .prepareIpHeader => (g.prepareIpHeader undef).map fun g' => (g', [])
  | .genFirstBeat => g.genFirstBeat.map fun (g', ds) => (g', [ds])
  | .genSecondBeat => g.genSecondBeat.map fun (g', ds) => (g', [ds])
  | .genThirdBeat => g.genThirdBeat.map fun (g', ds) => (g', [ds])
  | .genMoreBeat => g.genMoreBeat.map fun (g', ds) => (g', [ds])

end EthernetPacketGenerator

/-! ## The source of a frame -/

/-- The addresses of the source in the first beat of a frame, as the classifier of the peer reads
them. -/
def sourceOf (data : BitVec 256) : BitVec 48 × BitVec 32 :=
  ((swapEndianByte data).extractLsb' 160 48, (swapEndianByte data).extractLsb' 16 32)

theorem sourceOf_headerBeat (h : MacIpUdpHeader) (header : BitVec 432) (isFirst isLast : Bool) :
    sourceOf (EthernetPacketGenerator.headerBeat h header 0 isFirst isLast).data =
      (h.ethHeader.srcMacAddr, h.ipHeader.srcIpAddr) := by
  have hbits (off w : ℕ) (hw : off + w ≤ 256) :
      ((h.bits ++ header).extractLsb' 512 256).extractLsb' off w =
      h.bits.extractLsb' (80 + off) w := by
    apply eq_of_getLsbD_eq
    intro i hi
    have hlt : off + i < 256 := by omega
    have hge : ¬ 512 + (off + i) < 432 := by omega
    simp only [getLsbD_extractLsb', getLsbD_append, hi, hlt, hge, decide_true,
      Bool.true_and, if_false]
    exact congrArg _ (by omega)
  have hfield {off w : ℕ} {v : BitVec w} (hw : off + w ≤ 336)
      (hs : slice off w h.fields.reverse = some [⟨w, v.toNat⟩]) : h.bits.extractLsb' off w = v := by
    rw [MacIpUdpHeader.bits, extractLsb'_pack hw hs, pack_singleton, Nat.mod_eq_of_lt v.isLt,
      ofNat_toNat, setWidth_eq]
  rw [sourceOf, EthernetPacketGenerator.headerBeat, swapEndianByte_swapEndianByte, Nat.sub_zero,
    hbits 160 48 (by decide), hbits 16 32 (by decide), hfield (by decide) rfl,
    hfield (by decide) rfl]

/-! ## The checksum of a header -/

/-- The ten words of a header, the last first. -/
def IpHeader.words (h : IpHeader) : List ℕ :=
  (List.range 10).map fun i => pack h.fields.reverse / 2 ^ (16 * i) % 2 ^ 16

/-- The sum of words of 16 bits in one's complement: a carry out of the highest bit is added to the
lowest. -/
def onesComplementSum (ws : List ℕ) : ℕ := ws.foldl (fun a w => (a + w) % 2 ^ 16 + (a + w) / 2 ^ 16)
    0

theorem foldl_onesComplement {ws : List ℕ} (hws : ∀ w ∈ ws, w < 2 ^ 16) {a : ℕ} (ha : a < 2 ^ 16) :
    ws.foldl (fun a w => (a + w) % 2 ^ 16 + (a + w) / 2 ^ 16) a =
      if a + ws.sum = 0 then 0 else (a + ws.sum - 1) % 65535 + 1 := by
  induction ws generalizing a with
  | nil =>
    rw [foldl_nil, sum_nil]
    split_ifs <;> omega
  | cons w ws ih =>
    obtain ⟨hw, hws⟩ := forall_mem_cons.1 hws
    rw [foldl_cons, ih hws (by omega), sum_cons]
    split_ifs <;> omega

theorem map_words {lo c : ℕ} (hlo : lo < 2 ^ 64) (hc : c < 2 ^ 16) (hi : ℕ) :
    (List.range 10).map (fun i => (lo + 2 ^ 64 * (c + 2 ^ 16 * hi)) / 2 ^ (16 * i) % 2 ^ 16) =
      (List.range 4).map (fun i => lo / 2 ^ (16 * i) % 2 ^ 16) ++
        c :: (List.range 5).map (fun i => hi / 2 ^ (16 * i) % 2 ^ 16) := by
  simp only [List.range, List.range.loop, List.map, List.cons_append, List.nil_append,
    List.cons.injEq, and_true]
  refine ⟨?_, ?_, ?_, ?_, ?_, ?_, ?_, ?_, ?_, ?_⟩ <;> omega

/-- The checksum is one of the words. -/
theorem sum_words (h : IpHeader) (c : BitVec 16) :
    { h with ipChecksum := c }.words.sum = { h with ipChecksum := 0 }.words.sum + c.toNat := by
  have hpack (c : BitVec 16) : pack { h with ipChecksum := c }.fields.reverse =
      pack [⟨32, h.dstIpAddr.toNat⟩, ⟨32, h.srcIpAddr.toNat⟩] +
        2 ^ 64 * (c.toNat + 2 ^ 16 * pack (h.fields.reverse.drop 3)) := by
    rw [← Nat.mod_eq_of_lt c.isLt]
    exact pack_append [_, _] (_ :: _)
  have hlo := pack_lt [⟨32, h.dstIpAddr.toNat⟩, ⟨32, h.srcIpAddr.toNat⟩]
  rw [IpHeader.words, IpHeader.words, hpack, hpack, map_words hlo c.isLt, map_words hlo (by decide)]
  simp only [sum_append, sum_cons, ofNat_eq_ofNat, toNat_zero]
  omega

/-- A level of the tree keeps the sum. -/
theorem sum_mapPairs {w : ℕ} (l : List (BitVec w)) :
    ((mapPairs l).map BitVec.toNat).sum = (l.map BitVec.toNat).sum := by
  have hlt (a : BitVec w) : a.toNat < 2 ^ (w + 1) :=
    a.isLt.trans (Nat.pow_lt_pow_right (by decide) (by omega))
  induction l using mapPairs.induct with
  | case1 a b l ih =>
    have hsum : a.toNat + b.toNat < 2 ^ (w + 1) := by
      have := a.isLt
      have := b.isLt
      omega
    simp [mapPairs, ih, Nat.mod_eq_of_lt (hlt a), Nat.mod_eq_of_lt (hlt b), Nat.mod_eq_of_lt hsum,
      Nat.add_assoc]
  | case2 l hne =>
    rw [mapPairs.eq_def]
    split
    · next a b l => exact absurd rfl (hne a b l)
    · rw [map_map]
      exact congrArg List.sum (map_congr_left fun a _ => by simp [Nat.mod_eq_of_lt (hlt a)])

/-- The tree of adders gives the sum of the words. -/
theorem sum_tree (h : IpHeader) : ((mapPairs (mapPairs
    (mapPairs (mapPairs ((List.range 10).map fun i =>
    BitVec.ofNat 16 (pack h.fields.reverse / 2 ^ (16 * i))))))).headD 0).toNat = h.words.sum := by
  have hroot {l : List (BitVec 20)} (h : l.length = 1) :
    (l.headD 0).toNat = (l.map BitVec.toNat).sum := by
    obtain ⟨x, rfl⟩ := length_eq_one_iff.1 h
    simp
  -- ten words leave one sum at the root
  rw [hroot rfl, sum_mapPairs, sum_mapPairs, sum_mapPairs, sum_mapPairs, map_map]
  rfl

/-- **A checksum verifies exactly if** adding the carries gives no carry again: the carry of that is
lost. -/
theorem ipHdrCheckSum_verifies_iff (h : IpHeader) :
    let zeroed : IpHeader := { h with ipChecksum := 0 }
    onesComplementSum { h with ipChecksum := ipHdrCheckSum zeroed }.words = 0xFFFF ↔
      zeroed.words.sum % 2 ^ 16 + zeroed.words.sum / 2 ^ 16 < 2 ^ 16 := by
  intro zeroed
  have hwords : ∀ h' : IpHeader, ∀ w ∈ h'.words, w < 2 ^ 16 := by
    intro h' w hw
    obtain ⟨i, -, rfl⟩ := mem_map.1 hw
    exact Nat.mod_lt _ (by decide)
  have hsum : zeroed.words.sum ≤ 65535 * 10 := (sum_le_max_mul_length_nat (cons_ne_nil _ _)).trans
    (Nat.mul_le_mul_right 10 (Nat.le_of_lt_succ (hwords zeroed _ (max_mem _))))
  have hcheck : (ipHdrCheckSum zeroed).toNat =
      65535 - (zeroed.words.sum % 2 ^ 16 + zeroed.words.sum / 2 ^ 16) % 2 ^ 16 := by
    simp only [ipHdrCheckSum, toNat_not, toNat_add, toNat_setWidth, extractLsb'_toNat, sum_tree,
      Nat.shiftRight_eq_div_pow]
    rw [Nat.mod_eq_of_lt (b := 2 ^ 4) (by omega), Nat.mod_eq_of_lt (a := _ / _) (by omega)]
  rw [onesComplementSum, foldl_onesComplement (hwords _) (by decide), sum_words, hcheck]
  change (if 0 + (zeroed.words.sum + _) = 0 then 0 else (0 + (zeroed.words.sum + _) - 1) %
    65535 + 1) = _ ↔ _
  generalize zeroed.words.sum = S at *
  have hS := Nat.div_add_mod S (2 ^ 16)
  by_cases hcarry : S % 2 ^ 16 + S / 2 ^ 16 < 2 ^ 16
  · have htotal : S + (65535 - (S % 2 ^ 16 + S / 2 ^ 16)) = 65535 * (S / 2 ^ 16 + 1) := by omega
    refine iff_of_true ?_ hcarry
    rw [Nat.mod_eq_of_lt hcarry, htotal, if_neg (by omega)]
    omega
  · have htotal : S + (65535 - (S % 2 ^ 16 + S / 2 ^ 16) % 2 ^ 16) = 65535 *
      (S / 2 ^ 16 + 2) + 1 := by omega
    refine iff_of_false ?_ hcarry
    rw [htotal, if_neg (by omega)]
    omega

/-- The checksum of a frame from 192.168.0.1 to 10.0.175.242 does not verify. -/
theorem ipHdrCheckSum_not_verifies :
    let header := (genMacIpUdpHeader ⟨0, 0, 0, 0x0A00AFF2, 0, 0, 54, ethTypeIp⟩ ⟨0, 0xC0A80001⟩
      1).ipHeader
    header.ipChecksum = 0 ∧ header.words.sum = 0x1FFFF ∧
      onesComplementSum { header with ipChecksum := ipHdrCheckSum header }.words = 1 := by
  decide +kernel

end OpenRdma.Rtl
