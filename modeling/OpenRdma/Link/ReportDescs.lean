import OpenRdma.Foundations.Layout
import OpenRdma.Link.MetaRing
import OpenRdma.Rtl.Ringbuf

/-!
# The descriptors of the meta report ring in memory

The card packs a descriptor into 256 bits, its first field in the highest ones, and writes them to
memory from the lowest byte on. The driver reads four words of 64 bits, each with its first field in
the lowest bits.

The card leaves one field undefined, the mark of congestion of a received packet, and the driver
reads it.
-/

namespace OpenRdma.Driver

/-! ## Words and fields -/

def descWord (bytes : List ℕ) (i : ℕ) : ℕ := Nat.ofDigits 256 ((bytes.drop (8 * i)).take 8)

/-- The lowest bit of the field `j` of a word with fields of these widths. -/
def chunkPos (widths : List ℕ) (j : ℕ) : ℕ := (widths.take j).sum

def chunkField (bytes : List ℕ) (i off w : ℕ) : BitVec w :=
  BitVec.ofNat w (descWord bytes i >>> off)

def chunkFlag (bytes : List ℕ) (i off : ℕ) : Bool := (descWord bytes i).testBit off

end OpenRdma.Driver

namespace OpenRdma.Rtl

open Layout

/-- A structure packed into the bits of a descriptor, the first field in the highest ones. -/
def packDesc (fields : List Field) : RawDesc := BitVec.ofNat 256 (pack fields.reverse)

def descBytes (b : RawDesc) : List ℕ := leBytes 32 b.toNat

/-- The fields of `RingbufDescCommonHead`. -/
structure DescHead where
  valid : Bool
  hasNextFrag : Bool
  isExtendOpcode : Bool
  opCode : BitVec 8

def DescHead.fields (h : DescHead) : List Field :=
  [.flag h.valid, .flag h.hasNextFrag, ⟨5, 0⟩, .flag h.isExtendOpcode, ⟨8, h.opCode.toNat⟩]

end OpenRdma.Rtl

namespace OpenRdma.Link

open OpenRdma.Driver OpenRdma.Rtl Layout

variable {fs : List Field} {i off w : ℕ}

theorem descWord_leBytes (hi : i < 4) (x : ℕ) :
    descWord (leBytes 32 x) i = x / 2 ^ (64 * i) % 2 ^ 64 := by
  have hpow : (256 : ℕ) ^ (8 * i) = 2 ^ (64 * i) := by
    rw [show (256 : ℕ) = 2 ^ 8 from rfl, ← pow_mul]
    congr 1
    omega
  have hword : (256 : ℕ) ^ 8 = 2 ^ 64 := by norm_num
  rw [descWord, drop_leBytes, take_leBytes (by omega), ofDigits_leBytes, hpow, hword]

theorem descWord_packDesc (hw : width fs.reverse = 256) (hi : i < 4) :
    descWord (descBytes (packDesc fs)) i = pack fs.reverse / 2 ^ (64 * i) % 2 ^ 64 := by
  have hlt : pack fs.reverse < 2 ^ 256 := hw ▸ pack_lt fs.reverse
  rw [descBytes, packDesc, BitVec.toNat_ofNat, Nat.mod_eq_of_lt hlt, descWord_leBytes hi]

/-- **A field of the card is read by the driver**, if it lies in one word. -/
theorem chunkField_packDesc {v : BitVec w} (hw : width fs.reverse = 256)
    (hs : slice (64 * i + off) w fs.reverse = some [⟨w, v.toNat⟩]) (hi : i < 4 := by decide)
    (hoff : off + w ≤ 64 := by decide) :
    chunkField (descBytes (packDesc fs)) i off w = v := by
  apply BitVec.eq_of_toNat_eq
  have hextract := extract_pack hs
  rw [pack_singleton, Nat.mod_eq_of_lt v.isLt, pow_add, ← Nat.div_div_eq_div_mul] at hextract
  obtain ⟨k, hk⟩ : ∃ k, 64 = off + (w + k) := ⟨64 - (off + w), by omega⟩
  rw [chunkField, BitVec.toNat_ofNat, descWord_packDesc hw hi, Nat.shiftRight_eq_div_pow,
    ← hextract, hk, pow_add, Nat.mod_mul_right_div_self, pow_add, Nat.mod_mul_right_mod]

theorem chunkFlag_packDesc {b : Bool} (hw : width fs.reverse = 256)
    (hs : slice (64 * i + off) 1 fs.reverse = some [.flag b]) (hi : i < 4 := by decide)
    (hoff : off < 64 := by decide) :
    chunkFlag (descBytes (packDesc fs)) i off = b := by
  have hbit := extract_pack hs
  rw [pow_one, pow_add, ← Nat.div_div_eq_div_mul] at hbit
  rw [chunkFlag, descWord_packDesc hw hi, Nat.testBit_mod_two_pow, decide_eq_true hoff,
    Nat.testBit_eq_decide_div_mod_eq, hbit]
  cases b <;> rfl

end OpenRdma.Link

/-! ## The descriptors of the card -/

namespace OpenRdma.Rtl

open Layout

def MetaReportQueuePacketBasicInfoDesc.fields (head : DescHead)
    (d : MetaReportQueuePacketBasicInfoDesc) : List Field :=
  head.fields ++ [⟨16, d.msn.toNat⟩, ⟨24, d.psn.toNat⟩, .flag d.ecnMarked, .flag d.solicited,
    .flag d.ackReq, .flag d.isRetry, ⟨4, 0⟩, ⟨24, d.dqpn.toNat⟩, ⟨8, 0⟩, ⟨32, d.totalLen.toNat⟩,
    ⟨64, d.raddr.toNat⟩, ⟨32, d.rkey.toNat⟩, ⟨32, d.immData.toNat⟩]

def MetaReportQueueReadReqExtendInfoDesc.fields (head : DescHead)
    (d : MetaReportQueueReadReqExtendInfoDesc) : List Field :=
  head.fields ++ [⟨16, 0⟩, ⟨32, d.totalLen.toNat⟩, ⟨64, d.laddr.toNat⟩, ⟨32, d.lkey.toNat⟩,
    ⟨32, 0⟩, ⟨64, 0⟩]

def MetaReportQueueAckDesc.fields (head : DescHead) (d : MetaReportQueueAckDesc) : List Field :=
  head.fields ++ [⟨4, 0⟩, .flag d.isSendByLocalHw, .flag d.isSendByDriver, .flag d.isWindowSlided,
    .flag d.isPacketLost, ⟨8, 0⟩, ⟨24, d.psnBeforeSlide.toNat⟩, ⟨8, 0⟩, ⟨24, d.psnNow.toNat⟩,
    ⟨24, d.qpn.toNat⟩, ⟨16, d.msn.toNat⟩, ⟨128, d.nowBitmap.toNat⟩]

def MetaReportQueueAckExtraDesc.fields (head : DescHead) (d : MetaReportQueueAckExtraDesc) :
    List Field :=
  head.fields ++ [⟨16, 0⟩, ⟨32, 0⟩, ⟨64, 0⟩, ⟨128, d.preBitmap.toNat⟩]

def TransType.pack : TransType → BitVec 3
  | rc => 0
  | uc => 1
  | rd => 2
  | ud => 3
  | cnp => 4
  | xrc => 5
  | dtldExtended => 6
  | undefined => 7

/-- The five bits of an operation code. Those that are not defined are one here: no descriptor has
them. -/
def RdmaOpCode.pack : RdmaOpCode → BitVec 5
  | sendFirst => 0x00
  | sendMiddle => 0x01
  | sendLast => 0x02
  | sendLastWithImmediate => 0x03
  | sendOnly => 0x04
  | sendOnlyWithImmediate => 0x05
  | rdmaWriteFirst => 0x06
  | rdmaWriteMiddle => 0x07
  | rdmaWriteLast => 0x08
  | rdmaWriteLastWithImmediate => 0x09
  | rdmaWriteOnly => 0x0a
  | rdmaWriteOnlyWithImmediate => 0x0b
  | rdmaReadRequest => 0x0c
  | rdmaReadResponseFirst => 0x0d
  | rdmaReadResponseMiddle => 0x0e
  | rdmaReadResponseLast => 0x0f
  | rdmaReadResponseOnly => 0x10
  | acknowledge => 0x11
  | atomicAcknowledge => 0x12
  | compareSwap => 0x13
  | fetchAdd => 0x14
  | resync => 0x15
  | sendLastWithInvalidate => 0x16
  | sendOnlyWithInvalidate => 0x17
  | undefined => 0x18

def RingbufDescCommonHead.head (h : RingbufDescCommonHead) : DescHead :=
  ⟨true, h.hasNextFrag, false, h.trans.pack ++ h.opcode.pack⟩

def RingbufRawDescriptor.bits : RingbufRawDescriptor → RawDesc
  | packetBasicInfo d => packDesc (d.fields d.commonHeader.head)
  | readReqExtendInfo d => packDesc (d.fields d.commonHeader.head)
  | ack d => packDesc (d.fields d.commonHeader.head)
  | ackExtra d => packDesc (d.fields d.commonHeader.head)

end OpenRdma.Rtl

/-! ## The accessors of the driver -/

namespace OpenRdma.Driver

open OpenRdma.Rtl

/-- The widths of the fields of `RingBufDescCommonHead`, the last 16 bits of the last word. -/
def headWidths : List ℕ := [48, 8, 1, 5, 1, 1]

def descHead (bytes : List ℕ) : DescHead where
  opCode := chunkField bytes 3 (chunkPos headWidths 1) 8
  isExtendOpcode := chunkFlag bytes 3 (chunkPos headWidths 2)
  hasNextFrag := chunkFlag bytes 3 (chunkPos headWidths 4)
  valid := chunkFlag bytes 3 (chunkPos headWidths 5)

namespace PacketBasicInfo

def chunk0 : List ℕ := [32, 32]

def chunk2 : List ℕ := [32, 8, 24]

def chunk3 : List ℕ := [4, 1, 1, 1, 1, 24, 16, 16]

end PacketBasicInfo

open PacketBasicInfo in
def packetBasicInfoDesc (commonHeader : RingbufDescCommonHead) (bytes : List ℕ) :
    MetaReportQueuePacketBasicInfoDesc where
  commonHeader := commonHeader
  immData := chunkField bytes 0 (chunkPos chunk0 0) 32
  rkey := chunkField bytes 0 (chunkPos chunk0 1) 32
  raddr := chunkField bytes 1 0 64
  totalLen := chunkField bytes 2 (chunkPos chunk2 0) 32
  dqpn := chunkField bytes 2 (chunkPos chunk2 2) 24
  isRetry := chunkFlag bytes 3 (chunkPos chunk3 1)
  ackReq := chunkFlag bytes 3 (chunkPos chunk3 2)
  solicited := chunkFlag bytes 3 (chunkPos chunk3 3)
  ecnMarked := chunkFlag bytes 3 (chunkPos chunk3 4)
  psn := chunkField bytes 3 (chunkPos chunk3 5) 24
  msn := chunkField bytes 3 (chunkPos chunk3 6) 16

def readReqExtendInfoDesc (commonHeader : RingbufDescCommonHead) (bytes : List ℕ) :
    MetaReportQueueReadReqExtendInfoDesc where
  commonHeader := commonHeader
  lkey := chunkField bytes 1 (chunkPos [32, 32] 1) 32
  laddr := chunkField bytes 2 0 64
  totalLen := chunkField bytes 3 (chunkPos [32, 16, 16] 0) 32

/-- A bitmap of two words. -/
def bitmapOf (bytes : List ℕ) : BitVec 128 :=
  (chunkField bytes 1 0 64).setWidth 128 <<< 64 ||| (chunkField bytes 0 0 64).setWidth 128

namespace AckDesc

def chunk2 : List ℕ := [16, 24, 24]

def chunk3 : List ℕ := [8, 24, 8, 1, 1, 1, 1, 4, 16]

end AckDesc

open AckDesc in
def metaReportQueueAckDesc (commonHeader : RingbufDescCommonHead) (bytes : List ℕ) :
    MetaReportQueueAckDesc where
  commonHeader := commonHeader
  nowBitmap := bitmapOf bytes
  msn := chunkField bytes 2 (chunkPos chunk2 0) 16
  qpn := chunkField bytes 2 (chunkPos chunk2 1) 24
  psnNow := chunkField bytes 2 (chunkPos chunk2 2) 24
  psnBeforeSlide := chunkField bytes 3 (chunkPos chunk3 1) 24
  isPacketLost := chunkFlag bytes 3 (chunkPos chunk3 3)
  isWindowSlided := chunkFlag bytes 3 (chunkPos chunk3 4)
  isSendByDriver := chunkFlag bytes 3 (chunkPos chunk3 5)
  isSendByLocalHw := chunkFlag bytes 3 (chunkPos chunk3 6)

def ackExtraDesc (commonHeader : RingbufDescCommonHead) (bytes : List ℕ) :
    MetaReportQueueAckExtraDesc where
  commonHeader := commonHeader
  preBitmap := bitmapOf bytes

end OpenRdma.Driver

namespace OpenRdma.Link

open OpenRdma.Driver OpenRdma.Rtl Layout

variable (head : DescHead)

/-! ## What the accessors give -/

theorem descHead_packDesc {fs : List Field} (hw : width fs.reverse = 240)
    (hpos : ∀ f ∈ fs.reverse, 0 < f.width) : descHead (descBytes (packDesc (head.fields ++ fs))) =
    head := by
  have hs (off w : ℕ) :
      slice (240 + off) w (head.fields ++ fs).reverse = slice off w head.fields.reverse := by
    rw [List.reverse_append, ← hw, slice_append hpos]
  have hw' : width (head.fields ++ fs).reverse = 256 := by
    rw [List.reverse_append, width_append, hw]
    rfl
  rw [DescHead.mk.injEq]
  exact ⟨chunkFlag_packDesc hw' (hs 15 1), chunkFlag_packDesc hw' (hs 14 1),
    chunkFlag_packDesc hw' (hs 8 1), chunkField_packDesc hw' (hs 0 8)⟩

theorem bitmapOf_packDesc {fs : List Field} {v : BitVec 128} (hw : width fs.reverse = 256)
    (hs : slice 0 128 fs.reverse = some [⟨128, v.toNat⟩]) :
    bitmapOf (descBytes (packDesc fs)) = v := by
  have hextract := extract_pack hs
  rw [pack_singleton, Nat.mod_eq_of_lt v.isLt, pow_zero] at hextract
  have hword {i : ℕ} (hi : i < 4) : ((chunkField (descBytes (packDesc fs)) i 0 64).setWidth
    128).toNat =
      pack fs.reverse / 2 ^ (64 * i) % 2 ^ 64 := by
    rw [BitVec.toNat_setWidth, chunkField, BitVec.toNat_ofNat, descWord_packDesc hw hi]
    omega
  apply BitVec.eq_of_toNat_eq
  rw [bitmapOf, BitVec.toNat_or, BitVec.toNat_shiftLeft, hword (by decide), hword (by decide),
    Nat.shiftLeft_eq, Nat.mod_eq_of_lt (by omega), ← Nat.shiftLeft_eq,
    ← Nat.shiftLeft_add_eq_or_of_lt (Nat.mod_lt _ (by decide))]
  omega

section Accessors

variable (head : DescHead)

/-- The driver reads the fields that the card wrote. -/
theorem packetBasicInfoDesc_image (d : MetaReportQueuePacketBasicInfoDesc) :
    packetBasicInfoDesc d.commonHeader (descBytes (packDesc (d.fields head))) = d := by
  have hw : width (d.fields head).reverse = 256 := by
    simp [MetaReportQueuePacketBasicInfoDesc.fields, DescHead.fields, width, Field.flag]
  rw [MetaReportQueuePacketBasicInfoDesc.mk.injEq]
  exact ⟨rfl, chunkField_packDesc hw rfl, chunkField_packDesc hw rfl,
    chunkFlag_packDesc hw rfl, chunkFlag_packDesc hw rfl, chunkFlag_packDesc hw rfl,
    chunkFlag_packDesc hw rfl, chunkField_packDesc hw rfl, chunkField_packDesc hw rfl,
    chunkField_packDesc hw rfl, chunkField_packDesc hw rfl, chunkField_packDesc hw rfl⟩

theorem readReqExtendInfoDesc_image (d : MetaReportQueueReadReqExtendInfoDesc) :
    readReqExtendInfoDesc d.commonHeader (descBytes (packDesc (d.fields head))) = d := by
  have hw : width (d.fields head).reverse = 256 := by
    simp [MetaReportQueueReadReqExtendInfoDesc.fields, DescHead.fields, width, Field.flag]
  cases d
  rw [MetaReportQueueReadReqExtendInfoDesc.mk.injEq]
  exact ⟨rfl, chunkField_packDesc hw rfl, chunkField_packDesc hw rfl, chunkField_packDesc hw rfl⟩

theorem metaReportQueueAckDesc_image (d : MetaReportQueueAckDesc) :
    metaReportQueueAckDesc d.commonHeader (descBytes (packDesc (d.fields head))) = d := by
  have hw : width (d.fields head).reverse = 256 := by
    simp [MetaReportQueueAckDesc.fields, DescHead.fields, width, Field.flag]
  rw [MetaReportQueueAckDesc.mk.injEq]
  exact ⟨rfl, chunkFlag_packDesc hw rfl, chunkFlag_packDesc hw rfl,
    chunkFlag_packDesc hw rfl, chunkFlag_packDesc hw rfl,
    chunkField_packDesc hw rfl, chunkField_packDesc hw rfl,
    chunkField_packDesc hw rfl, chunkField_packDesc hw rfl, bitmapOf_packDesc hw rfl⟩

theorem ackExtraDesc_image (d : MetaReportQueueAckExtraDesc) :
    ackExtraDesc d.commonHeader (descBytes (packDesc (d.fields head))) = d := by
  have hw : width (d.fields head).reverse = 256 := by
    simp [MetaReportQueueAckExtraDesc.fields, DescHead.fields, width, Field.flag]
  rw [MetaReportQueueAckExtraDesc.mk.injEq]
  exact ⟨rfl, bitmapOf_packDesc hw rfl⟩

end Accessors

/-- The accessors of the driver give the fields of every descriptor of the card, and its head. -/
def AccessorsExact : Prop :=
  ∀ head : DescHead,
    (∀ d : MetaReportQueuePacketBasicInfoDesc, let bytes := descBytes (packDesc (d.fields head))
      descHead bytes = head ∧ packetBasicInfoDesc d.commonHeader bytes = d) ∧
    (∀ d : MetaReportQueueReadReqExtendInfoDesc, let bytes := descBytes (packDesc (d.fields head))
      descHead bytes = head ∧ readReqExtendInfoDesc d.commonHeader bytes = d) ∧
    (∀ d : MetaReportQueueAckDesc, let bytes := descBytes (packDesc (d.fields head))
      descHead bytes = head ∧ metaReportQueueAckDesc d.commonHeader bytes = d) ∧
    ∀ d : MetaReportQueueAckExtraDesc, let bytes := descBytes (packDesc (d.fields head))
      descHead bytes = head ∧ ackExtraDesc d.commonHeader bytes = d

theorem descHead_packetBasicInfo (d : MetaReportQueuePacketBasicInfoDesc) :
    descHead (descBytes (packDesc (d.fields head))) = head :=
  descHead_packDesc head rfl (by simp [Field.flag])

theorem descHead_readReqExtendInfo (d : MetaReportQueueReadReqExtendInfoDesc) :
    descHead (descBytes (packDesc (d.fields head))) = head :=
  descHead_packDesc head rfl (by simp)

theorem descHead_ack (d : MetaReportQueueAckDesc) :
    descHead (descBytes (packDesc (d.fields head))) = head :=
  descHead_packDesc head rfl (by simp [Field.flag])

theorem descHead_ackExtra (d : MetaReportQueueAckExtraDesc) :
    descHead (descBytes (packDesc (d.fields head))) = head :=
  descHead_packDesc head rfl (by simp)

theorem accessorsExact : AccessorsExact := fun head =>
  ⟨fun d => ⟨descHead_packetBasicInfo head d, packetBasicInfoDesc_image head d⟩,
    fun d => ⟨descHead_readReqExtendInfo head d, readReqExtendInfoDesc_image head d⟩,
    fun d => ⟨descHead_ack head d, metaReportQueueAckDesc_image head d⟩,
    fun d => ⟨descHead_ackExtra head d, ackExtraDesc_image head d⟩⟩

/-! ## Reports made of bytes -/

def fromU8 (value : BitVec 8) : Option RdmaOpCode :=
  [.sendFirst, .sendMiddle, .sendLast, .sendLastWithImmediate, .sendOnly, .sendOnlyWithImmediate,
    .rdmaWriteFirst, .rdmaWriteMiddle, .rdmaWriteLast, .rdmaWriteLastWithImmediate, .rdmaWriteOnly,
    .rdmaWriteOnlyWithImmediate, .rdmaReadRequest, .rdmaReadResponseFirst, .rdmaReadResponseMiddle,
    .rdmaReadResponseLast, .rdmaReadResponseOnly, .acknowledge, .atomicAcknowledge,
    .compareSwap, .fetchAdd, .resync, .sendLastWithInvalidate,
    .sendOnlyWithInvalidate][value.toNat]?

/-- The head of a descriptor with a known operation code, whose higher bits are those of a reliable
connection. -/
def commonHead (bytes : List ℕ) : Option RingbufDescCommonHead :=
  (fromU8 (descHead bytes).opCode).map (⟨(descHead bytes).hasNextFrag, .rc, ·⟩)

def deserializeFirst (bytes : List ℕ) : Option RingbufRawDescriptor :=
  (commonHead bytes).bind fun head =>
    if isPacket head.opcode then some (.packetBasicInfo (packetBasicInfoDesc head bytes))
    else if isAck head.opcode then some (.ack (metaReportQueueAckDesc head bytes))
    else none

def deserializeNext (bytes : List ℕ) : Option RingbufRawDescriptor :=
  (commonHead bytes).bind fun head =>
    if isPacket head.opcode then some (.readReqExtendInfo (readReqExtendInfoDesc head bytes))
    else if isAck head.opcode then some (.ackExtra (ackExtraDesc head bytes))
    else none

/-- `MetaReportQueueDesc::from_bytes` on the bytes of one or two descriptors. -/
def fromRingBytes : List (List ℕ) → Option MetaReportQueueDesc
  | [first] => (deserializeFirst first).bind fun f => fromBytes [f]
  | [first, next] =>
    (deserializeFirst first).bind fun f => (deserializeNext next).bind fun n => fromBytes [f, n]
  | _ => none

theorem fromU8_pack {op : RdmaOpCode} (h : op ≠ .undefined) :
    fromU8 (TransType.rc.pack ++ op.pack) = some op := by
  cases op <;> first | rfl | exact absurd rfl h

theorem commonHead_of_descHead {bytes : List ℕ} {h : RingbufDescCommonHead}
    (hhead : descHead bytes = h.head) (hrc : h.trans = .rc) (hop : h.opcode ≠ .undefined) :
    commonHead bytes = some h := by
  obtain ⟨hasNextFrag, trans, opcode⟩ := h
  subst hrc
  rw [commonHead, hhead, RingbufDescCommonHead.head, fromU8_pack hop, Option.map_some]

section Images

theorem ne_undefined_of_isPacket {op : RdmaOpCode} (h : isPacket op = true) : op ≠ .undefined := by
  rintro rfl
  cases h

theorem facts_of_acknowledge {op : RdmaOpCode} (h : op = .acknowledge) :
    op ≠ .undefined ∧ ¬ isPacket op = true ∧ isAck op = true := by
  subst h
  decide

theorem deserializeFirst_packetBasicInfo {d : MetaReportQueuePacketBasicInfoDesc}
    (hrc : d.commonHeader.trans = .rc) (hop : isPacket d.commonHeader.opcode = true) :
    deserializeFirst (descBytes (RingbufRawDescriptor.packetBasicInfo d).bits) =
    some (.packetBasicInfo d) := by
  rw [RingbufRawDescriptor.bits, deserializeFirst,
    commonHead_of_descHead (descHead_packetBasicInfo _ d) hrc (ne_undefined_of_isPacket hop),
    Option.bind_some, if_pos hop, packetBasicInfoDesc_image]

theorem deserializeNext_readReqExtendInfo {d : MetaReportQueueReadReqExtendInfoDesc}
    (hrc : d.commonHeader.trans = .rc) (hop : isPacket d.commonHeader.opcode = true) :
    deserializeNext (descBytes (RingbufRawDescriptor.readReqExtendInfo d).bits) =
    some (.readReqExtendInfo d) := by
  rw [RingbufRawDescriptor.bits, deserializeNext,
    commonHead_of_descHead (descHead_readReqExtendInfo _ d) hrc (ne_undefined_of_isPacket hop),
    Option.bind_some, if_pos hop, readReqExtendInfoDesc_image]

theorem deserializeFirst_ack {d : MetaReportQueueAckDesc} (hrc : d.commonHeader.trans = .rc)
    (hop : d.commonHeader.opcode = .acknowledge) :
    deserializeFirst (descBytes (RingbufRawDescriptor.ack d).bits) = some (.ack d) := by
  obtain ⟨hne, hpacket, hack⟩ := facts_of_acknowledge hop
  rw [RingbufRawDescriptor.bits, deserializeFirst,
    commonHead_of_descHead (descHead_ack _ d) hrc hne, Option.bind_some, if_neg hpacket,
    if_pos hack, metaReportQueueAckDesc_image]

theorem deserializeNext_ackExtra {d : MetaReportQueueAckExtraDesc}
    (hrc : d.commonHeader.trans = .rc) (hop : d.commonHeader.opcode = .acknowledge) :
    deserializeNext (descBytes (RingbufRawDescriptor.ackExtra d).bits) = some (.ackExtra d) := by
  obtain ⟨hne, hpacket, hack⟩ := facts_of_acknowledge hop
  rw [RingbufRawDescriptor.bits, deserializeNext,
    commonHead_of_descHead (descHead_ackExtra _ d) hrc hne, Option.bind_some, if_neg hpacket,
    if_pos hack, ackExtraDesc_image]

end Images

/-! ## Reports of received packets -/

/-- A packet is reported by its header alone: it is of a write, a send or a read response, and not
one in the middle of a message that is not sent again. -/
def ReportedAlone (m : RdmaRecvPacketMeta) : Prop :=
  m.bth.trans = .rc ∧ (headerType m.bth.opcode).isSome ∧
    (packetPos m.bth.opcode = some .middle → m.bth.isRetry = true)

instance (m : RdmaRecvPacketMeta) : Decidable (ReportedAlone m) :=
  inferInstanceAs (Decidable (_ ∧ _ ∧ (_ → _)))

/-- The report the driver makes of a received packet. The card uses `ecnMarked` for the mark it
leaves undefined. -/
def driverReport (ecnMarked : Bool) (m : RdmaRecvPacketMeta) : Option (BitVec 24 × ReportMeta) :=
  (m.genDescVector ecnMarked).bind fun descs =>
    (fromRingBytes (descs.map fun d => descBytes d.bits)).bind reportMeta

/-- **The descriptors of a packet**: its header alone, the two of a read request, the one or two of
an acknowledgement, or none. -/
theorem genDescVector_cases (m : RdmaRecvPacketMeta) :
    (ReportedAlone m ∧ ∀ u, m.genDescVector u = some [.packetBasicInfo (m.basicInfoDesc u)]) ∨
      (¬ ReportedAlone m ∧ m.bth.trans = .rc ∧ m.bth.opcode = .rdmaReadRequest) ∨
      (¬ ReportedAlone m ∧ m.bth.trans = .rc ∧ m.bth.opcode = .acknowledge) ∨
      ¬ ReportedAlone m ∧ ∀ u, m.genDescVector u = none ∨ m.genDescVector u = some [] := by
  obtain ⟨⟨trans, opcode, solicited, isRetry, msn, dqpn, ackReq, psn⟩, _⟩ := m
  by_cases hrc : trans = .rc
  · subst hrc
    cases isRetry <;> cases opcode <;>
      first
      | exact .inl ⟨by simp [ReportedAlone, headerType, packetPos], fun _ => rfl⟩
      | exact .inr (.inl ⟨by simp [ReportedAlone, headerType], rfl, rfl⟩)
      | exact .inr (.inr (.inl ⟨by simp [ReportedAlone, headerType], rfl, rfl⟩))
      | exact .inr (.inr (.inr ⟨by simp [ReportedAlone, packetPos], fun _ => .inr rfl⟩))
      | exact .inr (.inr (.inr ⟨by simp [ReportedAlone, headerType], fun _ => .inl rfl⟩))
  · refine .inr (.inr (.inr ⟨fun h => hrc h.1, fun _ => .inl ?_⟩))
    cases trans with
    | rc => exact absurd rfl hrc
    | _ => rfl

variable {m : RdmaRecvPacketMeta}

theorem genDescVector_read (hrc : m.bth.trans = .rc) (hop : m.bth.opcode = .rdmaReadRequest)
    (u : Bool) : m.genDescVector u = some [.packetBasicInfo
      { m.basicInfoDesc u with commonHeader := { m.commonHeader with hasNextFrag := true } },
      .readReqExtendInfo m.readReqExtendInfoDesc] := by
  rw [RdmaRecvPacketMeta.genDescVector, hrc, hop]

theorem genDescVector_acknowledge (hrc : m.bth.trans = .rc) (hop : m.bth.opcode = .acknowledge)
    (u : Bool) : m.genDescVector u = if (extractAETH m.rdmaExtendHeaderBuf).isWindowSlided then
      some [.ack m.ackDesc, .ackExtra ⟨m.commonHeader,
        (extractAETH m.rdmaExtendHeaderBuf).preBitmap⟩]
    else some [.ack m.ackDesc] := by
  rw [RdmaRecvPacketMeta.genDescVector, hrc, hop]

theorem facts_of_headerType {op : RdmaOpCode} (h : (headerType op).isSome) :
    isPacket op = true ∧ (packetPos op).isSome := by
  cases op <;> first | exact ⟨rfl, rfl⟩ | cases h

/-- **The driver makes of the bytes what it would make of the fields.** -/
theorem fromRingBytes_images {u : Bool} {descs : List RingbufRawDescriptor}
    (h : m.genDescVector u = some descs) :
    fromRingBytes (descs.map fun d => descBytes d.bits) = fromBytes descs := by
  obtain ⟨halone, hdesc⟩ | ⟨-, hrc, hop⟩ | ⟨-, hrc, hop⟩ | ⟨-, hnone⟩ := genDescVector_cases m
  · obtain rfl := Option.some.inj ((hdesc u).symm.trans h)
    rw [List.map_singleton, fromRingBytes,
      deserializeFirst_packetBasicInfo halone.1 (facts_of_headerType halone.2.1).1,
      Option.bind_some]
  · have hpacket : isPacket m.bth.opcode = true := hop ▸ rfl
    obtain rfl := Option.some.inj ((genDescVector_read hrc hop u).symm.trans h)
    rw [List.map_cons, List.map_singleton, fromRingBytes,
      deserializeFirst_packetBasicInfo hrc hpacket, deserializeNext_readReqExtendInfo hrc hpacket,
      Option.bind_some, Option.bind_some]
  · rw [genDescVector_acknowledge hrc hop] at h
    split at h
    · cases h
      rw [List.map_cons, List.map_singleton, fromRingBytes, deserializeFirst_ack hrc hop,
        deserializeNext_ackExtra hrc hop, Option.bind_some, Option.bind_some]
    · cases h
      rw [List.map_singleton, fromRingBytes, deserializeFirst_ack hrc hop, Option.bind_some]
  · obtain hnone | hnil := hnone u
    · rw [hnone] at h
      cases h
    · obtain rfl := Option.some.inj (hnil.symm.trans h)
      rfl

theorem driverReport_eq (u : Bool) (m : RdmaRecvPacketMeta) :
    driverReport u m = (m.genDescVector u).bind fun descs => (fromBytes descs).bind reportMeta := by
  rw [driverReport]
  cases h : m.genDescVector u with
  | none => rfl
  | some descs => rw [Option.bind_some, Option.bind_some, fromRingBytes_images h]

theorem driverReport_alone (halone : ReportedAlone m)
    (hdesc : ∀ u, m.genDescVector u = some [.packetBasicInfo (m.basicInfoDesc u)]) :
    driverReport true m = some (m.bth.dqpn, .cnp) ∧
      ∃ x, driverReport false m = some (m.bth.dqpn, .headerWrite x) := by
  obtain ⟨hpacket, hpos⟩ := facts_of_headerType halone.2.1
  obtain ⟨pos, hpos⟩ := Option.isSome_iff_exists.1 hpos
  obtain ⟨type, htype⟩ := Option.isSome_iff_exists.1 halone.2.1
  have hfrom (u : Bool) : fromBytes [.packetBasicInfo (m.basicInfoDesc u)] =
      if u then some (.cnpPacketInfo (m.basicInfoDesc u))
        else some (.writePacketInfo (m.basicInfoDesc u)) := by
    rw [fromBytes, if_pos (show isPacket (m.basicInfoDesc u).commonHeader.opcode =
      true from hpacket)]
    rfl
  constructor
  · rw [driverReport_eq, hdesc, Option.bind_some, hfrom]
    rfl
  · have hmeta : (headerWriteMeta (m.basicInfoDesc false)).isSome := by
      have hopcode : (m.basicInfoDesc false).commonHeader.opcode = m.bth.opcode := rfl
      rw [headerWriteMeta, hopcode, hpos, htype]
      rfl
    obtain ⟨x, hx⟩ := Option.isSome_iff_exists.1 hmeta
    refine ⟨x, ?_⟩
    rw [driverReport_eq, hdesc, Option.bind_some, hfrom, if_neg Bool.false_ne_true,
      Option.bind_some, reportMeta, hx]
    rfl

/-- **What the driver reads is defined exactly when the packet is not reported by its header
alone.** The accessors always give the fields of the card, but one of these is the mark of
congestion, which the card leaves undefined and by which the driver decides whether a header is one
of a write. -/
theorem reads_defined_iff (m : RdmaRecvPacketMeta) :
    (AccessorsExact ∧ ∀ u u', driverReport u m = driverReport u' m) ↔ ¬ ReportedAlone m := by
  constructor
  · rintro ⟨-, hdefined⟩ halone
    obtain ⟨-, hdesc⟩ | ⟨hnot, -⟩ | ⟨hnot, -⟩ | ⟨hnot, -⟩ := genDescVector_cases m
    · obtain ⟨hcnp, x, hwrite⟩ := driverReport_alone halone hdesc
      have hsame := hdefined true false
      rw [hcnp, hwrite] at hsame
      cases hsame
    all_goals exact hnot halone
  · intro hnot
    refine ⟨accessorsExact, fun u u' => ?_⟩
    rw [driverReport_eq, driverReport_eq]
    obtain ⟨halone, -⟩ | ⟨-, hrc, hop⟩ | ⟨-, hrc, hop⟩ | ⟨-, hnone⟩ := genDescVector_cases m
    · exact absurd halone hnot
    · -- the mark is in the descriptor of a read request, but is not read
      have hpacket : isPacket m.bth.opcode = true := hop ▸ rfl
      have hread (u : Bool) : ((m.genDescVector u).bind fun descs =>
        (fromBytes descs).bind reportMeta) =
          some (m.bth.dqpn, .headerRead (headerReadMeta (m.basicInfoDesc false)
            m.readReqExtendInfoDesc)) := by
        rw [genDescVector_read hrc hop]
        change (if isPacket m.bth.opcode && isPacket m.bth.opcode then _ else none : Option _).bind
          _ = _
        rw [hpacket]
        rfl
      rw [hread, hread]
    · rw [genDescVector_acknowledge hrc hop, genDescVector_acknowledge hrc hop]
    · obtain hu | hu := hnone u <;> obtain hu' | hu' := hnone u' <;> rw [hu, hu'] <;> rfl

def samplePacket : RdmaRecvPacketMeta where
  bth := { trans := .rc, opcode := .rdmaWriteOnly, solicited := false, isRetry := false, msn := 0
           dqpn := 0x100, ackReq := true, psn := 0 }
  rdmaExtendHeaderBuf := 0
  hasPayload := true
  isEcnMarked := false

/-- **The undefined mark is read**: by it the same packet is reported as a write or as a mark of
congestion. -/
theorem undefined_mark_read :
    driverReport true samplePacket = some (0x100, .cnp) ∧
      (∃ x, driverReport false samplePacket = some (0x100, .headerWrite x)) ∧
      ¬ (∀ u u', driverReport u samplePacket = driverReport u' samplePacket) := by
  obtain ⟨hcnp, x, hwrite⟩ := driverReport_alone (m := samplePacket) ⟨rfl, rfl, fun h => by cases h⟩
    fun _ => rfl
  refine ⟨hcnp, ⟨x, hwrite⟩, fun hdefined => ?_⟩
  have hsame := hdefined true false
  cases hsame

end OpenRdma.Link
