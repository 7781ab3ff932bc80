import OpenRdma.Driver.Windows
import OpenRdma.Rtl.AutoAckRow

/-!
# The meta report ring

The card writes descriptors into a ring, one for a report or two where the first says so, and the
driver reads them back as reports. `tryRecvMeta` reads the next report of one ring. A report is read
only when both its descriptors are there, so what is written later does not change how it is read
(`tryRecvMeta_append`).
-/

namespace OpenRdma.Driver

/-- A sequence number from the 24 bits of a descriptor. -/
def Psn.ofBits (b : BitVec 24) : Psn := ⟨b.toNat, b.isLt⟩

/-- A message number from the 16 bits of a descriptor. -/
def Msn.ofBits (b : BitVec 16) : Msn := ⟨b.toNat, b.isLt⟩

/-- `MetaReportQueueHandler::remap_psn`: from the highest stride of a window to its lowest
number. -/
def remapPsn (psn : Psn) : Psn := psn - (112 : ℕ)

end OpenRdma.Driver

namespace OpenRdma.Link

open OpenRdma.Driver OpenRdma.Rtl

/-! ## Reading descriptors -/

def isPacket : RdmaOpCode → Bool
  | .sendFirst | .sendMiddle | .sendLast | .sendLastWithImmediate | .sendOnly
      | .sendOnlyWithImmediate
  | .rdmaWriteFirst | .rdmaWriteMiddle | .rdmaWriteLast | .rdmaWriteLastWithImmediate
      | .rdmaWriteOnly
  | .rdmaWriteOnlyWithImmediate | .rdmaReadRequest | .rdmaReadResponseFirst
      | .rdmaReadResponseMiddle
  | .rdmaReadResponseLast | .rdmaReadResponseOnly => true
  | _ => false

def isAck : RdmaOpCode → Bool
  | .acknowledge | .atomicAcknowledge => true
  | _ => false

def packetPos : RdmaOpCode → Option PacketPos
  | .sendFirst | .rdmaWriteFirst | .rdmaReadResponseFirst => some .first
  | .sendMiddle | .rdmaWriteMiddle | .rdmaReadResponseMiddle => some .middle
  | .sendLast | .sendLastWithImmediate | .rdmaWriteLast | .rdmaWriteLastWithImmediate
  | .rdmaReadResponseLast | .sendLastWithInvalidate => some .last
  | .sendOnly | .sendOnlyWithImmediate | .rdmaWriteOnly | .rdmaWriteOnlyWithImmediate
  | .rdmaReadResponseOnly | .sendOnlyWithInvalidate => some .only
  | _ => none

def headerType : RdmaOpCode → Option HeaderType
  | .rdmaWriteFirst | .rdmaWriteMiddle | .rdmaWriteLast | .rdmaWriteOnly => some .write
  | .rdmaWriteLastWithImmediate | .rdmaWriteOnlyWithImmediate => some .writeWithImm
  | .sendFirst | .sendMiddle | .sendLast | .sendOnly => some .send
  | .sendLastWithImmediate | .sendOnlyWithImmediate => some .sendWithImm
  | .rdmaReadResponseFirst | .rdmaReadResponseMiddle | .rdmaReadResponseLast
  | .rdmaReadResponseOnly => some .readResp
  | _ => none

inductive MetaReportQueueDesc
  | writePacketInfo (d : MetaReportQueuePacketBasicInfoDesc)
  | readPacketInfo (f : MetaReportQueuePacketBasicInfoDesc)
      (n : MetaReportQueueReadReqExtendInfoDesc)
  | cnpPacketInfo (d : MetaReportQueuePacketBasicInfoDesc)
  | ack (d : MetaReportQueueAckDesc)
  | nak (f : MetaReportQueueAckDesc) (n : MetaReportQueueAckExtraDesc)
  deriving DecidableEq

/-- Another descriptor belongs to this one. -/
def hasNext : RingbufRawDescriptor → Bool
  | .packetBasicInfo d => d.commonHeader.hasNextFrag
  | .readReqExtendInfo d => d.commonHeader.hasNextFrag
  | .ack d => d.commonHeader.hasNextFrag
  | .ackExtra d => d.commonHeader.hasNextFrag

/-- `MetaReportQueueDesc::from_bytes`: the kind of a descriptor is told by its operation code.
`none` is where the source has `unreachable!`. -/
def fromBytes : List RingbufRawDescriptor → Option MetaReportQueueDesc
  | [.packetBasicInfo d] =>
    if isPacket d.commonHeader.opcode then
      if d.ecnMarked then some (.cnpPacketInfo d) else some (.writePacketInfo d)
    else none
  | [.ack d] => if isAck d.commonHeader.opcode then some (.ack d) else none
  | [.packetBasicInfo f, .readReqExtendInfo n] =>
    if isPacket f.commonHeader.opcode && isPacket n.commonHeader.opcode then some
      (.readPacketInfo f n)
    else none
  | [.ack f, .ackExtra n] =>
    if isAck f.commonHeader.opcode && isAck n.commonHeader.opcode then some (.nak f n) else none
  | _ => none

/-- `ConsumerRing::try_pop`: the next report and the rest of the ring. -/
def tryPop : List RingbufRawDescriptor → Option (MetaReportQueueDesc × List RingbufRawDescriptor)
  | [] => none
  | first :: rest =>
    if hasNext first then
      match rest with
      | [] => none
      | second :: rest => (fromBytes [first, second]).map (·, rest)
    else (fromBytes [first]).map (·, rest)

def headerWriteMeta (d : MetaReportQueuePacketBasicInfoDesc) : Option HeaderWriteMeta :=
  (packetPos d.commonHeader.opcode).bind fun pos =>
    (headerType d.commonHeader.opcode).map fun headerType =>
      { pos := pos
        msn := .ofBits d.msn
        psn := .ofBits d.psn
        ackReq := d.ackReq
        isRetry := d.isRetry
        imm := d.immData.toNat
        headerType := headerType }

def headerReadMeta (f : MetaReportQueuePacketBasicInfoDesc)
    (n : MetaReportQueueReadReqExtendInfoDesc) : HeaderReadMeta where
  msn := .ofBits f.msn
  psn := .ofBits f.psn
  raddr := f.raddr.toNat
  rkey := f.rkey.toNat
  totalLen := n.totalLen.toNat
  laddr := n.laddr.toNat
  lkey := n.lkey.toNat
  ackReq := f.ackReq
  raddr_lt := f.raddr.isLt
  totalLen_lt := n.totalLen.isLt
  laddr_lt := n.laddr.isLt

def reportMeta : MetaReportQueueDesc → Option (BitVec 24 × ReportMeta)
  | .writePacketInfo d => (headerWriteMeta d).map fun x => (d.dqpn, .headerWrite x)
  | .readPacketInfo f n => some (f.dqpn, .headerRead (headerReadMeta f n))
  | .cnpPacketInfo d => some (d.dqpn, .cnp)
  | .ack d =>
    match d.isSendByDriver, d.isSendByLocalHw with
    | true, false => some (d.qpn, .ackRemoteDriver (.ofBits d.psnNow))
    | false, true => some (d.qpn, .ackLocalHw (remapPsn (.ofBits d.psnNow)) d.nowBitmap)
    | _, _ => none
  | .nak f n =>
    match f.isSendByDriver, f.isSendByLocalHw with
    | true, false => some (f.qpn, .nakRemoteDriver (.ofBits f.psnNow) (.ofBits f.psnBeforeSlide))
    | false, true =>
      some (f.qpn, .nakLocalHw (remapPsn (.ofBits f.psnNow)) f.nowBitmap
        (remapPsn (.ofBits f.psnBeforeSlide)) n.preBitmap)
    | false, false =>
      some (f.qpn, .nakRemoteHw (.ofBits f.msn) (remapPsn (.ofBits f.psnNow)) f.nowBitmap
        (remapPsn (.ofBits f.psnBeforeSlide)) n.preBitmap)
    | true, true => none

/-- `MetaReportQueueHandler::try_recv_meta` for one ring: the next report, with the number of its
queue pair, and the rest of the ring. `none` if no report is complete, and where the source has
`unreachable!`. -/
def tryRecvMeta (ring : List RingbufRawDescriptor) :
    Option ((BitVec 24 × ReportMeta) × List RingbufRawDescriptor) :=
  (tryPop ring).bind fun x => (reportMeta x.1).map (·, x.2)

theorem tryPop_append {ring rest : List RingbufRawDescriptor} {desc : MetaReportQueueDesc}
    (h : tryPop ring = some (desc, rest)) (more : List RingbufRawDescriptor) :
    tryPop (ring ++ more) = some (desc, rest ++ more) := by
  match ring with
  | [] => cases h
  | first :: tail =>
    rw [List.cons_append]
    dsimp only [tryPop] at h ⊢
    by_cases hnext : hasNext first = true
    · rw [if_pos hnext] at h ⊢
      match tail with
      | [] => cases h
      | second :: tail =>
        obtain ⟨desc', hdesc, heq⟩ := Option.map_eq_some_iff.1 h
        cases heq
        simp only [List.cons_append, hdesc, Option.map_some]
    · rw [if_neg hnext] at h ⊢
      obtain ⟨desc', hdesc, heq⟩ := Option.map_eq_some_iff.1 h
      cases heq
      rw [hdesc, Option.map_some]

theorem tryRecvMeta_append {ring rest : List RingbufRawDescriptor} {x : BitVec 24 × ReportMeta}
    (h : tryRecvMeta ring = some (x, rest)) (more : List RingbufRawDescriptor) :
    tryRecvMeta (ring ++ more) = some (x, rest ++ more) := by
  obtain ⟨⟨desc, tail⟩, hpop, hmeta⟩ := Option.bind_eq_some_iff.1 h
  obtain ⟨y, hy, heq⟩ := Option.map_eq_some_iff.1 hmeta
  cases heq
  rw [tryRecvMeta, tryPop_append hpop, Option.bind_some, hy, Option.map_some]

/-! ## The descriptors of the generator -/

theorem remapPsn_stridePsn (L : ℤ) :
    remapPsn (.ofBits (stridePsn (BitVec.ofInt 20 L))) = Psn.wrap (16 * L - 112) := by
  refine Psn.ext ?_
  have hbits : (stridePsn (BitVec.ofInt 20 L)).toNat = 16 * (L % 2 ^ 20).toNat := by
    rw [stridePsn, BitVec.toNat_append, BitVec.toNat_ofInt]
    simp only [BitVec.toNat_ofNat, Nat.zero_mod, Nat.or_zero, Nat.shiftLeft_eq]
    omega
  change (Psn.ofMasked (wrappingSub32 (stridePsn (BitVec.ofInt 20 L)).toNat 112)).inner =
    ((16 * L - 112) % (2 ^ 24 : ℕ)).toNat
  rw [Psn.ofMasked_inner, wrappingSub32, hbits]
  omega

/-- `qpn_to_index`: the place of a queue pair in the tables of the driver. -/
def qpnToIndex (qpn : BitVec 24) : ℕ := qpn.toNat / 2 ^ 8

theorem qpnToIndex_genQPN (row : BitVec 10) (key : BitVec 8) :
    qpnToIndex (genQPN row key) = row.toNat := by
  have hkey := key.isLt
  rw [qpnToIndex, genQPN, BitVec.toNat_setWidth, BitVec.toNat_append,
    ← Nat.shiftLeft_add_eq_or_of_lt hkey, Nat.shiftLeft_eq]
  omega

/-- The next report of a ring with the descriptors `ds` is `x.2`, for the queue pair with index
`x.1`. -/
def IsReport (x : BitVec 10 × LocalReport) (ds : List RingbufRawDescriptor) : Prop :=
  ∃ qpn, qpnToIndex qpn = x.1.toNat ∧ tryRecvMeta ds = some ((qpn, x.2.toMeta), [])

theorem IsReport.tryRecvMeta_append {x : BitVec 10 × LocalReport} {ds : List RingbufRawDescriptor}
    (h : IsReport x ds) (more : List RingbufRawDescriptor) :
    ∃ qpn, qpnToIndex qpn = x.1.toNat ∧ tryRecvMeta (ds ++ more) =
    some ((qpn, x.2.toMeta), more) := by
  obtain ⟨qpn, hqpn, hread⟩ := h
  exact ⟨qpn, hqpn, Link.tryRecvMeta_append hread more⟩

section

variable {received : List ℤ} {e : BitmapWindowStorageEntry}

theorem remapPsn_leftBound (he : WindowOf (highest received / 16) (receivedSet received) e) :
    remapPsn (.ofBits (stridePsn e.leftBound)) = Psn.wrap (lowEnd received) := by
  rw [he.leftBound, remapPsn_stridePsn, lowEnd]

theorem within_of_windowOf (he : WindowOf (highest received / 16) (receivedSet received) e)
    {R : Set ℤ} (hR : receivedSet received ⊆ R) :
    (⟨lowEnd received, e.data⟩ : AckWindow).Within R := by
  intro x hx
  have hmem := (he.bit x (BitVec.lt_of_getLsbD hx)).1 hx
  refine hR ?_
  rwa [show 16 * (highest received / 16) + (x : ℤ) - 112 = lowEnd received + x by
    rw [lowEnd]
    omega] at hmem

theorem reach_lowEnd (received : List ℤ) {R : Set ℤ} (hR : receivedSet received ⊆ R) :
    ∃ a ∈ R, lowEnd received ≤ a := by
  refine ⟨highest received, hR (highest_mem received), ?_⟩
  rw [lowEnd]
  omega

theorem isReport_pollingDesc (row : BitVec 10)
    (he : WindowOf (highest received / 16) (receivedSet received) e) :
    IsReport (row, .ack ⟨lowEnd received, e.data⟩) [pollingDesc row e] := by
  refine ⟨genQPN row e.qpnKeyPart, qpnToIndex_genQPN _ _, ?_⟩
  change some ((_, ReportMeta.ackLocalHw (remapPsn (.ofBits (stridePsn e.leftBound))) e.data), _) =
    _
  rw [remapPsn_leftBound he]
  rfl

end

/-- The windows before and after an update, as the driver is told. -/
def report (u : Update) : LocalReport :=
  .nak ⟨u.low, u.resp.oldEntry.data⟩ ⟨u.low', u.resp.newEntry.data⟩

section

variable {u : Update}

theorem windows_of_lost (hf : u.Faithful) (hl : u.lost = true) :
    WindowOf (highest u.received / 16) (receivedSet u.received) u.resp.oldEntry ∧
      WindowOf (highest (u.received ++ [u.number]) / 16) (receivedSet (u.received ++ [u.number]))
        u.resp.newEntry := by
  have hs : skipMergeStale u.old (oneHotEntry u.req) = false := by
    have hpos := (Update.lost_iff.1 hl).1
    rw [← Bool.not_eq_true, skipMergeStale_iff]
    omega
  have hnew : WindowOf _ _ ((writeBackEntry u.old (oneHotEntry u.req)).getD u.old) := hf.receive
  rw [writeBackEntry, if_neg (by simp [hs]), Option.getD_some] at hnew
  rw [Update.resp, updateResp, if_neg (by simp [hs])]
  exact ⟨hf, hnew⟩

theorem isReport_nakDescs (hf : u.Faithful) (hl : u.lost = true)
    {info : AtomicUpdateStorageUpdateResp AutoAckGenAtomicUpdateStorageEntry}
    (hinfo : info.rowAddr = u.rowAddr) (key : BitVec 8) :
    IsReport (u.rowAddr, report u) (nakDescs u.resp info key) := by
  obtain ⟨hpre, hnow⟩ := windows_of_lost hf hl
  refine ⟨genQPN info.rowAddr key, hinfo ▸ qpnToIndex_genQPN _ _, ?_⟩
  change some ((_, ReportMeta.nakLocalHw (remapPsn (.ofBits (stridePsn u.resp.newEntry.leftBound)))
    u.resp.newEntry.data (remapPsn (.ofBits (stridePsn u.resp.oldEntry.leftBound)))
    u.resp.oldEntry.data), _) = _
  rw [remapPsn_leftBound hpre, remapPsn_leftBound hnow]
  rfl

theorem within_report (hf : u.Faithful) (hl : u.lost = true) {R : Set ℤ}
    (hR : receivedSet (u.received ++ [u.number]) ⊆ R) : (report u).Within R := by
  obtain ⟨hpre, hnow⟩ := windows_of_lost hf hl
  exact ⟨within_of_windowOf hpre ((receivedSet_mono (List.prefix_append _ _)).trans hR),
    within_of_windowOf hnow hR, u.low_le_low', reach_lowEnd _ hR⟩

end

end OpenRdma.Link
