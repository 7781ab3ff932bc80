import OpenRdma.Link.MetaRing
import OpenRdma.Rtl.AutoAckMsn

/-!
# Negative acknowledgements of the peer

A card sends a negative acknowledgement for every loss, and the network may lose, repeat or reorder
them. The driver of the sender takes the numbers between two windows as acknowledged if the message
numbers follow each other. The message numbers count the losses of the queue pair from 0, modulo 2 ^
16, and the driver starts with 0 as the last one seen. So the negative acknowledgement with number 1
must not be the first that arrives, and none may be 2 ^ 16 ahead of those that arrived. In a run
with neither the tracker of the send side stays sound (`NaksSound`).

Beside the state we keep what no step reads: the unbounded base of the tracker, the numbers that
entered the card, and the highest number of a negative acknowledgement that arrived.
-/

namespace OpenRdma.Link

open OpenRdma.Driver OpenRdma.Rtl List Option

/-! ## The card of the peer and the driver -/

/-- The driver of the sender, and what it was told with unbounded numbers. -/
structure RemoteSide where
  handler : MetaHandler := default
  base : ℤ := 0
  entered : List (BitVec 24) := []
  last : Option ℕ := none

namespace RemoteSide

/-- The numbers that entered the card since the last reset, with all before 0. -/
def arrived (side : RemoteSide) : Set ℤ := receivedSet (readPsns side.entered)

/-- The lowest number of the furthest window the driver was told. -/
def pre (side : RemoteSide) : ℤ := Psn.lift side.base side.handler.send.psnPre

/-- The numbers less than half a circle ahead of the base; a window is 128 numbers wide. -/
def limit (side : RemoteSide) : ℤ := side.base + 2 ^ 23 - 128

end RemoteSide

/-- The card of the receiver with its history, and the driver of the sender. -/
structure RemoteWorld where
  card : AutoAckGenerator
  history : AutoAckHistory := {}
  side : RemoteSide := {}

/-- A step of the card, or the `i`-th negative acknowledgement the card sent arrives. -/
inductive RemoteLabel
  | card (l : AutoAckLabel)
  | nakArrives (i : ℕ)
  deriving DecidableEq

/-- The headers of a packet sent as its receiver reads them. -/
def received (packet : RdmaSendPacketMeta) : RdmaRecvPacketMeta where
  bth := packet.bth
  rdmaExtendHeaderBuf := packet.rdmaExtendHeaderBuf
  hasPayload := packet.hasPayload
  isEcnMarked := false

namespace RemoteWorld

/-- The `i`-th packet arrives: the card of the sender reports it, and the driver handles the report.
The packet stays where it is, since it may arrive again. A report for another queue pair than `peer`
goes to another tracker. -/
def nakArrives (qp : BitVec 10) (peer : ℕ) (w : RemoteWorld) (i : ℕ) : Option RemoteWorld :=
  (w.card.rdmaPacketMetaPipeOutQueue[i]?).bind fun packet =>
    ((received packet).genDescVector false).bind fun descs =>
      (tryRecvMeta descs).bind fun x =>
        if qpnToIndex x.1.1 = peer then
          (w.side.handler.handleMeta x.1.2).map fun r =>
            { w with
              side :=
                { w.side with
                  handler := r.1
                  base := advance w.side.base w.side.handler.send.psnTracker.basePsn
                    r.1.send.psnTracker.basePsn
                  last := some (max (w.history.nakNumber qp i) (w.side.last.getD 0)) } }
        else some w

def step (qp : BitVec 10) (peer : ℕ) (w : RemoteWorld) : RemoteLabel → Option RemoteWorld
  | .card l => (w.card.step l).map fun card =>
      { card := card
        history := w.history.record w.card l
        side := { w.side with entered := recordEntered qp w.side.entered l } }
  | .nakArrives i => w.nakArrives qp peer i

end RemoteWorld

/-- **Everything the tracker of the send side treats as acknowledged entered the card of the peer**
since the last reset. -/
def NaksSound (w : RemoteWorld) : Prop :=
  Sound w.side.handler.send.psnTracker {a | a ∈ readPsns w.side.entered} w.side.base

/-- The contexts of the packets send their negative acknowledgements to `peer` for the queue pair
only. -/
def Paired (qp : BitVec 10) (peer : ℕ) : AutoAckLabel → Prop
  | .request req => qpnToIndex req.qpc.peerQPN = peer ↔ getIndexQP req.qpn = qp
  | _ => True

/-- Number 1 is not the first to arrive, none that arrives is more than 2 ^ 16 ahead, and its
windows are not half a circle old. -/
def ArrivesInTime (qp : BitVec 10) (w : RemoteWorld) (i : ℕ) : Prop :=
  ∀ x ∈ w.history.naks[i]?, x.1.rowAddr = qp →
    (w.side.last = none → w.history.nakNumber qp i % 2 ^ 16 ≠ 1) ∧
    (∀ r ∈ w.side.last, w.history.nakNumber qp i ≤ r + 2 ^ 16) ∧
    w.side.pre + 128 ≤ x.1.low + 2 ^ 23

/-- The steps of a run in which the queue pair is reset first, the negative acknowledgements arrive
in time and no number is half a circle away. -/
def RemoteOk (qp : BitVec 10) (peer : ℕ) (w : RemoteWorld) : RemoteLabel → Prop
  | .card l => ResetFirst qp w.card w.side.entered l ∧
      EntersBelow qp w.side.entered w.side.limit l ∧ Paired qp peer l
  | .nakArrives i => ArrivesInTime qp w i

instance (qp : BitVec 10) (peer : ℕ) : (l : AutoAckLabel) → Decidable (Paired qp peer l)
  | .request _ => inferInstanceAs (Decidable (_ ↔ _))
  | .resetRequest _ | .bitmapStorage _ | .autoAckMeta _ | .bramInit | .timerTask
  | .forwardInputReqToPsnBitMapStorage | .handleMergedBitmap | .genAutoAckEthPacket
  | .genAutoAckReportDescriptor | .forwardMetaReportDescToOutput | .sendPollingReq | .getPollingResp
  | .handlePollingResult | .forwardQpResetSignal => inferInstanceAs (Decidable True)

instance (qp : BitVec 10) (w : RemoteWorld) (i : ℕ) : Decidable (ArrivesInTime qp w i) :=
  inferInstanceAs (Decidable (∀ x ∈ w.history.naks[i]?, _ → _))

instance (qp : BitVec 10) (peer : ℕ) (w : RemoteWorld) (l : RemoteLabel) :
    Decidable (RemoteOk qp peer w l) := by
  unfold RemoteOk
  split <;> infer_instance

/-! ## What a negative acknowledgement says -/

theorem tryRecvMeta_nakPacketMeta {u : Update} (hf : u.Faithful) (hl : u.lost = true)
    (qpc : EntryQPC) (msn : BitVec 16) : ∃ descs,
    (received (nakPacketMeta qpc u.resp msn)).genDescVector false = some descs ∧
      tryRecvMeta descs = some ((qpc.peerQPN, .nakRemoteHw (.ofBits msn) (Psn.wrap u.low')
        u.resp.newEntry.data (Psn.wrap u.low) u.resp.oldEntry.data), []) := by
  obtain ⟨hpre, hnow⟩ := windows_of_lost hf hl
  have haeth : extractAETH (received (nakPacketMeta qpc u.resp msn)).rdmaExtendHeaderBuf =
      { preBitmap := u.resp.oldEntry.data
        newBitmap := u.resp.newEntry.data
        isPacketLost := true
        isWindowSlided := true
        isSendByDriver := false
        preBitmapPsn := stridePsn u.resp.oldEntry.leftBound } := extractAETH_build _
  have hdescs : (received (nakPacketMeta qpc u.resp msn)).genDescVector false =
      some [.ack (received (nakPacketMeta qpc u.resp msn)).ackDesc,
        .ackExtra ⟨(received (nakPacketMeta qpc u.resp msn)).commonHeader,
          u.resp.oldEntry.data⟩] := by
    change (if (extractAETH (received (nakPacketMeta qpc u.resp
      msn)).rdmaExtendHeaderBuf).isWindowSlided
      then _ else _) = _
    rw [haeth]
    rfl
  refine ⟨_, hdescs, ?_⟩
  rw [RdmaRecvPacketMeta.ackDesc, haeth]
  change some ((_, ReportMeta.nakRemoteHw _ (remapPsn
    (.ofBits (stridePsn u.resp.newEntry.leftBound))) _
    (remapPsn (.ofBits (stridePsn u.resp.oldEntry.leftBound))) _), _) = _
  rw [remapPsn_leftBound hpre, remapPsn_leftBound hnow]
  rfl

/-- The driver remembers the negative acknowledgement with the highest number. -/
def Remembers (naks : List Update) (side : RemoteSide) : Prop :=
  match side.last with
  | none => side.pre = 0 ∧ side.handler.send.msnPre = Msn.wrap 0
  | some r => ∃ u, naks[r]? = some u ∧ side.pre = max 0 u.low' ∧
      side.handler.send.msnPre = Msn.wrap r

/-- The tracker is sound for what entered, and remembers the furthest negative acknowledgement. -/
structure RemoteInv (qp : BitVec 10) (peer : ℕ) (w : RemoteWorld) : Prop where
  pipeline : AutoAckInv w.card w.history
  naks : NaksInv w.card w.history
  row : RowInv qp w.card w.history w.side.entered
  msns : MsnInv qp w.card w.history
  near : EnteredInv w.side.entered w.side.limit
  paired : ∀ req ∈ w.history.forwarded ++ w.card.reqPipeInQueue,
    qpnToIndex req.qpc.peerQPN = peer ↔ getIndexQP req.qpn = qp
  sound : WindowSound w.side.handler.send.psnTracker w.side.handler.send.psnPre w.side.arrived
    w.side.base w.side.pre
  remembers : Remembers (w.history.naksOf qp) w.side

namespace RemoteInv

variable {qp : BitVec 10} {peer : ℕ} {w w' : RemoteWorld} (hi : RemoteInv qp peer w)
include hi

theorem handled_subset : receivedSet (countPsns (w.history.bitmap.handled qp)) ⊆ w.side.arrived :=
  hi.row.handled_subset hi.pipeline hi.near.counted

theorem lt_limit : ∀ a ∈ w.side.arrived, a + 128 < w.side.base + 2 ^ 23 := by
  intro a ha
  have := hi.near.below a ha
  unfold RemoteSide.limit at this
  omega

theorem limit_le : w.side.limit ≤ highest (readPsns w.side.entered) + 2 ^ 23 - 15 := by
  have hneg := neg_one_le_highest (readPsns w.side.entered)
  have hbase : w.side.base ≤ highest (readPsns w.side.entered) + 1 :=
    hi.sound.sound.base_le (by omega) fun a ha => Int.lt_add_one_of_le (le_highest ha.1)
  unfold RemoteSide.limit
  omega

theorem ordered : Ordered (w.history.lostOf qp) :=
  hi.row.ordered_lostOf hi.pipeline

theorem getElem?_lostOf {i : ℕ} {u : Update}
    (hu : (w.history.naksOf qp)[i]? = some u) : (w.history.lostOf qp)[i]? = some u := by
  obtain ⟨us, hus⟩ := hi.pipeline.naksOf_prefix qp
  rw [← hus, List.getElem?_append_left (List.getElem?_eq_some_iff.1 hu).1, hu]

/-- **A step of the card keeps the tracker sound.** -/
theorem card {l : AutoAckLabel} (hok : RemoteOk qp peer w (.card l))
    (hs : w.step qp peer (.card l) = some w') : RemoteInv qp peer w' := by
  obtain ⟨hfirst, hbelow, hpaired⟩ := hok
  obtain ⟨s', hs', rfl⟩ := Option.map_eq_some_iff.1 hs
  obtain ⟨hsub, hnear⟩ := hi.near.step hi.limit_le hfirst hbelow
  refine ⟨hi.pipeline.step hs', hi.naks.step hi.pipeline hs', hi.row.step hi.pipeline hfirst hs',
    hi.msns.step hi.pipeline hi.naks hi.row hs', hnear, fun req hreq => ?_, hi.sound.mono hsub, ?_⟩
  · rw [record_requests _ hs'] at hreq
    rcases List.mem_append.1 hreq with hreq | hreq
    · exact hi.paired req hreq
    · cases l with
      | request req' =>
        obtain rfl := List.mem_singleton.1 hreq
        exact hpaired
      | _ => cases hreq
  · have hremembers := hi.remembers
    obtain ⟨us, hus⟩ := hi.pipeline.naksOf_mono hs' qp
    unfold Remembers at hremembers ⊢
    cases hlast : w.side.last with
    | none =>
      rw [hlast] at hremembers
      exact hremembers
    | some r =>
      rw [hlast] at hremembers
      obtain ⟨u, hu, hpre, hmsn⟩ := hremembers
      refine ⟨u, ?_, hpre, hmsn⟩
      rw [← hus, List.getElem?_append_left (List.getElem?_eq_some_iff.1 hu).1, hu]

theorem filled {k : ℕ} {u : Update}
    (hu : (w.history.naksOf qp)[k]? = some u) (hfirst : w.side.last = none → k % 2 ^ 16 ≠ 1)
    (hahead : ∀ r ∈ w.side.last, k ≤ r + 2 ^ 16)
    (hmsn : Msn.wrap k = w.side.handler.send.msnPre.wrappingAdd 1) {a : ℤ} (h₁ : w.side.pre ≤ a)
    (h₂ : a < u.low) : a ∈ w.side.arrived := by
  have hremembers := hi.remembers
  unfold Remembers at hremembers
  cases hlast : w.side.last with
  | none =>
    rw [hlast] at hremembers
    rw [hremembers.2, Msn.wrappingAdd_wrap, Msn.wrap_eq_wrap_iff] at hmsn
    exact absurd (by omega) (hfirst hlast)
  | some r =>
    rw [hlast] at hremembers
    obtain ⟨v, hv, hpre, hmsnPre⟩ := hremembers
    rw [hmsnPre, Msn.wrappingAdd_wrap, Msn.wrap_eq_wrap_iff] at hmsn
    have hle := hahead r hlast
    have hu' := hi.getElem?_lostOf hu
    have hv' := hi.getElem?_lostOf hv
    rcases Nat.lt_or_ge r k with hrk | hkr
    · obtain rfl : k = r + 1 := by omega
      refine hi.handled_subset (hi.row.mem_of_known (fun x hx =>
        hi.ordered.known_of_next hv' hu' hx) ?_ (by omega) h₂)
      have hmem := RowInv.mem_updatesOf (mem_of_getElem? hu')
      exact u.low_le_low'.trans (hi.row.low'_le hmem)
    · -- an old one says nothing beyond the furthest window
      have := hi.ordered.low'_mono hu' hv' hkr
      have := u.low_le_low'
      omega

theorem remembers_max {k : ℕ} {u : Update} {side : RemoteSide}
    (hu : (w.history.naksOf qp)[k]? = some u) (hlast : side.last =
      some (max k (w.side.last.getD 0)))
    (hpre : side.pre = max w.side.pre u.low') (hmsn : side.handler.send.msnPre =
      if w.side.pre < u.low' then Msn.wrap k else w.side.handler.send.msnPre) :
    Remembers (w.history.naksOf qp) side := by
  have hremembers := hi.remembers
  have hu' := hi.getElem?_lostOf hu
  have hpos : 0 < k → 0 < u.low' := hi.ordered.low'_pos hu'
  unfold Remembers at hremembers ⊢
  rw [hlast]
  cases hlast' : w.side.last with
  | none =>
    rw [hlast'] at hremembers
    obtain ⟨hpre', hmsn'⟩ := hremembers
    rw [hpre'] at hpre hmsn
    refine ⟨u, by simpa using hu, hpre, ?_⟩
    rw [hmsn, getD_none, Nat.max_zero]
    by_cases hslid : 0 < u.low'
    · rw [if_pos hslid]
    · obtain rfl : k = 0 := by omega
      rw [if_neg hslid, hmsn']
      rfl
  | some r =>
    rw [hlast'] at hremembers
    obtain ⟨v, hv, hpre', hmsn'⟩ := hremembers
    have hv' := hi.getElem?_lostOf hv
    rw [getD_some]
    rcases Nat.lt_or_ge r k with hrk | hkr
    · have hle := hi.ordered.low'_le_low hv' hu' hrk
      have hmem := mem_of_getElem? hu'
      have hlt := (hi.ordered.faithful u hmem).low_lt (hi.ordered.lost u hmem)
      rw [max_eq_left hrk.le]
      refine ⟨u, hu, by omega, ?_⟩
      rw [hmsn, if_pos (by omega)]
    · have hle := hi.ordered.low'_mono hu' hv' hkr
      rw [max_eq_right hkr]
      refine ⟨v, hv, by omega, ?_⟩
      rw [hmsn, if_neg (by omega), hmsn']

theorem packet_eq {i : ℕ} {packet : RdmaSendPacketMeta}
    (hpacket : w.card.rdmaPacketMetaPipeOutQueue[i]? = some packet) :
    ∃ x msn, w.history.naks[i]? = some x ∧ packet = nakPacketMeta x.2.qpc x.1.resp msn := by
  obtain ⟨hlt, -⟩ := List.getElem?_eq_some_iff.1 hpacket
  have hlength := hi.naks.packets_length
  have hmac : i < w.card.macIpUdpMetaPipeOutQueue.length := by
    rw [hi.naks.lengths]
    exact hlt
  have hzip : (w.card.macIpUdpMetaPipeOutQueue.zip w.card.rdmaPacketMetaPipeOutQueue)[i]? =
      some (w.card.macIpUdpMetaPipeOutQueue[i], packet) :=
    List.getElem?_zip_eq_some.2 ⟨List.getElem?_eq_getElem hmac, hpacket⟩
  obtain ⟨hx, hget⟩ := List.getElem?_eq_some_iff.1 hzip
  obtain ⟨-, msn, hnak⟩ := hi.naks.packets.get (hlength ▸ hlt) hx
  refine ⟨_, msn, List.getElem?_eq_getElem (hlength ▸ hlt), ?_⟩
  rw [List.get_eq_getElem, hget] at hnak
  exact hnak

/-- **A negative acknowledgement that arrives in time keeps the tracker sound.** -/
theorem arrives {i : ℕ} (hok : ArrivesInTime qp w i)
    (hs : w.nakArrives qp peer i = some w') : RemoteInv qp peer w' := by
  obtain ⟨packet, hpacket, hs⟩ := bind_eq_some_iff.1 hs
  obtain ⟨descs, hdescs, hs⟩ := bind_eq_some_iff.1 hs
  obtain ⟨⟨⟨qpn, m⟩, rest⟩, hread, hs⟩ := bind_eq_some_iff.1 hs
  obtain ⟨x, msn, hx, rfl⟩ := hi.packet_eq hpacket
  have hmem := mem_of_getElem? hx
  have hlost : x.1.lost = true := (mem_filter.1 hmem).2
  have hf : x.1.Faithful := hi.pipeline.faithful x.1
    (mem_of_mem_take (of_mem_zip (mem_filter.1 hmem).1).1)
  obtain ⟨descs', hdescs', hread'⟩ := tryRecvMeta_nakPacketMeta hf hlost x.2.qpc msn
  obtain rfl := some.inj (hdescs.symm.trans hdescs')
  obtain ⟨heq, -⟩ := Prod.mk.inj (some.inj (hread.symm.trans hread'))
  cases heq
  obtain ⟨hforwarded, hqpn⟩ := hi.pipeline.naks_req hmem
  have hpaired := hi.paired x.2 (mem_append_left _ hforwarded)
  rw [hqpn] at hpaired
  by_cases hrow : x.1.rowAddr = qp
  · rw [if_pos (hpaired.2 hrow)] at hs
    obtain ⟨⟨h', out⟩, hhandle, rfl⟩ := Option.map_eq_some_iff.1 hs
    obtain ⟨hfirst, hahead, hnear⟩ := hok x hx hrow
    have hu := w.history.naksOf_nakNumber hx hrow
    have hmsn : Msn.ofBits msn = Msn.wrap (w.history.nakNumber qp i) := by
      have hbits := congrArg (fun p => p.bth.msn) (hi.msns.packets i x _ hx hpacket hrow)
      exact congrArg Msn.ofBits hbits
    have hof : x.1 ∈ w.history.updatesOf qp :=
      RowInv.mem_updatesOf (mem_of_getElem? (hi.getElem?_lostOf hu))
    have hfilled : Msn.ofBits msn = w.side.handler.send.msnPre.wrappingAdd 1 →
        ∀ a, w.side.pre ≤ a → a < x.1.low → a ∈ w.side.arrived := fun hnext a h₁ h₂ =>
      hi.filled hu hfirst hahead (hmsn ▸ hnext) h₁ h₂
    obtain ⟨h'', out', hhandle', hsound, hmsnPre⟩ := hi.sound.remote hi.lt_limit
      (within_report hf hlost ((receivedSet_mono (hi.row.received x.1 hof)).trans
        hi.handled_subset))
      hnear hfilled
    obtain ⟨rfl, rfl⟩ := Prod.mk.inj (some.inj (hhandle.symm.trans hhandle'))
    have hbase := le_advance w.side.base w.side.handler.send.psnTracker.basePsn
      h'.send.psnTracker.basePsn
    have hpre := hsound.lift_pre fun a ha => (hi.lt_limit a ha).trans_le (by omega)
    refine ⟨hi.pipeline, hi.naks, hi.row, hi.msns, hi.near.mono ?_, hi.paired, ?_,
      hi.remembers_max hu rfl hpre (hmsn ▸ hmsnPre)⟩
    · unfold RemoteSide.limit
      dsimp only
      omega
    · rw [← hpre] at hsound
      exact hsound
  · rw [if_neg (fun heq => hrow (hpaired.1 heq))] at hs
    cases hs
    exact hi

theorem naksSound : NaksSound w where
  base := hi.sound.sound.base
  nonneg := hi.sound.sound.nonneg
  below a h₁ h₂ := (hi.sound.sound.below a h₁ h₂).1.resolve_left (not_lt.2 h₁)
  bits i hbit := (hi.sound.sound.bits i hbit).1.resolve_left (by
    have := hi.sound.sound.nonneg
    omega)

end RemoteInv

theorem remoteInv_init {s₀ : AutoAckGenerator} (hs₀ : s₀.Initial) (qp : BitVec 10) (peer : ℕ) :
    RemoteInv qp peer { card := s₀ } := by
  have hpre : Psn.lift 0 (default : Psn) = 0 := Psn.lift_wrap (a := 0) (by decide) (by decide)
  refine ⟨autoAckInv_init hs₀, naksInv_init hs₀, rowInv_init hs₀ qp, msnInv_init hs₀ qp,
    enteredInv_nil (show (0 : ℤ) ≤ 0 + 2 ^ 23 - 128 by decide), fun req hreq => ?_, ?_, hpre, rfl⟩
  · rw [hs₀.2.2] at hreq
    cases hreq
  · change WindowSound default default (receivedSet (readPsns [])) 0 (Psn.lift 0 default)
    exact windowSound_default _

/-- **In every such run the tracker of the send side is sound.** -/
theorem run_naksSound {qp : BitVec 10} {peer : ℕ} {s₀ : AutoAckGenerator} {ls : List RemoteLabel}
    {w : RemoteWorld} (hs₀ : s₀.Initial)
    (hrun : Run (RemoteWorld.step qp peer) (RemoteOk qp peer) { card := s₀ } ls w) :
    NaksSound w := by
  refine (hrun.invariant (I := fun _ w => RemoteInv qp peer w) (remoteInv_init hs₀ qp peer)
    ?_).naksSound
  rintro - w l w' hi hok hs
  cases l with
  | card l => exact hi.card hok hs
  | nakArrives i => exact hi.arrives hok hs

/-- Numbers 0, 200 and 600 arrive, and the last two are reported as losses. -/
def twoLosses : List RemoteLabel :=
  (clearMemories ++ markPacket 0 ++ countPacket ++ markPacket 200 ++
    countPacket ++ markPacket 600 ++ countPacket).map .card

/-- The second negative acknowledgement arrives after the first, and both arrive again. -/
theorem run_naksSound_two_losses :
    ∃ w, Run (RemoteWorld.step 0 0) (RemoteOk 0 0) { card := autoAckPowerUp }
        (twoLosses ++ [.nakArrives 0, .nakArrives 1, .nakArrives 0, .nakArrives 1]) w ∧
      w.side.last = some 1 ∧ w.side.base = 1 ∧ w.side.handler.send.psnTracker.acked 600 ∧
      NaksSound w :=
  (Run.nil.append_any (P := fun w : RemoteWorld => w.side.last = some 1 ∧ w.side.base = 1 ∧
      w.side.handler.send.psnTracker.acked 600) (by decide +kernel)).imp
    fun _ ⟨hrun, hlast, hbase, hacked⟩ =>
      ⟨hrun, hlast, hbase, hacked, run_naksSound autoAckPowerUp_initial hrun⟩

/-- The first negative acknowledgement is lost. The second has message number 1, which is next to
the 0 the driver starts with: the numbers before its window are taken as acknowledged, and most of
them never arrived. -/
theorem run_first_nak_lost :
    ∃ w, Run (RemoteWorld.step 0 0) (fun w l => l ≠ .nakArrives 1 → RemoteOk 0 0 w l)
        { card := autoAckPowerUp } (twoLosses ++ [.nakArrives 1]) w ∧
      readPsns w.side.entered = [0, 200, 600] ∧ w.side.base = 80 ∧ ¬ NaksSound w := by
  refine (Run.nil.append_any (P := fun w : RemoteWorld => readPsns w.side.entered = [0, 200, 600] ∧
    w.side.base = 80) (by decide +kernel)).imp fun w ⟨hrun, hentered, hbase⟩ =>
    ⟨hrun, hentered, hbase, fun hsound => ?_⟩
  have hmem := hsound.below 1 (by decide) (by rw [hbase]; decide)
  rw [hentered] at hmem
  exact absurd hmem (by decide)

end OpenRdma.Link
