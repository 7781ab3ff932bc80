import OpenRdma.Rtl.AutoAck

/-!
# Losses are reported

An update loses a number if it moves the window past one that did not arrive (`Update.Loses`). The
bits that leave the window tell this for a move of less than a window, and a move of more than a
window skips numbers; but a move of exactly one window is always reported as a loss, even if every
number arrived. Apart from that the negative acknowledgements and their descriptors are those of the
updates that lose a number, in order (`LossesReported`).
-/

namespace OpenRdma.Rtl

open List Option AutoAckGenerator AutoAckHistory AtomicUpdateStorage

/-! ## Losses of one update -/

/-- The lowest number of the window that ends with the stride of the highest number. -/
def lowEnd (received : List ℤ) : ℤ := 16 * (highest received / 16) - 112

namespace Update

/-- The window before the update is that of the numbers received. -/
def Faithful (u : Update) : Prop := WindowOf (highest u.received / 16)
    (receivedSet u.received) u.old

/-- The lowest number of the window before the update. -/
def low (u : Update) : ℤ := lowEnd u.received

/-- The lowest number of the window after the update. -/
def low' (u : Update) : ℤ := lowEnd (u.received ++ [u.number])

/-- **The update moves the window past a number that did not arrive.** -/
def Loses (u : Update) : Prop := ∃ p, 0 ≤ p ∧ p ∉ u.received ∧ u.low ≤ p ∧ p < u.low'

instance (u : Update) : Decidable u.Loses :=
  decidable_of_iff (∃ i < (u.low' - max 0 u.low).toNat, max 0 u.low + (i : ℕ) ∉ u.received) <| by
    constructor
    · rintro ⟨i, hi, hp⟩
      exact ⟨_, by omega, hp, by omega, by omega⟩
    · rintro ⟨p, h₀, hp, h₁, h₂⟩
      refine ⟨(p - max 0 u.low).toNat, by omega, ?_⟩
      rwa [show max 0 u.low + ((p - max 0 u.low).toNat : ℤ) = p by omega]

/-- The update moves the window by exactly its width, and every number in it arrived. -/
def MovesFullWindow (u : Update) : Prop :=
  strideDelta u.old (oneHotEntry u.req) = 8 ∧ u.old.data = BitVec.allOnes 128

instance (u : Update) : Decidable u.MovesFullWindow := inferInstanceAs (Decidable (_ ∧ _))

variable {u : Update}

theorem low_le_low' (u : Update) : u.low ≤ u.low' := by
  rw [low, low', lowEnd, lowEnd, highest_concat_div]
  omega

theorem resp_rowAddr (u : Update) : u.resp.rowAddr = u.rowAddr := by
  unfold resp updateResp
  split_ifs <;> rfl

theorem lost_iff : u.lost ↔ 0 < strideDelta u.old (oneHotEntry u.req) ∧
    windowShiftedOutData u.old (oneHotEntry u.req) ≠ -1 := by
  unfold lost resp updateResp BitmapWindowStorageUpdateResp.hasPacketLost
  by_cases hs : skipMergeStale u.old (oneHotEntry u.req)
  · have hle := skipMergeStale_iff.1 hs
    rw [if_pos hs]
    simp only [Bool.false_and, Bool.false_eq_true, false_iff]
    omega
  · rw [if_neg hs, Bool.and_eq_true, isShiftWindow_iff, bne_iff_ne]

theorem Faithful.low'_eq (hf : u.Faithful) :
    u.low' = u.low + 16 * max 0 (strideDelta u.old (oneHotEntry u.req)) := by
  have hd := hf.strideDelta_eq u.req
  rw [low', low, lowEnd, lowEnd, highest_concat_div, number, countPsn]
  omega

theorem Faithful.mem_of_not_lost (hf : u.Faithful) (hl : u.lost = false) {p : ℤ} (h₁ : u.low ≤ p)
    (h₂ : p < u.low') : p ∈ receivedSet u.received := by
  have hlow' := hf.low'_eq
  have hn : ¬ (u.lost = true) := by
    rw [hl]
    exact Bool.false_ne_true
  rw [lost_iff, not_and, not_not] at hn
  have hpos : 0 < strideDelta u.old (oneHotEntry u.req) := by omega
  have hout := hn hpos
  have hlt : strideDelta u.old (oneHotEntry u.req) < 8 := by
    by_contra hge
    rw [windowShiftedOutData_of_le (not_lt.1 hge)] at hout
    exact absurd hout (by decide)
  have hbit := (windowShiftedOutData_eq hpos hlt).1 hout (p - u.low).toNat (by omega)
  rw [hf.bit _ (by omega)] at hbit
  rwa [show 16 * (highest u.received / 16) + ((p - u.low).toNat : ℤ) - 112 = p by
    rw [Update.low, lowEnd] at h₁ ⊢
    omega] at hbit

theorem mem_received {received : List ℤ} {p : ℤ} (hp : 0 ≤ p) :
    p ∈ receivedSet received ↔ p ∈ received := by
  exact ⟨fun h => h.resolve_left (by omega), Or.inr⟩

/-- **The bits tell a loss**, except for a move by a full window. -/
theorem Faithful.lost_iff_loses (hf : u.Faithful) (hfull : ¬ u.MovesFullWindow) :
    u.lost ↔ u.Loses := by
  have hlow' := hf.low'_eq
  have hhighest := neg_one_le_highest u.received
  constructor
  · intro hl
    obtain ⟨hpos, hout⟩ := lost_iff.1 hl
    rcases lt_trichotomy (strideDelta u.old (oneHotEntry u.req)) 8 with hlt | heq | hgt
    · -- some bit that leaves the window is not set
      rw [Ne, windowShiftedOutData_eq hpos hlt, not_forall] at hout
      obtain ⟨i, hout⟩ := hout
      rw [Classical.not_imp] at hout
      obtain ⟨hi, hbit⟩ := hout
      rw [hf.bit i (by omega), receivedSet, Set.mem_ofPred_eq, not_or] at hbit
      refine ⟨_, not_lt.1 hbit.1, hbit.2, ?_, ?_⟩
      · rw [low, lowEnd]
        omega
      · rw [hlow', low, lowEnd]
        omega
    · -- some bit of the full window is not set
      have hdata : u.old.data ≠ BitVec.allOnes 128 := fun h => hfull ⟨heq, h⟩
      obtain ⟨i, hi, hbit⟩ : ∃ i < 128, ¬ u.old.data.getLsbD i := by
        by_contra hall
        push Not at hall
        refine hdata (BitVec.eq_of_getLsbD_eq fun i hi => ?_)
        rw [hall i hi, BitVec.getLsbD_allOnes, decide_eq_true hi]
      rw [hf.bit i hi, receivedSet, Set.mem_ofPred_eq, not_or] at hbit
      refine ⟨_, not_lt.1 hbit.1, hbit.2, ?_, ?_⟩
      · rw [low, lowEnd]
        omega
      · rw [hlow', low, lowEnd]
        omega
    · -- the number after the old window is skipped
      refine ⟨u.low + 128, ?_, fun hmem => ?_, by omega, by omega⟩
      · rw [low, lowEnd]
        omega
      · have htop := hf.top _ (Or.inr hmem)
        rw [low, lowEnd] at htop
        omega
  · rintro ⟨p, h0, hp, h₁, h₂⟩
    by_contra hl
    exact hp ((mem_received h0).1 (hf.mem_of_not_lost (Bool.not_eq_true _ ▸ hl) h₁ h₂))

end Update

/-! ## The order of the pipeline -/

theorem WindowsInv.merge_cases {b b' : BitmapWindowStorage} {h : BitmapHistory}
    (hi : WindowsInv b h) (hs : b.getBramQueryRespAndMergeThem = some b') :
    (nextUpdate b h = none ∧ b'.respPipeOutQueue = b.respPipeOutQueue ∧
        (h.record b .getBramQueryRespAndMergeThem).responses = h.responses ∧
        ∃ e ∈ b.stageOneToTwoPipelineQueue, e.isReset = true ∧
          (h.record b .getBramQueryRespAndMergeThem).handled =
            Function.update h.handled e.rowAddr []) ∨
      ∃ u, nextUpdate b h = some u ∧ u.Faithful ∧ h.requests[h.responses.length]? = some u.req ∧
        u.received = countPsns (h.handled u.rowAddr) ∧
        b'.respPipeOutQueue = b.respPipeOutQueue ++ [u.resp] ∧
        (h.record b .getBramQueryRespAndMergeThem).responses = h.responses ++ [u.resp] ∧
        (h.record b .getBramQueryRespAndMergeThem).handled =
          Function.update h.handled u.rowAddr (h.handled u.rowAddr ++ [u.req.psn]) := by
  cases BitmapWindowStorage.fires_merge hs with
  | @mergeReset e es _ he hr =>
    refine Or.inl ⟨?_, rfl, ?_, e, ?_, hr, ?_⟩
    · simp [nextUpdate, he, hr]
    · simp [BitmapHistory.record, he, hr]
    · rw [he]
      exact mem_cons_self
    · simp [BitmapHistory.record, he, hr]
  | mergeUpdate hinit he hr ho =>
    obtain ⟨req, hreq, rfl, -, hread, hwindow⟩ := hi.next_update hinit he hr
    rw [ho] at hread
    cases hread
    refine Or.inr ⟨⟨req, countPsns (h.handled (getIndexQP req.qpn)),
      b.storage (getIndexQP req.qpn)⟩, ?_, hwindow, hreq, rfl, rfl, ?_, ?_⟩
    · simp [nextUpdate, he, hr, hreq]
    · simp only [BitmapHistory.record, he, ho]
      rfl
    · simp only [BitmapHistory.record, he, hr, hreq]
      rfl

theorem BitmapHistory.record_requests (h : BitmapHistory) (b : BitmapWindowStorage)
    {l : BitmapLabel} (hl : l.isRule) : (h.record b l).requests = h.requests := by
  cases l with
  | update _ | reset _ | readOnly _ | takeResp | takeReadOnlyResp => cases hl
  | bramInit | sendBramQueryReqAndGenOneHotBitmap | doBramWriteBack | handleReadOnlyReq
  | handleReadOnlyResp => rfl
  | getBramQueryRespAndMergeThem =>
    unfold record
    dsimp only
    split
    · split_ifs <;> rfl
    · rfl

theorem bitmap_rule_quiet {b b' : BitmapWindowStorage} {l : BitmapLabel} (hl : l.isRule)
    (hne : l ≠ .getBramQueryRespAndMergeThem) (hs : b.step l = some b') (h : BitmapHistory) :
    b'.respPipeOutQueue = b.respPipeOutQueue ∧ (h.record b l).responses = h.responses ∧
      (h.record b l).handled = h.handled := by
  cases BitmapWindowStorage.fires_of_step hs with
  | update | reset | readOnly | takeResp | takeReadOnlyResp => cases hl
  | mergeReset | mergeUpdate => exact absurd rfl hne
  | bramInit | queryReset | queryUpdate | doBramWriteBack | handleReadOnlyReq
      | handleReadOnlyResp =>
    exact ⟨rfl, rfl, rfl⟩

/-- The updates and packets pass the pipeline in order: those not looked at yet are in its
queues. -/
structure AutoAckInv (s : AutoAckGenerator) (h : AutoAckHistory) : Prop where
  windows : WindowsInv s.bitmapStorage h.bitmap
  values : AtomicInv s.autoAckMetaAtomicUpdateStorage
  requests : h.bitmap.requests = h.forwarded.map fun req => ⟨req.qpn, req.psn⟩
  responses : h.bitmap.responses.length = h.updates.length
  updates : h.updates.map (·.req) = h.bitmap.requests.take h.updates.length
  faithful : ∀ u ∈ h.updates, u.Faithful
  merged : (h.updates.drop h.done).map (·.resp) =
    s.genAutoAckEthPacketPipelineQueue.map (·.bitmapUpdateResp) ++ s.bitmapStorage.respPipeOutQueue
  contexts : (h.forwarded.drop h.done).map (fun req => (req.qpn, req.qpc)) =
    s.genAutoAckEthPacketPipelineQueue.map (fun e => (e.qpn, e.qpc)) ++
      s.handleMergedBitmapPipelineQueue.map fun e => (e.qpn, e.qpc)
  flags : s.genAutoAckEthPacketPipelineQueue.map (fun e =>
      (e.bitmapUpdateResp.rowAddr, e.bitmapUpdateResp.hasPacketLost)) =
    s.autoAckMetaAtomicUpdateStorage.respPipeOutQueue.map (fun resp =>
      (resp.rowAddr, resp.newValue.hasReported)) ++
    s.autoAckMetaAtomicUpdateStorage.pending.map fun req => (req.rowAddr, req.reqData)
  done_le : h.done ≤ h.updates.length

theorem AutoAckHistory.record_bitmap (h : AutoAckHistory) (s : AutoAckGenerator)
    (l : AutoAckLabel) : (h.record s l).bitmap =
    (s.bitmapLabel l).elim h.bitmap (h.bitmap.record s.bitmapStorage) := by
  unfold record
  split <;> rfl

section

variable {s s' : AutoAckGenerator} {h : AutoAckHistory} {w w' : AutoAckGenerator × AutoAckHistory}

theorem WindowsInv.autoAck {l : AutoAckLabel} (hi : WindowsInv s.bitmapStorage h.bitmap)
    (hs : s.step l = some s') : WindowsInv s'.bitmapStorage (h.record s l).bitmap := by
  have hstep := bitmapStorage_step hs
  rw [record_bitmap]
  cases hl : s.bitmapLabel l with
  | none =>
    rw [hl] at hstep
    rw [hstep]
    exact hi
  | some bl =>
    rw [hl] at hstep
    exact hi.step hstep

namespace AutoAckInv

variable (hi : AutoAckInv s h)
include hi

theorem done_le_forwarded : h.done ≤ h.forwarded.length := by
  have hlen := congrArg length hi.requests
  have hlen' := congrArg length hi.updates
  rw [length_map] at hlen
  rw [length_map, length_take] at hlen'
  have := hi.done_le
  omega

theorem updates_drop {e : AutoAckGeneratorToGenAutoAckEthPacketPipelineEntry}
    {es : List AutoAckGeneratorToGenAutoAckEthPacketPipelineEntry}
    (he : s.genAutoAckEthPacketPipelineQueue = e :: es) :
    ∃ u us req reqs, h.updates.drop h.done = u :: us ∧ h.forwarded.drop h.done = req :: reqs ∧
      u.resp = e.bitmapUpdateResp ∧ (req.qpn, req.qpc) = (e.qpn, e.qpc) := by
  have hmerged := hi.merged
  have hcontexts := hi.contexts
  rw [he] at hmerged hcontexts
  obtain ⟨u, us, hu, hresp, -⟩ := map_eq_cons_iff.1 hmerged
  obtain ⟨req, reqs, hreq, hctx, -⟩ := map_eq_cons_iff.1 hcontexts
  exact ⟨u, us, req, reqs, hu, hreq, hresp, hctx⟩

theorem bitmapRule {l : BitmapLabel} (hs : s.step (.bitmapStorage l) = some s') :
    AutoAckInv s' (h.record s (.bitmapStorage l)) := by
  have hwindows := hi.windows.autoAck hs
  obtain ⟨hl, b, hb, rfl⟩ := bitmapStorage_eq hs
  have hrequests := h.bitmap.record_requests s.bitmapStorage hl
  by_cases hmerge : l = .getBramQueryRespAndMergeThem
  · subst hmerge
    rcases hi.windows.merge_cases hb with ⟨hnone, hresp, hresps, -⟩ |
      ⟨u, hu, hf, hreq, -, hresp, hresps, -⟩
    · have hrecord : h.record s (.bitmapStorage .getBramQueryRespAndMergeThem) =
          { h with bitmap := h.bitmap.record s.bitmapStorage .getBramQueryRespAndMergeThem } := by
        simp only [record, hnone, toList_none, append_nil]
        rfl
      rw [hrecord] at hwindows ⊢
      refine ⟨hwindows, hi.values, hrequests.trans hi.requests, ?_, ?_, hi.faithful, ?_,
        hi.contexts, hi.flags, hi.done_le⟩
      · exact (congrArg length hresps).trans hi.responses
      · exact hi.updates.trans (by rw [hrequests])
      · rw [hresp]
        exact hi.merged
    · have hrecord : h.record s (.bitmapStorage .getBramQueryRespAndMergeThem) =
          { h with
            bitmap := h.bitmap.record s.bitmapStorage .getBramQueryRespAndMergeThem
            updates := h.updates ++ [u] } := by
        simp only [record, hu]
        rfl
      rw [hrecord] at hwindows ⊢
      refine ⟨hwindows, hi.values, hrequests.trans hi.requests, ?_, ?_, ?_, ?_, hi.contexts,
        hi.flags, ?_⟩
      · rw [hresps, length_append, length_append, hi.responses]
        rfl
      · rw [hi.responses] at hreq
        rw [hrequests, map_append, hi.updates, length_append, length_singleton, take_add_one, hreq]
        rfl
      · intro u' hu'
        rcases mem_append.1 hu' with hu' | hu'
        · exact hi.faithful u' hu'
        · rw [mem_singleton.1 hu']
          exact hf
      · rw [drop_append_of_le_length hi.done_le, map_append, hi.merged, hresp, append_assoc]
        rfl
      · rw [length_append]
        exact hi.done_le.trans (Nat.le_add_right _ _)
  · obtain ⟨hresp, hresps, -⟩ := bitmap_rule_quiet hl hmerge hb h.bitmap
    have hrecord : h.record s (.bitmapStorage l) =
        { h with bitmap := h.bitmap.record s.bitmapStorage l } := by
      cases l <;> first | rfl | exact absurd rfl hmerge
    rw [hrecord] at hwindows ⊢
    refine ⟨hwindows, hi.values, hrequests.trans hi.requests, ?_, ?_, hi.faithful, ?_, hi.contexts,
      hi.flags, hi.done_le⟩
    · exact (congrArg length hresps).trans hi.responses
    · exact hi.updates.trans (by rw [hrequests])
    · rw [hresp]
      exact hi.merged

theorem metaRule {r : AtomicRule} (hs : s.step (.autoAckMeta r) = some s') :
    AutoAckInv s' (h.record s (.autoAckMeta r)) := by
  obtain ⟨m, hm, rfl⟩ := map_eq_some_iff.1 hs
  obtain ⟨hvalues, heffect, -⟩ := hi.values.rule hm
  refine ⟨hi.windows, hvalues, hi.requests, hi.responses, hi.updates, hi.faithful, hi.merged,
    hi.contexts, ?_, hi.done_le⟩
  refine hi.flags.trans ?_
  cases heffect with
  | quiet _ _ hpending hresp _ | init _ _ hpending hresp _ | reset _ _ _ _ hpending hresp _ =>
    rw [hpending, hresp]
  | merge req _ _ hpending hresp _ =>
    rw [hpending, hresp, map_append, append_assoc]
    rfl

theorem forwardInput (hs : s.step .forwardInputReqToPsnBitMapStorage = some s') :
    AutoAckInv s' (h.record s .forwardInputReqToPsnBitMapStorage) := by
  have hwindows := hi.windows.autoAck hs
  have hle : h.updates.length ≤ h.bitmap.requests.length := by
    have hlen := congrArg length hi.updates
    rw [length_map, length_take] at hlen
    omega
  cases fires_of_step hs with
  | @forwardInputReq req reqs hreq =>
    have hrecord : h.record s .forwardInputReqToPsnBitMapStorage =
        { h with
          bitmap := { h.bitmap with requests := h.bitmap.requests ++ [⟨req.qpn, req.psn⟩] }
          forwarded := h.forwarded ++ [req] } := by
      simp only [record, bitmapLabel, hreq]
      rfl
    rw [hrecord] at hwindows ⊢
    refine ⟨hwindows, hi.values, ?_, hi.responses, ?_, hi.faithful, hi.merged, ?_, hi.flags,
      hi.done_le⟩
    · rw [hi.requests, map_append]
      rfl
    · rw [take_append_of_le_length hle]
      exact hi.updates
    · rw [drop_append_of_le_length hi.done_le_forwarded, map_append, map_append, hi.contexts,
        append_assoc]
      rfl

theorem handleMerged (hs : s.step .handleMergedBitmap = some s') :
    AutoAckInv s' (h.record s .handleMergedBitmap) := by
  have hwindows := hi.windows.autoAck hs
  cases fires_of_step hs with
  | handleMergedBitmap hresp he =>
    refine ⟨hwindows, hi.values.enqReq _, hi.requests, hi.responses, hi.updates, hi.faithful,
      ?_, ?_, ?_, hi.done_le⟩
    · refine hi.merged.trans ?_
      rw [hresp, map_append, append_assoc]
      rfl
    · refine hi.contexts.trans ?_
      rw [he, map_append, append_assoc]
      rfl
    · rw [map_append, hi.flags, append_assoc]
      refine congrArg _ ?_
      rw [pending, pending, enqReq, ← append_assoc, @map_append _ _ _ _ [_]]
      rfl

theorem head_flag {info : AtomicUpdateStorageUpdateResp AutoAckGenAtomicUpdateStorageEntry}
    {infos : List (AtomicUpdateStorageUpdateResp AutoAckGenAtomicUpdateStorageEntry)}
    {e : AutoAckGeneratorToGenAutoAckEthPacketPipelineEntry}
    {es : List AutoAckGeneratorToGenAutoAckEthPacketPipelineEntry}
    (hinfo : s.autoAckMetaAtomicUpdateStorage.respPipeOutQueue = info :: infos)
    (he : s.genAutoAckEthPacketPipelineQueue = e :: es) :
    info.rowAddr = e.bitmapUpdateResp.rowAddr ∧
      info.newValue.hasReported = e.bitmapUpdateResp.hasPacketLost := by
  have hflags := hi.flags
  rw [hinfo, he] at hflags
  obtain ⟨hrow, hlost⟩ := Prod.mk.inj (cons.inj hflags).1
  exact ⟨hrow.symm, hlost.symm⟩

theorem genPacket (hs : s.step .genAutoAckEthPacket = some s') :
    AutoAckInv s' (h.record s .genAutoAckEthPacket) := by
  obtain ⟨info, infos, e, es, hinfo, he, hbitmap, hmeta, hgen, hhandle⟩ :=
    genAutoAckEthPacket_eq hs
  obtain ⟨u, us, req, reqs, hu, hreq, -, -⟩ := hi.updates_drop he
  have hus : h.updates.drop (h.done + 1) = us := by
    rw [← drop_drop, hu]
    rfl
  have hreqs : h.forwarded.drop (h.done + 1) = reqs := by
    rw [← drop_drop, hreq]
    rfl
  have hmerged := hi.merged
  have hcontexts := hi.contexts
  have hflags := hi.flags
  rw [hu, he] at hmerged
  rw [hreq, he] at hcontexts
  rw [hinfo, he] at hflags
  have hlt : h.done < h.updates.length := by
    by_contra hge
    rw [drop_eq_nil_of_le (not_lt.1 hge)] at hu
    cases hu
  refine ⟨?_, ?_, hi.requests, hi.responses, hi.updates, hi.faithful, ?_, ?_, ?_, hlt⟩
  · rw [hbitmap]
    exact hi.windows
  · rw [hmeta]
    exact hi.values.deqResp
  · change (h.updates.drop (h.done + 1)).map _ = _
    rw [hus, hgen, hbitmap]
    exact (cons.inj hmerged).2
  · change (h.forwarded.drop (h.done + 1)).map _ = _
    rw [hreqs, hgen, hhandle]
    exact (cons.inj hcontexts).2
  · rw [hgen, hmeta, deqResp, hinfo]
    exact (cons.inj hflags).2

/-- **Every step keeps the order of the pipeline.** -/
theorem step {l : AutoAckLabel} (hs : s.step l = some s') : AutoAckInv s' (h.record s l) := by
  have hwindows := hi.windows.autoAck hs
  cases fires_of_step hs with
  | bitmapStorage => exact hi.bitmapRule hs
  | autoAckMeta => exact hi.metaRule hs
  | forwardInputReq => exact hi.forwardInput hs
  | handleMergedBitmap => exact hi.handleMerged hs
  | genNak | genNothing => exact hi.genPacket hs
  | sendPollingReq => exact { hi with windows := hwindows, values := hi.values.enqReadOnly _ }
  | getPollingResp => exact { hi with windows := hwindows, values := hi.values.deqReadOnlyResp }
  | forwardQpResetSignal hrow =>
    have hrecord : h.record s .forwardQpResetSignal = h := by
      simp only [record, bitmapLabel, hrow]
      rfl
    rw [hrecord] at hwindows ⊢
    exact { hi with windows := hwindows, values := hi.values.enqReset _ }
  | _ => exact { hi with windows := hwindows }

end AutoAckInv

end

/-! ## The reports -/

namespace AutoAckHistory

def looked (h : AutoAckHistory) : List (Update × AutoAckGeneratorReq) :=
  (h.updates.take h.done).zip (h.forwarded.take h.done)

/-- Those of them that are reported. -/
def naks (h : AutoAckHistory) : List (Update × AutoAckGeneratorReq) := h.looked.filter (·.1.lost)

/-- Those of them that lose a number. -/
def losses (h : AutoAckHistory) : List (Update × AutoAckGeneratorReq) := h.looked.filter (·.1.Loses)

end AutoAckHistory

/-- The packet is the negative acknowledgement of the update, with some message number. -/
def IsNakPacket (x : Update × AutoAckGeneratorReq)
    (packet : ThinMacIpUdpMetaDataForSend × RdmaSendPacketMeta) : Prop :=
  packet.1 = nakMacIpUdpMeta x.2.qpc ∧ ∃ msn, packet.2 = nakPacketMeta x.2.qpc x.1.resp msn

/-- The descriptors are those of the update. -/
def IsNakReport (x : Update × AutoAckGeneratorReq)
    (report : BitmapWindowStorageUpdateResp ×
      AtomicUpdateStorageUpdateResp AutoAckGenAtomicUpdateStorageEntry × BitVec 8) : Prop :=
  report.1 = x.1.resp ∧ report.2.1.rowAddr = x.1.rowAddr ∧ report.2.2 = x.2.qpc.qpnKeyPart

/-- The descriptor belongs to a negative acknowledgement. -/
def RingbufRawDescriptor.isLoss : RingbufRawDescriptor → Bool
  | .ack desc => desc.isPacketLost
  | .ackExtra _ => true
  | _ => false

/-- What was sent and reported is what the updates ask for. -/
structure NaksInv (s : AutoAckGenerator) (h : AutoAckHistory) : Prop where
  lengths : s.macIpUdpMetaPipeOutQueue.length = s.rdmaPacketMetaPipeOutQueue.length
  packets : List.Forall₂ IsNakPacket h.naks
    (s.macIpUdpMetaPipeOutQueue.zip s.rdmaPacketMetaPipeOutQueue)
  reports : List.Forall₂ IsNakReport h.naks (h.reported ++
    s.genAutoAckReportDescriptorPipelineQueue)

/-- What was put out is what was reported, with the descriptors of the polling in between. -/
structure OutputInv (s : AutoAckGenerator) (h : AutoAckHistory) : Prop where
  output : (s.metaReportDescPipeOutQueue ++ s.metaReportMimoQueue).filter (·.isLoss) =
    h.reported.flatMap fun report => nakDescs report.1 report.2.1 report.2.2
  polled : ∀ desc ∈ s.pollingTimeoutDescQueue, desc.isLoss = false

theorem filter_nakDescs (b : BitmapWindowStorageUpdateResp)
    (info : AtomicUpdateStorageUpdateResp AutoAckGenAtomicUpdateStorageEntry) (key : BitVec 8) :
    (nakDescs b info key).filter (·.isLoss) = nakDescs b info key := rfl

section

variable {s s' : AutoAckGenerator} {h : AutoAckHistory} {w w' : AutoAckGenerator × AutoAckHistory}
variable {l : AutoAckLabel}

section

variable (hi : AutoAckInv s h)
include hi

theorem AutoAckInv.record_looked (hl : l ≠ .genAutoAckEthPacket) :
    (h.record s l).looked = h.looked := by
  have h₁ := hi.done_le
  have h₂ := hi.done_le_forwarded
  unfold record looked
  split
  · rw [take_append_of_le_length h₁]
  · rw [take_append_of_le_length h₂]
  · exact absurd rfl hl
  · rfl
  · rfl

theorem AutoAckInv.record_naks (hl : l ≠ .genAutoAckEthPacket) : (h.record s l).naks = h.naks :=
  congrArg (filter _) (hi.record_looked hl)

theorem AutoAckInv.record_looked_gen {e : AutoAckGeneratorToGenAutoAckEthPacketPipelineEntry}
    {es : List AutoAckGeneratorToGenAutoAckEthPacketPipelineEntry}
    (he : s.genAutoAckEthPacketPipelineQueue = e :: es) :
    ∃ u req, (h.record s .genAutoAckEthPacket).looked = h.looked ++ [(u, req)] ∧ u ∈ h.updates ∧
      u.resp = e.bitmapUpdateResp ∧ req.qpc = e.qpc := by
  obtain ⟨u, us, req, reqs, hu, hreq, hresp, hctx⟩ := hi.updates_drop he
  have h₁ : h.updates.take (h.done + 1) = h.updates.take h.done ++ [u] := by
    have hget : h.updates[h.done]? = some u := by
      rw [← head?_drop, hu]
      rfl
    rw [take_add_one, hget]
    rfl
  have h₂ : h.forwarded.take (h.done + 1) = h.forwarded.take h.done ++ [req] := by
    have hget : h.forwarded[h.done]? = some req := by
      rw [← head?_drop, hreq]
      rfl
    rw [take_add_one, hget]
    rfl
  refine ⟨u, req, ?_, ?_, hresp, (Prod.mk.inj hctx).2⟩
  · change (h.updates.take (h.done + 1)).zip (h.forwarded.take (h.done + 1)) = _
    rw [h₁, h₂, zip_append]
    · rfl
    · rw [length_take_of_le hi.done_le, length_take_of_le hi.done_le_forwarded]
  · have hmem : u ∈ h.updates.drop h.done := by
      rw [hu]
      exact mem_cons_self
    exact mem_of_mem_drop hmem

theorem NaksInv.congr (hn : NaksInv s h)
    (hl : l ≠ .genAutoAckEthPacket) (hreported : (h.record s l).reported = h.reported)
    (hmac : s'.macIpUdpMetaPipeOutQueue = s.macIpUdpMetaPipeOutQueue)
    (hmeta : s'.rdmaPacketMetaPipeOutQueue = s.rdmaPacketMetaPipeOutQueue)
    (hgen : s'.genAutoAckReportDescriptorPipelineQueue =
      s.genAutoAckReportDescriptorPipelineQueue) :
    NaksInv s' (h.record s l) := by
  have hnaks := hi.record_naks hl
  refine ⟨?_, ?_, ?_⟩
  · rw [hmac, hmeta]
    exact hn.lengths
  · rw [hnaks, hmac, hmeta]
    exact hn.packets
  · rw [hnaks, hreported, hgen]
    exact hn.reports

theorem AutoAckInv.record_naks_gen {info : AtomicUpdateStorageUpdateResp
    AutoAckGenAtomicUpdateStorageEntry} {infos :
    List (AtomicUpdateStorageUpdateResp AutoAckGenAtomicUpdateStorageEntry)} {e :
    AutoAckGeneratorToGenAutoAckEthPacketPipelineEntry} {es :
    List AutoAckGeneratorToGenAutoAckEthPacketPipelineEntry} (hinfo :
    s.autoAckMetaAtomicUpdateStorage.respPipeOutQueue = info :: infos) (he :
    s.genAutoAckEthPacketPipelineQueue = e :: es) :
    ∃ u req, (h.record s .genAutoAckEthPacket).naks =
        h.naks ++ (if info.newValue.hasReported then [(u, req)] else []) ∧
      u.resp = e.bitmapUpdateResp ∧ req.qpc = e.qpc ∧ info.rowAddr = u.rowAddr := by
  obtain ⟨hrow, hflag⟩ := hi.head_flag hinfo he
  obtain ⟨u, req, hlooked, -, hresp, hctx⟩ := hi.record_looked_gen he
  have hlost : u.lost = info.newValue.hasReported := by rw [Update.lost, hresp, hflag]
  refine ⟨u, req, ?_, hresp, hctx, ?_⟩
  · rw [naks, hlooked, filter_append, ← hlost]
    cases hl : u.lost with
    | true => rw [filter_cons_of_pos (by exact hl)]; rfl
    | false => rw [filter_cons_of_neg (by simp [hl])]; rfl
  · rw [← u.resp_rowAddr, hresp, hrow]

theorem NaksInv.genPacket (hn : NaksInv s h)
    (hs : s.step .genAutoAckEthPacket = some s') :
    NaksInv s' (h.record s .genAutoAckEthPacket) := by
  cases fires_of_step hs with
  | @genNak info infos e es hinfo he hr =>
    obtain ⟨u, req, hnaks, hresp, hctx, hrow⟩ := hi.record_naks_gen hinfo he
    rw [hr] at hnaks
    refine ⟨?_, ?_, ?_⟩
    · rw [length_append, length_append, hn.lengths]
      rfl
    · rw [hnaks, zip_append hn.lengths]
      refine rel_append hn.packets (.cons ⟨?_, info.oldValue.ackMsn, ?_⟩ .nil)
      · rw [hctx]
      · rw [hctx, hresp]
    · rw [hnaks, ← append_assoc]
      refine rel_append hn.reports (.cons ⟨hresp.symm, hrow, ?_⟩ .nil)
      rw [hctx]
  | genNothing hinfo he hr =>
    obtain ⟨u, req, hnaks, -⟩ := hi.record_naks_gen hinfo he
    rw [hr, if_neg Bool.false_ne_true, append_nil] at hnaks
    refine ⟨hn.lengths, ?_, ?_⟩
    · rw [hnaks]
      exact hn.packets
    · rw [hnaks]
      exact hn.reports

/-- **Every step keeps what is sent and reported that of the updates.** -/
theorem NaksInv.step (hn : NaksInv s h) (hs : s.step l = some s') : NaksInv s' (h.record s l) := by
  cases fires_of_step hs with
  | genNak | genNothing => exact hn.genPacket hi hs
  | @genAutoAckReportDescriptor e es he =>
    have hnaks : (h.record s .genAutoAckReportDescriptor).naks = h.naks :=
      hi.record_naks (by decide)
    have hreported : (h.record s .genAutoAckReportDescriptor).reported = h.reported ++ [e] := by
      simp only [record, he]
      rfl
    refine ⟨hn.lengths, hnaks ▸ hn.packets, ?_⟩
    rw [hreported, append_assoc]
    have hreports := hn.reports
    rwa [he] at hreports
  | @bitmapStorage l => exact hn.congr hi nofun (by cases l <;> rfl) rfl rfl rfl
  | _ => exact hn.congr hi nofun rfl rfl rfl rfl

end

/-- **Every step keeps what is put out that of the reports.** -/
theorem OutputInv.step (ho : OutputInv s h) (hs : s.step l = some s') :
    OutputInv s' (h.record s l) := by
  cases fires_of_step hs with
  | @genAutoAckReportDescriptor e es he =>
    have hreported : (h.record s .genAutoAckReportDescriptor).reported = h.reported ++ [e] := by
      simp only [record, he]
      rfl
    refine ⟨?_, ho.polled⟩
    rw [hreported, ← append_assoc, filter_append, ho.output, filter_nakDescs]
    simp
  | forwardNakDesc hmimo =>
    refine ⟨?_, ho.polled⟩
    have houtput := ho.output
    rw [hmimo] at houtput
    rw [append_assoc]
    exact houtput
  | forwardPollingDesc hmimo hpoll =>
    -- a descriptor of the polling is none of a negative acknowledgement
    have hpolled := ho.polled
    rw [hpoll, forall_mem_cons] at hpolled
    refine ⟨?_, hpolled.2⟩
    have houtput := ho.output
    rw [hmimo, append_nil] at houtput
    rw [hmimo, append_nil, filter_append, filter_cons_of_neg (by simp [hpolled.1]), filter_nil,
      append_nil]
    exact houtput
  | handlePollingResult =>
    refine ⟨ho.output, fun desc hdesc => ?_⟩
    rcases mem_append.1 hdesc with hdesc | hdesc
    · exact ho.polled desc hdesc
    · split_ifs at hdesc
      · rw [mem_singleton.1 hdesc]
        rfl
      · cases hdesc
  | @bitmapStorage l =>
    have hreported : (h.record s (.bitmapStorage l)).reported = h.reported := by cases l <;> rfl
    refine ⟨?_, ho.polled⟩
    rw [hreported]
    exact ho.output
  | _ => exact ⟨ho.output, ho.polled⟩

theorem autoAckInv_init (hs : s.Initial) : AutoAckInv s {} := by
  obtain ⟨hbitmap, hmeta, hs⟩ := hs
  have hb : s.bitmapStorage.respPipeOutQueue = [] := by rw [hbitmap]
  have hm : s.autoAckMetaAtomicUpdateStorage.respPipeOutQueue = [] ∧
      s.autoAckMetaAtomicUpdateStorage.pending = [] := by
    rw [hmeta]
    exact ⟨rfl, rfl⟩
  rw [hs]
  refine ⟨windowsInv_init hbitmap, atomicInv_init hmeta, rfl, rfl, rfl, fun _ hu => (by cases hu),
    ?_, rfl, ?_, le_rfl⟩
  · rw [hb]
    rfl
  · rw [hm.1, hm.2]
    rfl

theorem naksInv_init (hs : s.Initial) : NaksInv s {} := by
  rw [hs.2.2]
  exact ⟨rfl, .nil, .nil⟩

theorem outputInv_init (hs : s.Initial) : OutputInv s {} := by
  rw [hs.2.2]
  exact ⟨rfl, fun _ hdesc => by cases hdesc⟩

/-- **The negative acknowledgements are those of the updates that lose a number**: the packets sent
to the peer, the reports queued for the driver, and the descriptors put out. The updates are those
of the packets that entered, in order. -/
structure LossesReported (w : AutoAckGenerator × AutoAckHistory) : Prop where
  updates : w.2.updates.map (·.req) <+: w.2.forwarded.map fun req => ⟨req.qpn, req.psn⟩
  lengths : w.1.macIpUdpMetaPipeOutQueue.length = w.1.rdmaPacketMetaPipeOutQueue.length
  packets : List.Forall₂ IsNakPacket w.2.losses
    (w.1.macIpUdpMetaPipeOutQueue.zip w.1.rdmaPacketMetaPipeOutQueue)
  reports : List.Forall₂ IsNakReport w.2.losses
    (w.2.reported ++ w.1.genAutoAckReportDescriptorPipelineQueue)
  output : (w.1.metaReportDescPipeOutQueue ++ w.1.metaReportMimoQueue).filter (·.isLoss) =
    w.2.reported.flatMap fun report => nakDescs report.1 report.2.1 report.2.2

/-- The steps of a run in which no update moves a window by exactly its width while every number in
it arrived. -/
def NoFullWindow (w : AutoAckGenerator × AutoAckHistory) (l : AutoAckLabel) : Prop :=
  l = .bitmapStorage .getBramQueryRespAndMergeThem →
    ∀ u ∈ nextUpdate w.1.bitmapStorage w.2.bitmap, ¬ u.MovesFullWindow

instance (w : AutoAckGenerator × AutoAckHistory) (l : AutoAckLabel) :
    Decidable (NoFullWindow w l) :=
  inferInstanceAs (Decidable (_ → _))

theorem not_movesFullWindow_step (hok : NoFullWindow (s, h) l)
    (hi : ∀ u ∈ h.updates, ¬ u.MovesFullWindow) :
    ∀ u ∈ (h.record s l).updates, ¬ u.MovesFullWindow := by
  unfold record
  split
  · intro u hu
    rcases mem_append.1 hu with hu | hu
    · exact hi u hu
    · exact hok rfl u (mem_toList.1 hu)
  · exact hi
  · exact hi
  · exact hi
  · exact hi

theorem NaksInv.lossesReported (hn : NaksInv w.1 w.2) (ho : OutputInv w.1 w.2)
    (hi : AutoAckInv w.1 w.2) (hfull : ∀ u ∈ w.2.updates, ¬ u.MovesFullWindow) :
    LossesReported w := by
  have hlosses : w.2.losses = w.2.naks := by
    refine filter_congr fun x hx => ?_
    have hu : x.1 ∈ w.2.updates := mem_of_mem_take (of_mem_zip hx).1
    rw [← Bool.coe_iff_coe, decide_eq_true_eq]
    exact ((hi.faithful _ hu).lost_iff_loses (hfull _ hu)).symm
  refine ⟨?_, hn.lengths, hlosses ▸ hn.packets, hlosses ▸ hn.reports, ho.output⟩
  rw [hi.updates, hi.requests]
  exact take_prefix _ _

/-- **In every run without such a move, the losses are reported exactly.** -/
theorem run_lossesReported {s₀ : AutoAckGenerator} {ls : List AutoAckLabel} (hs₀ : s₀.Initial)
    (hrun : Run autoAckStep NoFullWindow (s₀, {}) ls w) : LossesReported w := by
  obtain ⟨hi, hn, ho, hfull⟩ : AutoAckInv w.1 w.2 ∧ NaksInv w.1 w.2 ∧ OutputInv w.1 w.2 ∧
      ∀ u ∈ w.2.updates, ¬ u.MovesFullWindow := by
    refine hrun.invariant (I := fun _ w => AutoAckInv w.1 w.2 ∧ NaksInv w.1 w.2 ∧
      OutputInv w.1 w.2 ∧ ∀ u ∈ w.2.updates, ¬ u.MovesFullWindow)
      ⟨autoAckInv_init hs₀, naksInv_init hs₀, outputInv_init hs₀, fun _ hu => by cases hu⟩ ?_
    rintro - w l w' ⟨hi, hn, ho, hfull⟩ hok hs
    obtain ⟨s', hs', rfl⟩ := map_eq_some_iff.1 hs
    exact ⟨hi.step hs', hn.step hi hs', ho.step hs', not_movesFullWindow_step hok hfull⟩
  exact hn.lossesReported ho hi hfull

end

def autoAckPowerUp : AutoAckGenerator where
  bitmapStorage := powerUp
  autoAckMetaAtomicUpdateStorage := { storage := fun _ => default }
  lastReportTimeStorage := fun _ => 0
  pollingQueryRespPipelineReg := (resetValue, default, 0, 0)

theorem autoAckPowerUp_initial : autoAckPowerUp.Initial := ⟨rfl, rfl, rfl⟩

def clearMemories : List AutoAckLabel :=
  List.replicate 1024 (.bitmapStorage .bramInit) ++ List.replicate 1024 (.autoAckMeta .bramInit) ++
    List.replicate 1024 .bramInit

/-- A packet of the first queue pair passes the bitmap storage. -/
def markPacket (psn : ℕ) : List AutoAckLabel :=
  [.request ⟨BitVec.ofNat 24 psn, 0, default⟩, .forwardInputReqToPsnBitMapStorage,
    .bitmapStorage .sendBramQueryReqAndGenOneHotBitmap,
    .bitmapStorage .getBramQueryRespAndMergeThem, .bitmapStorage .doBramWriteBack]

/-- The answer of the bitmap storage is counted, and a loss is put out. -/
def countPacket : List AutoAckLabel :=
  [.handleMergedBitmap, .autoAckMeta .sendBramQueryReq, .autoAckMeta .getBramQueryRespAndMergeThem,
    .autoAckMeta .doBramWriteBack, .genAutoAckEthPacket]

/-- After number 0, number 200 moves the window past 1 and others that did not arrive. -/
theorem run_lossesReported_jump :
    ∃ w, Run autoAckStep NoFullWindow (autoAckPowerUp, {}) (clearMemories ++ markPacket 0 ++
        countPacket ++ markPacket 200 ++ countPacket ++ [.genAutoAckReportDescriptor]) w ∧
      w.2.losses.length = 1 ∧ w.1.rdmaPacketMetaPipeOutQueue.length = 1 ∧
      w.1.metaReportMimoQueue.length = 2 ∧ LossesReported w :=
  (Run.nil.append_any (P := fun w : AutoAckGenerator × AutoAckHistory => w.2.losses.length = 1 ∧
      w.1.rdmaPacketMetaPipeOutQueue.length = 1 ∧ w.1.metaReportMimoQueue.length = 2)
      (by decide +kernel)).imp
    fun _ ⟨hrun, hlosses, hpackets, hdescs⟩ =>
      ⟨hrun, hlosses, hpackets, hdescs, run_lossesReported autoAckPowerUp_initial hrun⟩

/-- If the first number is 112, the window moves by exactly its width, past the numbers before 0
only; but a negative acknowledgement is sent. -/
theorem run_reports_full_window :
    ∃ w, Run autoAckStep (fun _ _ => True) (autoAckPowerUp, {})
        (clearMemories ++ markPacket 112 ++ countPacket) w ∧
      w.2.losses = [] ∧ w.1.rdmaPacketMetaPipeOutQueue.length = 1 ∧ ¬ LossesReported w := by
  refine (Run.nil.append_any (P := fun w : AutoAckGenerator × AutoAckHistory =>
    w.2.losses.length = 0 ∧
      w.1.macIpUdpMetaPipeOutQueue.length = 1 ∧ w.1.rdmaPacketMetaPipeOutQueue.length = 1)
      (by decide +kernel)).imp
    fun w ⟨hrun, hlosses, hmac, hpackets⟩ => ⟨hrun, length_eq_zero_iff.1 hlosses, hpackets,
      fun hreported => ?_⟩
  have hlen := hreported.packets.length_eq
  rw [length_zip, hlosses, hmac, hpackets] at hlen
  exact absurd hlen (by decide)

end OpenRdma.Rtl
