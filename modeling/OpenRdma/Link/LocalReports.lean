import OpenRdma.Link.MetaRing
import OpenRdma.Rtl.AutoAckPolling

/-!
# Reports of the local card

The card reports what arrives for a queue pair, and the driver enters the reports into the tracker
of its receive side, in the order they are put out. The tracker takes the numbers between two
windows as acknowledged, so a report of a window must not overtake that of a loss behind it.

Beside the state we keep what no step reads: the unbounded base of the tracker, the numbers that
entered, and the reports on their way with their unbounded numbers. A window found by polling is
read from memory and put out later. If every loss of the queue pair that was merged before is queued
when the window is read, the loss is put out first, and the tracker stays sound (`ReportsSound`).
The driver never clears a tracker, so the queue pair must be reset before its first packet only.
-/

namespace OpenRdma.Link

open OpenRdma.Driver OpenRdma.Rtl List Option AutoAckGenerator

/-! ## The card and the driver -/

/-- The driver, and the unbounded numbers of what it is told. -/
structure LocalSide where
  handler : MetaHandler := default
  base : ℤ := 0
  entered : List (BitVec 24) := []
  poll : PollHistory := {}
  polls : List (BitVec 10 × LocalReport) := []
  reports : List (BitVec 10 × LocalReport) := []

namespace LocalSide

/-- The numbers that entered since the last reset, with all before 0. -/
def arrived (side : LocalSide) : Set ℤ := receivedSet (readPsns side.entered)

/-- The lowest number of the furthest window the driver was told. -/
def pre (side : LocalSide) : ℤ := Psn.lift side.base side.handler.recv.psnPre

/-- The windows found by polling that wait to be put out, after a step of the card. -/
def recordPolls (side : LocalSide) (s : AutoAckGenerator) :
    AutoAckLabel → List (BitVec 10 × LocalReport)
  | .handlePollingResult =>
    let (bitmapInfo, ackMeta, lastPollInfo, pollingQpIdx) := s.pollingQueryRespPipelineReg
    side.polls ++ if s.needsReport ackMeta lastPollInfo then
      [(pollingQpIdx, .ack ⟨lowEnd side.poll.polling, bitmapInfo.data⟩)] else []
  | .forwardMetaReportDescToOutput =>
    if s.metaReportMimoQueue.isEmpty then side.polls.tail else side.polls
  | _ => side.polls

/-- The report a step of the card adds to those on their way to the driver. -/
def newReport (side : LocalSide) (s : AutoAckGenerator) (h : AutoAckHistory) :
    AutoAckLabel → Option (BitVec 10 × LocalReport)
  | .genAutoAckReportDescriptor =>
    h.naks[h.reported.length]?.map fun x => (x.1.rowAddr, report x.1)
  | .forwardMetaReportDescToOutput =>
    if s.metaReportMimoQueue.isEmpty then side.polls.head? else none
  | _ => none

def record (qp : BitVec 10) (side : LocalSide) (s : AutoAckGenerator) (h : AutoAckHistory)
    (l : AutoAckLabel) : LocalSide :=
  { side with
    entered := recordEntered qp side.entered l
    poll := side.poll.record s h l
    polls := side.recordPolls s l
    reports := (side.newReport s h l).elim side.reports fun x => side.reports ++ [x] }

theorem record_reports (qp : BitVec 10) (side : LocalSide) (s : AutoAckGenerator)
    (h : AutoAckHistory) (l : AutoAckLabel) : (side.record qp s h l).reports = side.reports ++
    (side.newReport s h l).toList := by
  change (side.newReport s h l).elim _ _ = _
  cases side.newReport s h l with
  | none => exact (append_nil _).symm
  | some x => rfl

end LocalSide

/-- The card with its history, and the driver. -/
structure LocalWorld where
  card : AutoAckGenerator
  history : AutoAckHistory := {}
  side : LocalSide := {}

/-- A step of the card, or the driver handles the next report. -/
inductive LocalLabel
  | card (l : AutoAckLabel)
  | deliver
  deriving DecidableEq

namespace LocalWorld

/-- The driver handles the next report. A report of another queue pair goes to another tracker. -/
def deliver (qp : BitVec 10) (w : LocalWorld) : Option LocalWorld :=
  (tryRecvMeta w.card.metaReportDescPipeOutQueue).bind fun x =>
    let card := { w.card with metaReportDescPipeOutQueue := x.2 }
    let side := { w.side with reports := w.side.reports.tail }
    if qpnToIndex x.1.1 = qp.toNat then
      (w.side.handler.handleMeta x.1.2).map fun r =>
        { w with
          card := card
          side :=
            { side with
              handler := r.1
              base := advance w.side.base w.side.handler.recv.psnTracker.basePsn
                r.1.recv.psnTracker.basePsn } }
    else some { w with card := card, side := side }

def step (qp : BitVec 10) (w : LocalWorld) : LocalLabel → Option LocalWorld
  | .card l => (w.card.step l).map fun card =>
      { card := card
        history := w.history.record w.card l
        side := w.side.record qp w.card w.history l }
  | .deliver => w.deliver qp

end LocalWorld

/-- **Everything the tracker of the receive side treats as acknowledged entered the card** since the
last reset. -/
def ReportsSound (w : LocalWorld) : Prop :=
  Sound w.side.handler.recv.psnTracker {a | a ∈ readPsns w.side.entered} w.side.base

/-- The numbers less than half a circle ahead of the base; a window is 128 numbers wide. -/
def LocalSide.limit (side : LocalSide) : ℤ := side.base + 2 ^ 23 - 128

/-- The window of the queue pair is read for the polling only if no loss of it is on its way. -/
def ReadsSettled (qp : BitVec 10) (s : AutoAckGenerator) (l : AutoAckLabel) : Prop :=
  l = .bitmapStorage .handleReadOnlyReq →
    s.bitmapStorage.readOnlyReqPipeInQueue.head? = some qp → ¬ s.LossPending qp

/-- The next report of the queue pair is not half a circle old. -/
def DeliversNear (qp : BitVec 10) (side : LocalSide) : Prop :=
  ∀ x ∈ side.reports.head?, x.1 = qp → side.pre + 128 ≤ x.2.low + 2 ^ 23

/-- The steps of a run in which the queue pair is reset first, windows are read after the losses
behind them are queued, and no number is half a circle away. -/
def LocalOk (qp : BitVec 10) (w : LocalWorld) : LocalLabel → Prop
  | .card l => ResetFirst qp w.card w.side.entered l ∧
      EntersBelow qp w.side.entered w.side.limit l ∧ ReadsSettled qp w.card l
  | .deliver => DeliversNear qp w.side

instance (qp : BitVec 10) (s : AutoAckGenerator) (l : AutoAckLabel) :
    Decidable (ReadsSettled qp s l) :=
  inferInstanceAs (Decidable (_ → _ → _))

instance (qp : BitVec 10) (side : LocalSide) : Decidable (DeliversNear qp side) :=
  inferInstanceAs (Decidable (∀ x ∈ side.reports.head?, _))

instance (qp : BitVec 10) (w : LocalWorld) (l : LocalLabel) : Decidable (LocalOk qp w l) := by
  unfold LocalOk
  split <;> infer_instance

/-! ## Reports on their way -/

def reportsOf (qp : BitVec 10) (reports : List (BitVec 10 × LocalReport)) : List LocalReport :=
  (reports.filter fun x => x.1 = qp).map (·.2)

theorem reportsOf_append (qp : BitVec 10) (xs ys : List (BitVec 10 × LocalReport)) :
    reportsOf qp (xs ++ ys) = reportsOf qp xs ++ reportsOf qp ys := by
  rw [reportsOf, filter_append, map_append]
  rfl

theorem reportsOf_cons_of_eq {qp : BitVec 10} {x : BitVec 10 × LocalReport} (h : x.1 = qp)
    (xs : List (BitVec 10 × LocalReport)) : reportsOf qp (x :: xs) = x.2 :: reportsOf qp xs := by
  rw [reportsOf, filter_cons_of_pos (by simpa using h)]
  rfl

theorem reportsOf_cons_of_ne {qp : BitVec 10} {x : BitVec 10 × LocalReport} (h : x.1 ≠ qp)
    (xs : List (BitVec 10 × LocalReport)) : reportsOf qp (x :: xs) = reportsOf qp xs := by
  rw [reportsOf, filter_cons_of_neg (by simpa using h)]
  rfl

/-- The numbers from `m` to `e` are in `R`. -/
def Filled (R : Set ℤ) (m e : ℤ) : Prop := ∀ a, m ≤ a → a < e → a ∈ R

theorem Filled.mono {R R' : Set ℤ} {m m' e e' : ℤ} (h : Filled R m e) (hR : R ⊆ R') (hm : m ≤ m')
    (he : e' ≤ e) : Filled R' m' e' :=
  fun a h₁ h₂ => hR (h a (hm.trans h₁) (h₂.trans_le he))

/-- The report can be entered after the windows up to the one that starts with `m`. -/
def Enterable (R : Set ℤ) (m : ℤ) (r : LocalReport) : Prop := r.Within R ∧ Filled R m r.low

/-- The window of the numbers in `received` can be reported after the windows up to the one that
starts with `m`. -/
def Seen (R : Set ℤ) (m : ℤ) (received : List ℤ) : Prop :=
  receivedSet received ⊆ R ∧ Filled R m (lowEnd received)

theorem Seen.mono {R R' : Set ℤ} {m m' : ℤ} {received : List ℤ} (h : Seen R m received)
    (hR : R ⊆ R') (hm : m ≤ m') : Seen R' m' received :=
  ⟨h.1.trans hR, h.2.mono hR hm le_rfl⟩

/-- What is on its way to the driver is what the ring and the polling hold, and can be entered in
order. The furthest window on its way is not before that of a loss that is reported. -/
structure ReportsInv (qp : BitVec 10) (R : Set ℤ) (P : ℤ) (s : AutoAckGenerator)
    (h : AutoAckHistory) (polls reports : List (BitVec 10 × LocalReport)) : Prop where
  ring : ∃ chunks, List.Forall₂ IsReport reports chunks ∧
    chunks.flatten = s.metaReportDescPipeOutQueue ++ s.metaReportMimoQueue
  polled : List.Forall₂ (fun x desc => IsReport x [desc]) polls s.pollingTimeoutDescQueue
  enterable : ∀ x ∈ polls, x.1 = qp → Enterable R (furthest P (reportsOf qp reports)) x.2
  justified : Justified R P (reportsOf qp reports)
  reported : ∀ u ∈ h.reportedUpdates, u.rowAddr = qp → u.low' ≤ furthest P (reportsOf qp reports)

namespace ReportsInv

variable {qp : BitVec 10} {R R' : Set ℤ} {P : ℤ} {s s' : AutoAckGenerator} {h : AutoAckHistory}
  {side : LocalSide} {polls reports : List (BitVec 10 × LocalReport)} {l : AutoAckLabel}

theorem mono (hr : ReportsInv qp R P s h polls reports) (hR : R ⊆ R') :
    ReportsInv qp R' P s h polls reports :=
  ⟨hr.ring, hr.polled, fun x hx hqp => (hr.enterable x hx hqp).imp (fun h => h.mono hR)
    fun h => h.mono hR le_rfl le_rfl, hr.justified.mono hR, hr.reported⟩

theorem congr {h' : AutoAckHistory} {polls' new : List (BitVec 10 × LocalReport)}
    (hr : ReportsInv qp R P s h polls reports)
    (hout : s'.metaReportDescPipeOutQueue = s.metaReportDescPipeOutQueue)
    (hmimo : s'.metaReportMimoQueue = s.metaReportMimoQueue)
    (hpolled : s'.pollingTimeoutDescQueue = s.pollingTimeoutDescQueue)
    (hreported : h'.reportedUpdates = h.reportedUpdates) (hpolls : polls' = polls)
    (hnew : new = []) : ReportsInv qp R P s' h' polls' (reports ++ new) := by
  rw [hpolls, hnew, append_nil]
  refine ⟨?_, ?_, hr.enterable, hr.justified, ?_⟩
  · rw [hout, hmimo]
    exact hr.ring
  · rw [hpolled]
    exact hr.polled
  · rw [hreported]
    exact hr.reported

theorem le_furthest_append (xs ys : List (BitVec 10 × LocalReport)) :
    furthest P (reportsOf qp xs) ≤ furthest P (reportsOf qp (xs ++ ys)) := by
  rw [reportsOf_append, furthest, furthest, foldl_append]
  exact le_furthest _ _

theorem put {h' : AutoAckHistory} {polls' : List (BitVec 10 × LocalReport)}
    {x : BitVec 10 × LocalReport} {chunk : List RingbufRawDescriptor}
    (hr : ReportsInv qp R P s h polls reports) (hx : IsReport x chunk)
    (hring : s'.metaReportDescPipeOutQueue ++ s'.metaReportMimoQueue =
      s.metaReportDescPipeOutQueue ++ s.metaReportMimoQueue ++ chunk)
    (henter : x.1 = qp → Enterable R (furthest P (reportsOf qp reports)) x.2)
    (hpolled : List.Forall₂ (fun x desc => IsReport x [desc]) polls' s'.pollingTimeoutDescQueue)
    (hpolls : polls' ⊆ polls) (hreported : ∀ u ∈ h'.reportedUpdates, u.rowAddr = qp →
      u ∈ h.reportedUpdates ∨ x.1 = qp ∧ u.low' ≤ x.2.high) :
    ReportsInv qp R P s' h' polls' (reports ++ [x]) := by
  have hle : furthest P (reportsOf qp reports) ≤ furthest P (reportsOf qp (reports ++ [x])) :=
    le_furthest_append reports [x]
  refine ⟨?_, hpolled, fun y hy hqp => ?_, ?_, fun u hu hrow => ?_⟩
  · obtain ⟨chunks, hchunks, hflat⟩ := hr.ring
    refine ⟨chunks ++ [chunk], rel_append hchunks (.cons hx .nil), ?_⟩
    rw [flatten_append, hflat, hring]
    simp
  · exact (hr.enterable y (hpolls hy) hqp).imp_right fun h => h.mono subset_rfl hle le_rfl
  · rw [reportsOf_append]
    by_cases hqp : x.1 = qp
    · rw [reportsOf_cons_of_eq hqp]
      exact hr.justified.concat (henter hqp).1 (henter hqp).2
    · rw [reportsOf_cons_of_ne hqp]
      exact (append_nil _).symm ▸ hr.justified
  · rcases hreported u hu hrow with hu | ⟨hqp, hlow⟩
    · exact (hr.reported u hu hrow).trans hle
    · rw [reportsOf_append, reportsOf_cons_of_eq hqp]
      change _ ≤ furthest P (_ ++ [x.2])
      rw [furthest_concat]
      exact hlow.trans (le_max_right _ _)

section

variable (hr : ReportsInv qp R P s h side.polls side.reports)
include hr

theorem genReport (ha : AutoAckInv s h)
    (hn : NaksInv s h) {entered : List (BitVec 24)} (hrow : RowInv qp s h entered)
    (hsub : receivedSet (countPsns (h.bitmap.handled qp)) ⊆ R)
    (hs : s.step .genAutoAckReportDescriptor = some s') :
    ReportsInv qp R P s' (h.record s .genAutoAckReportDescriptor) side.polls
      (side.reports ++ (side.newReport s h .genAutoAckReportDescriptor).toList) := by
  cases fires_of_step hs with
  | @genAutoAckReportDescriptor e es he =>
    obtain ⟨x, xs, hx, hresp, hinfo, hkey⟩ := hn.next_report he
    have hget : h.naks[h.reported.length]? = some x := by
      rw [← head?_drop, hx]
      rfl
    have hnew : side.newReport s h .genAutoAckReportDescriptor =
      some (x.1.rowAddr, report x.1) := by
      rw [LocalSide.newReport, hget]
      rfl
    have hnaks : (h.record s .genAutoAckReportDescriptor).naks = h.naks :=
      ha.record_naks (by decide)
    have hreported : (h.record s .genAutoAckReportDescriptor).reported = h.reported ++ [e] := by
      simp only [AutoAckHistory.record, he]
      rfl
    have hmem : x ∈ h.naks := mem_of_mem_drop (hx ▸ mem_cons_self)
    have hlost : x.1.lost = true := (mem_filter.1 hmem).2
    have hupdate : x.1 ∈ h.updates :=
      mem_of_mem_take (of_mem_zip (mem_filter.1 hmem).1).1
    have hf := ha.faithful x.1 hupdate
    rw [hnew]
    refine hr.put (isReport_nakDescs hf hlost hinfo e.2.2) ?_ (fun hqp => ⟨?_, fun a h₁ h₂ => ?_⟩)
      hr.polled (fun _ hy => hy) fun u hu hrow => ?_
    · rw [← hresp]
      exact (append_assoc _ _ _).symm
    · have hof : x.1 ∈ h.updatesOf qp := mem_filter.2 ⟨hupdate, by simpa using hqp⟩
      exact within_report hf hlost ((receivedSet_mono (hrow.received x.1 hof)).trans hsub)
    · exact hsub (hrow.mem_of_next ha hx hqp hr.reported h₁ h₂)
    · rw [AutoAckHistory.reportedUpdates, hnaks, hreported, length_append, length_singleton,
        take_add_one, hget, map_append, mem_append] at hu
      refine hu.imp id fun hu => ?_
      obtain rfl := mem_singleton.1 hu
      exact ⟨hrow, le_rfl⟩

theorem forward (hs : s.step .forwardMetaReportDescToOutput = some s') :
    ReportsInv qp R P s' (h.record s .forwardMetaReportDescToOutput)
      (side.recordPolls s .forwardMetaReportDescToOutput)
      (side.reports ++ (side.newReport s h .forwardMetaReportDescToOutput).toList) := by
  cases fires_of_step hs with
  | forwardNakDesc hmimo =>
    -- a descriptor of a negative acknowledgement only moves
    have hne : ¬ s.metaReportMimoQueue.isEmpty = true := by rw [hmimo]; simp
    rw [LocalSide.recordPolls, LocalSide.newReport, if_neg hne, if_neg hne, toList_none, append_nil]
    refine ⟨?_, hr.polled, hr.enterable, hr.justified, hr.reported⟩
    obtain ⟨chunks, hchunks, hflat⟩ := hr.ring
    refine ⟨chunks, hchunks, ?_⟩
    rw [hflat, hmimo]
    simp
  | forwardPollingDesc hmimo hpoll =>
    have hempty : s.metaReportMimoQueue.isEmpty = true := by rw [hmimo]; rfl
    have hpolled := hr.polled
    rw [hpoll] at hpolled
    obtain ⟨x, xs, hx, hxs, hpolls⟩ := forall₂_cons_right_iff.1 hpolled
    have hnew : side.newReport s h .forwardMetaReportDescToOutput = some x := by
      rw [LocalSide.newReport, if_pos hempty, hpolls]
      rfl
    have htail : side.recordPolls s .forwardMetaReportDescToOutput = xs := by
      rw [LocalSide.recordPolls, if_pos hempty, hpolls]
      rfl
    rw [hnew, htail]
    refine hr.put hx ?_ (hr.enterable x (hpolls ▸ mem_cons_self)) hxs
      (hpolls ▸ fun _ hy => mem_cons_of_mem _ hy) fun u hu _ => Or.inl hu
    simp [hmimo]

theorem poll (hreads : ReadsInv qp (Seen R (furthest P (reportsOf qp side.reports))) s
    side.poll.polling) (hs : s.step .handlePollingResult = some s') :
    ReportsInv qp R P s' (h.record s .handlePollingResult) (side.recordPolls s .handlePollingResult)
      (side.reports ++ []) := by
  cases fires_of_step hs with
  | @handlePollingResult bitmapInfo ackMeta lastPollInfo pollingQpIdx _ _ hstate hreg =>
    have hrecord : side.recordPolls s .handlePollingResult = side.polls ++
        if s.needsReport ackMeta lastPollInfo then
          [(pollingQpIdx, .ack ⟨lowEnd side.poll.polling, bitmapInfo.data⟩)] else [] := by
      rw [LocalSide.recordPolls, hreg]
    rw [append_nil, hrecord]
    by_cases hneeds : s.needsReport ackMeta lastPollInfo = true
    · obtain ⟨hwindow, hseen⟩ := hreads.reads (pollingQpIdx, bitmapInfo) (by
        rw [AutoAckGenerator.reads, if_pos hstate, hreg]
        exact mem_append_right _ mem_cons_self)
      simp only [hneeds]
      refine ⟨hr.ring, rel_append hr.polled (.cons (isReport_pollingDesc _ hwindow) .nil),
        fun x hx hqp => ?_, hr.justified, hr.reported⟩
      rcases mem_append.1 hx with hx | hx
      · exact hr.enterable x hx hqp
      · obtain rfl := mem_singleton.1 hx
        obtain ⟨hsub, hfilled⟩ := hseen hqp
        exact ⟨⟨within_of_windowOf hwindow hsub, reach_lowEnd _ hsub⟩, hfilled⟩
    · simp only [hneeds, Bool.false_eq_true, if_false, append_nil]
      exact ⟨hr.ring, hr.polled, hr.enterable, hr.justified, hr.reported⟩

/-- **Every step of the card keeps what is on its way to the driver.** -/
theorem step (ha : AutoAckInv s h)
    (hn : NaksInv s h) {entered : List (BitVec 24)} (hrow : RowInv qp s h entered)
    (hsub : receivedSet (countPsns (h.bitmap.handled qp)) ⊆ R)
    (hreads : ReadsInv qp (Seen R (furthest P (reportsOf qp side.reports))) s side.poll.polling)
    (hs : s.step l = some s') : ReportsInv qp R P s' (h.record s l) (side.recordPolls s l)
      (side.reports ++ (side.newReport s h l).toList) := by
  have hreported := fun hl => hn.record_reportedUpdates (l := l) ha hl hs
  cases fires_of_step hs with
  | genAutoAckReportDescriptor => exact hr.genReport ha hn hrow hsub hs
  | forwardNakDesc | forwardPollingDesc => exact hr.forward hs
  | handlePollingResult => exact hr.poll hreads hs
  | _ => exact hr.congr rfl rfl rfl (hreported nofun) rfl rfl

end

theorem pop {y : BitVec 10 × LocalReport} {ys : List (BitVec 10 × LocalReport)}
    {rest : List RingbufRawDescriptor} {P' : ℤ} (hr : ReportsInv qp R P s h polls (y :: ys))
    (hring : ∃ chunks, List.Forall₂ IsReport ys chunks ∧
      chunks.flatten = rest ++ s.metaReportMimoQueue)
    (hfurthest : furthest P (reportsOf qp (y :: ys)) = furthest P' (reportsOf qp ys))
    (hjustified : Justified R P' (reportsOf qp ys)) :
    ReportsInv qp R P' { s with metaReportDescPipeOutQueue := rest } h polls ys :=
  ⟨hring, hr.polled, hfurthest ▸ hr.enterable, hjustified, hfurthest ▸ hr.reported⟩

end ReportsInv

/-! ## Runs -/

/-- The tracker is sound for what entered, and so are the reports on their way to it. -/
structure LocalInv (qp : BitVec 10) (w : LocalWorld) : Prop where
  pipeline : AutoAckInv w.card w.history
  naks : NaksInv w.card w.history
  row : RowInv qp w.card w.history w.side.entered
  near : EnteredInv w.side.entered w.side.limit
  memory : MemoryInv w.card.bitmapStorage w.side.poll.written
  written : w.side.poll.written qp <+: countPsns (w.history.bitmap.handled qp)
  reads : ReadsInv qp (Seen w.side.arrived (furthest w.side.pre (reportsOf qp w.side.reports)))
    w.card w.side.poll.polling
  reports : ReportsInv qp w.side.arrived w.side.pre w.card w.history w.side.polls w.side.reports
  sound : WindowSound w.side.handler.recv.psnTracker w.side.handler.recv.psnPre w.side.arrived
    w.side.base w.side.pre

namespace LocalInv

variable {qp : BitVec 10} {w w' : LocalWorld} (hi : LocalInv qp w)
include hi

theorem handled_subset : receivedSet (countPsns (w.history.bitmap.handled qp)) ⊆ w.side.arrived :=
  hi.row.handled_subset hi.pipeline hi.near.counted

theorem lt_limit : ∀ a ∈ w.side.arrived, a + 128 < w.side.base + 2 ^ 23 := by
  intro a ha
  have := hi.near.below a ha
  unfold LocalSide.limit at this
  omega

theorem limit_le : w.side.limit ≤ highest (readPsns w.side.entered) + 2 ^ 23 - 15 := by
  have hneg := neg_one_le_highest (readPsns w.side.entered)
  have hbase : w.side.base ≤ highest (readPsns w.side.entered) + 1 :=
    hi.sound.sound.base_le (by omega) fun a ha => Int.lt_add_one_of_le (le_highest ha.1)
  unfold LocalSide.limit
  omega

theorem seen (hpending : ¬ w.card.LossPending qp) :
    Seen w.side.arrived (furthest w.side.pre (reportsOf qp w.side.reports))
    (w.side.poll.written qp) := by
  refine ⟨(receivedSet_mono hi.written).trans hi.handled_subset,
    fun a h₁ h₂ => hi.handled_subset ?_⟩
  refine hi.row.mem_of_known (fun u hu => Or.inl ?_) (lowEnd_mono hi.written) h₁ h₂
  have hrow : u.rowAddr = qp := by simpa using (mem_filter.1 (RowInv.mem_updatesOf hu)).2
  exact hi.reports.reported u (hi.naks.mem_reportedUpdates hi.pipeline hpending hu) hrow

/-- **A step of the card keeps the tracker and the reports sound.** -/
theorem card {l : AutoAckLabel} (hok : LocalOk qp w (.card l))
    (hs : w.step qp (.card l) = some w') : LocalInv qp w' := by
  obtain ⟨hfirst, hbelow, hsettled⟩ := hok
  obtain ⟨s', hs', rfl⟩ := map_eq_some_iff.1 hs
  obtain ⟨hsub, hnear⟩ := hi.near.step hi.limit_le hfirst hbelow
  have hrow := hi.row.step hi.pipeline hfirst hs'
  have hreports : ReportsInv qp (receivedSet (readPsns (recordEntered qp w.side.entered l)))
    w.side.pre
      s' (w.history.record w.card l) (w.side.recordPolls w.card l)
      (w.side.reports ++ (w.side.newReport w.card w.history l).toList) :=
    (hi.reports.mono hsub).step hi.pipeline hi.naks hi.row (hi.handled_subset.trans hsub)
    ⟨hi.reads.count, hi.reads.rows, fun x hx => (hi.reads.reads x hx).imp_right fun h hqp =>
      (h hqp).mono hsub le_rfl⟩ hs'
  have hle : furthest w.side.pre (reportsOf qp w.side.reports) ≤ furthest w.side.pre
      (reportsOf qp (w.side.reports ++ (w.side.newReport w.card w.history l).toList)) :=
    ReportsInv.le_furthest_append _ _
  rw [← LocalSide.record_reports qp] at hreports hle
  refine ⟨hi.pipeline.step hs', hi.naks.step hi.pipeline hs', hrow, hnear,
    hi.memory.autoAck hi.pipeline.windows hs', hi.row.written_prefix hrow hi.written, ?_, hreports,
    hi.sound.mono hsub⟩
  refine hi.reads.step (fun xs hxs => hxs.mono hsub hle) hi.memory hs' fun hl hhead => ?_
  exact (hi.seen (hsettled hl hhead)).mono hsub hle

theorem next_report {x : BitVec 24 × ReportMeta} {rest : List RingbufRawDescriptor}
    (hread : tryRecvMeta w.card.metaReportDescPipeOutQueue = some (x, rest)) :
    ∃ y ys, w.side.reports = y :: ys ∧ qpnToIndex x.1 = y.1.toNat ∧ x.2 = y.2.toMeta ∧
      ∃ chunks, List.Forall₂ IsReport ys chunks ∧
        chunks.flatten = rest ++ w.card.metaReportMimoQueue := by
  obtain ⟨chunks, hchunks, hflat⟩ := hi.reports.ring
  have hread' := tryRecvMeta_append hread w.card.metaReportMimoQueue
  rw [← hflat] at hread'
  generalize w.side.reports = reports at hchunks
  cases hchunks with
  | nil => cases hread'
  | @cons y chunk ys chunks hy hys =>
    obtain ⟨qpn, hqpn, hy⟩ := hy.tryRecvMeta_append chunks.flatten
    rw [flatten_cons, hy] at hread'
    obtain ⟨rfl, hrest⟩ := Prod.mk.inj (some.inj hread')
    exact ⟨y, ys, rfl, hqpn, rfl, chunks, hys, hrest⟩

/-- **Handling a report keeps the tracker and the other reports sound.** -/
theorem deliver (hok : DeliversNear qp w.side) (hs : w.deliver qp = some w') : LocalInv qp w' := by
  obtain ⟨⟨⟨qpn, m⟩, rest⟩, hread, hs⟩ := bind_eq_some_iff.1 hs
  obtain ⟨y, ys, hreports, hqpn, hm, hring⟩ := hi.next_report hread
  rw [hreports] at hs
  have hinv := hi.reports
  have hreads := hi.reads
  rw [hreports] at hinv hreads
  have hpipeline : AutoAckInv { w.card with metaReportDescPipeOutQueue := rest } w.history :=
    { hi.pipeline with }
  have hnaks : NaksInv { w.card with metaReportDescPipeOutQueue := rest } w.history :=
    { hi.naks with }
  have hrow : RowInv qp { w.card with metaReportDescPipeOutQueue := rest } w.history
    w.side.entered :=
    { hi.row with }
  by_cases hqp : y.1 = qp
  · rw [if_pos (by rw [hqpn, hqp])] at hs
    obtain ⟨⟨h', out⟩, hhandle, rfl⟩ := map_eq_some_iff.1 hs
    have hjustified := hinv.justified
    rw [reportsOf_cons_of_eq hqp] at hjustified
    obtain ⟨h'', out', hhandle', hsound⟩ := hi.sound.report hi.lt_limit hjustified.1.1
      (hok y (by rw [hreports]; rfl) hqp) hjustified.1.2
    rw [← hm, hhandle] at hhandle'
    cases hhandle'
    have hbase := le_advance w.side.base w.side.handler.recv.psnTracker.basePsn
      h'.recv.psnTracker.basePsn
    have hpre := hsound.lift_pre fun a ha => (hi.lt_limit a ha).trans_le (by omega)
    have hfurthest : furthest w.side.pre (reportsOf qp (y :: ys)) =
        furthest (max w.side.pre y.2.high) (reportsOf qp ys) := by
      rw [reportsOf_cons_of_eq hqp]
      rfl
    refine ⟨hpipeline, hnaks, hrow, hi.near.mono ?_, hi.memory, hi.written, ?_, ?_, ?_⟩
    · unfold LocalSide.limit
      dsimp only
      omega
    · rw [hfurthest, ← hpre] at hreads
      exact { hreads with }
    · have hpop := hinv.pop hring hfurthest hjustified.2
      rwa [← hpre] at hpop
    · rwa [← hpre] at hsound
  · rw [if_neg (by rw [hqpn]; exact fun heq => hqp (BitVec.eq_of_toNat_eq heq))] at hs
    cases hs
    have hsame := reportsOf_cons_of_ne hqp ys
    refine ⟨hpipeline, hnaks, hrow, hi.near, hi.memory, hi.written, ?_, ?_, hi.sound⟩
    · rw [hsame] at hreads
      exact { hreads with }
    · exact hinv.pop hring (congrArg _ hsame) (hsame ▸ hinv.justified)

theorem reportsSound : ReportsSound w where
  base := hi.sound.sound.base
  nonneg := hi.sound.sound.nonneg
  below a h₁ h₂ := (hi.sound.sound.below a h₁ h₂).1.resolve_left (not_lt.2 h₁)
  bits i hbit := (hi.sound.sound.bits i hbit).1.resolve_left (by
    have := hi.sound.sound.nonneg
    omega)

end LocalInv

theorem localInv_init {s₀ : AutoAckGenerator} (hs₀ : s₀.Initial) (qp : BitVec 10) :
    LocalInv qp { card := s₀ } where
  pipeline := autoAckInv_init hs₀
  naks := naksInv_init hs₀
  row := rowInv_init hs₀ qp
  near := enteredInv_nil (show (0 : ℤ) ≤ 0 + 2 ^ 23 - 128 by decide)
  memory := memoryInv_init hs₀.1
  written := nil_prefix
  reads := readsInv_init hs₀ qp _ _
  reports := by
    have hs := hs₀.2.2
    refine ⟨⟨[], .nil, ?_⟩, ?_, fun x hx => (by cases hx), trivial, fun u hu => (by cases hu)⟩
    · rw [hs]
      rfl
    · rw [hs]
      exact .nil
  sound := by
    change WindowSound default default (receivedSet (readPsns [])) 0 (Psn.lift 0 default)
    exact windowSound_default _

/-- **In every such run the tracker of the receive side is sound.** -/
theorem run_reportsSound {qp : BitVec 10} {s₀ : AutoAckGenerator} {ls : List LocalLabel}
    {w : LocalWorld} (hs₀ : s₀.Initial)
    (hrun : Run (LocalWorld.step qp) (LocalOk qp) { card := s₀ } ls w) : ReportsSound w := by
  refine (hrun.invariant (I := fun _ w => LocalInv qp w) (localInv_init hs₀ qp) ?_).reportsSound
  rintro - w l w' hi hok hs
  cases l with
  | card l => exact hi.card hok hs
  | deliver => exact hi.deliver hok hs

def LocalWorld.wait (n : ℕ) (w : LocalWorld) : LocalWorld :=
  { w with card := { w.card with curTimeReg := w.card.curTimeReg + BitVec.ofNat 32 n } }

theorem LocalWorld.step_timerTask (qp : BitVec 10) (w : LocalWorld) :
    w.step qp (.card .timerTask) = some (w.wait 1) := rfl

theorem LocalWorld.iterate_wait (n : ℕ) (w : LocalWorld) :
    (LocalWorld.wait 1)^[n] w = w.wait n := by
  induction n with
  | zero => simp [LocalWorld.wait]
  | succ n ih =>
    rw [Function.iterate_succ_apply', ih]
    simp only [LocalWorld.wait, BitVec.add_assoc, ← BitVec.ofNat_add]

theorem run_wait {qp : BitVec 10} {ok : LocalWorld → LocalLabel → Prop} {w₀ w : LocalWorld}
    {ls : List LocalLabel} (h : Run (LocalWorld.step qp) ok w₀ ls w)
    (hok : ∀ w, ok w (.card .timerTask)) (n : ℕ) :
    Run (LocalWorld.step qp) ok w₀ (ls ++ List.replicate n (.card .timerTask)) (w.wait n) := by
  have hrun := h.append_replicate hok (LocalWorld.step_timerTask qp) n
  rwa [LocalWorld.iterate_wait] at hrun

theorem localOk_timerTask (qp : BitVec 10) (w : LocalWorld) : LocalOk qp w (.card .timerTask) :=
  ⟨trivial, trivial, fun h => by cases h⟩

/-- The polling reads the window of the first queue pair and its counter, and reports it. -/
def pollFirst : List AutoAckLabel :=
  [.sendPollingReq, .bitmapStorage .handleReadOnlyReq, .bitmapStorage .handleReadOnlyResp,
    .autoAckMeta .handleReadOnlyReq, .autoAckMeta .handleReadOnlyResp, .getPollingResp,
    .handlePollingResult, .forwardMetaReportDescToOutput]

/-- The first number arrives after the memories are initialized. -/
def firstPacket : List LocalLabel :=
  (clearMemories ++ .timerTask :: markPacket 0 ++ countPacket).map .card

/-- The polling reports a window; then number 1000 arrives and the loss is reported. -/
def pollAndLose : List LocalLabel :=
  pollFirst.map .card ++ .deliver :: (markPacket 1000 ++ countPacket).map .card ++
    [.card .genAutoAckReportDescriptor, .card .forwardMetaReportDescToOutput,
      .card .forwardMetaReportDescToOutput, .deliver]

/-- Number 1000 arrives, and the polling reports its window before the loss is counted. -/
def losePolled : List LocalLabel := (markPacket 1000 ++ pollFirst).map .card ++ [.deliver]

/-- The polling reports number 0; then number 1000 arrives and the loss is reported. -/
theorem run_reportsSound_poll_and_loss :
    ∃ w, Run (LocalWorld.step 0) (LocalOk 0) { card := autoAckPowerUp }
        (firstPacket ++ List.replicate 5001 (.card .timerTask) ++ pollAndLose) w ∧
      w.side.base = 1 ∧ w.side.handler.recv.psnTracker.acked 1000 ∧ ReportsSound w := by
  have hfirst : Run (LocalWorld.step 0) (LocalOk 0) { card := autoAckPowerUp } firstPacket _ :=
    .of_isSome (by decide +kernel)
  exact ((run_wait hfirst (localOk_timerTask 0) 5001).append_any (P := fun w => w.side.base = 1 ∧
      w.side.handler.recv.psnTracker.acked 1000) (by decide +kernel)).imp
    fun _ ⟨hrun, hbase, hacked⟩ => ⟨hrun, hbase, hacked,
      run_reportsSound autoAckPowerUp_initial hrun⟩

/-- Number 0 arrives and 1000 after it. The polling reads the window after 1000 is written back, and
before the loss is counted: the window is reported first, and the driver takes the numbers from 0 to
879 as received. -/
theorem run_polling_overtakes_loss :
    ∃ w, Run (LocalWorld.step 0)
        (fun w l => l ≠ .card (.bitmapStorage .handleReadOnlyReq) → LocalOk 0 w l)
        { card := autoAckPowerUp }
        (firstPacket ++ List.replicate 5001 (.card .timerTask) ++ losePolled) w ∧
      readPsns w.side.entered = [0, 1000] ∧ w.side.base = 880 ∧ ¬ ReportsSound w := by
  refine ((run_wait (.of_isSome (by decide +kernel)) (fun w _ => localOk_timerTask 0 w)
    5001).append_any (P := fun w => readPsns w.side.entered = [0, 1000] ∧ w.side.base = 880)
    (by decide +kernel)).imp fun w ⟨hrun, hentered, hbase⟩ => ⟨hrun, hentered, hbase, fun hsound =>
    ?_⟩
  have hmem := hsound.below 1 (by decide) (by rw [hbase]; decide)
  rw [hentered] at hmem
  exact absurd hmem (by decide)

end OpenRdma.Link
