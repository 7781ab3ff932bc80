import OpenRdma.Link.QpContext
import OpenRdma.Rtl.AutoAckRow

/-!
# Modifying a queue pair and its receive window

Every command about a queue pair resets the receive window of its row in the card, whether it
creates the queue pair or modifies it. So a modification forgets what was received, unless nothing
was.
-/

namespace OpenRdma.Rtl

open List Option Function

/-! ## Resets and packets on their way -/

namespace BitmapWindowStorage

/-- The number of resets of the row that were not merged yet. -/
def resetsOf (s : BitmapWindowStorage) (row : BitVec 10) : ℕ :=
  (s.stageOneToTwoPipelineQueue.countP fun e => e.isReset && e.rowAddr == row) +
    s.resetReqPipeInQ.count row

/-- The number of packets of the row that were not merged yet. -/
def packetsOf (s : BitmapWindowStorage) (row : BitVec 10) : ℕ :=
  (s.stageOneToTwoPipelineQueue.countP fun e => !e.isReset && e.rowAddr == row) +
    s.reqPipeInQueue.countP fun req => getIndexQP req.qpn == row

/-- What is merged next, if it belongs to the row: a reset or not. -/
def nextMerge (s : BitmapWindowStorage) (row : BitVec 10) : Option Bool :=
  s.stageOneToTwoPipelineQueue.head?.bind fun e => if e.rowAddr = row then some e.isReset else none

variable {s s' : BitmapWindowStorage} {h : BitmapHistory} {row : BitVec 10}

theorem counts_of_step {l : BitmapLabel} (hs : s.step l = some s') (hreq : l.isRequest = false)
    (hl : l ≠ .getBramQueryRespAndMergeThem) :
    s'.resetsOf row = s.resetsOf row ∧ s'.packetsOf row = s.packetsOf row ∧
      (h.record s l).handled = h.handled := by
  cases fires_of_step hs with
  | update | reset | readOnly => cases hreq
  | mergeReset | mergeUpdate => exact absurd rfl hl
  | queryReset _ _ hrows =>
    refine ⟨?_, ?_, rfl⟩
    · simp only [resetsOf, hrows, countP_append, countP_singleton, count_cons, Bool.true_and]
      omega
    · simp [packetsOf]
  | queryUpdate _ _ hreqs =>
    refine ⟨?_, ?_, rfl⟩
    · simp [resetsOf]
    · simp only [packetsOf, hreqs, countP_append, countP_cons, countP_nil, Bool.not_false,
        Bool.true_and]
      omega
  | bramInit | doBramWriteBack | handleReadOnlyReq | handleReadOnlyResp | takeResp
      | takeReadOnlyResp =>
    exact ⟨rfl, rfl, rfl⟩

/-- The sequence number of the packet that is merged next. -/
def nextPsn (h : BitmapHistory) : List (BitVec 24) :=
  (h.requests[h.responses.length]?.map (·.psn)).toList

theorem counts_of_merge (row : BitVec 10) (hs : s.step .getBramQueryRespAndMergeThem = some s') :
    match s.nextMerge row with
    | some true => s.resetsOf row = s'.resetsOf row + 1 ∧ s'.packetsOf row = s.packetsOf row ∧
        (h.record s .getBramQueryRespAndMergeThem).handled row = []
    | some false => s'.resetsOf row = s.resetsOf row ∧ s.packetsOf row = s'.packetsOf row + 1 ∧
        (h.record s .getBramQueryRespAndMergeThem).handled row = h.handled row ++ nextPsn h
    | none => s'.resetsOf row = s.resetsOf row ∧ s'.packetsOf row = s.packetsOf row ∧
        (h.record s .getBramQueryRespAndMergeThem).handled row = h.handled row := by
  obtain ⟨e, es, he, hes, hrows, hreqs⟩ : ∃ e es, s.stageOneToTwoPipelineQueue = e :: es ∧
      s'.stageOneToTwoPipelineQueue = es ∧ s'.resetReqPipeInQ = s.resetReqPipeInQ ∧
      s'.reqPipeInQueue = s.reqPipeInQueue := by
    cases fires_merge hs with
    | mergeReset _ he | mergeUpdate _ he => exact ⟨_, _, he, rfl, rfl, rfl⟩
  have hresets : s.resetsOf row = s'.resetsOf row + if e.isReset && e.rowAddr == row then 1
    else 0 := by
    rw [resetsOf, resetsOf, he, hes, hrows, countP_cons]
    omega
  have hpackets :
      s.packetsOf row = s'.packetsOf row + if !e.isReset && e.rowAddr == row then 1 else 0 := by
    rw [packetsOf, packetsOf, he, hes, hreqs, countP_cons]
    omega
  by_cases hrow : e.rowAddr = row
  · have hnext : s.nextMerge row = some e.isReset := by
      rw [nextMerge, he, head?_cons, bind_some, if_pos hrow]
    rw [hnext]
    cases hr : e.isReset with
    | true =>
      simp only [hr, hrow, beq_self_eq_true, Bool.not_true, Bool.false_and,
        Bool.false_eq_true, if_false] at hresets hpackets
      refine ⟨hresets, by omega, ?_⟩
      simp only [BitmapHistory.record, he, hr, if_true, hrow, update_self]
    | false =>
      simp only [hr, hrow, beq_self_eq_true, Bool.false_and, Bool.false_eq_true,
        if_false] at hresets hpackets
      refine ⟨by omega, hpackets, ?_⟩
      simp only [BitmapHistory.record, he, hr, Bool.false_eq_true, if_false,
        hrow, update_self, nextPsn]
  · have hnext : s.nextMerge row = none := by
      rw [nextMerge, he, head?_cons, bind_some, if_neg hrow]
    rw [hnext]
    have hne : (e.rowAddr == row) = false := beq_eq_false_iff_ne.2 hrow
    simp only [hne, Bool.and_false, Bool.false_eq_true, if_false] at hresets hpackets
    refine ⟨by omega, by omega, ?_⟩
    simp only [BitmapHistory.record, he]
    split
    · exact update_of_ne (Ne.symm hrow) _ _
    · exact update_of_ne (Ne.symm hrow) _ _

end BitmapWindowStorage

def AutoAckLabel.isResetRequest : AutoAckLabel → Bool
  | .resetRequest _ => true
  | _ => false

namespace AutoAckGenerator

/-- The number of resets of the row on their way to its window. -/
def resetsOf (s : AutoAckGenerator) (row : BitVec 10) : ℕ :=
  s.bitmapStorage.resetsOf row + s.resetReqPipeInQueue.count row

/-- The number of packets of the row on their way to its window. -/
def packetsOf (s : AutoAckGenerator) (row : BitVec 10) : ℕ :=
  s.bitmapStorage.packetsOf row + s.reqPipeInQueue.countP fun req => getIndexQP req.qpn == row

def recordBitmap (s : AutoAckGenerator) (h : BitmapHistory) (l : AutoAckLabel) : BitmapHistory :=
  (s.bitmapLabel l).elim h (h.record s.bitmapStorage)

variable {s s' : AutoAckGenerator} {h : BitmapHistory} {row : BitVec 10} {l : AutoAckLabel}

theorem counts_of_step (hs : s.step l = some s')
    (hmerge : l ≠ .bitmapStorage .getBramQueryRespAndMergeThem) (hreset : ∀ row',
      l ≠ .resetRequest row') :
    s'.resetsOf row = s.resetsOf row ∧
      s'.packetsOf row = s.packetsOf row + l.requests.countP (fun req =>
        getIndexQP req.qpn == row) ∧
      (s.recordBitmap h l).handled = h.handled := by
  cases fires_of_step hs with
  | request req =>
    refine ⟨rfl, ?_, rfl⟩
    rw [packetsOf, packetsOf, countP_append, Nat.add_assoc]
    rfl
  | resetRequest row' => exact absurd rfl (hreset row')
  | @bitmapStorage l b hrule hb =>
    have hreq : l.isRequest = false := by cases l <;> first | rfl | cases hrule
    have hcounts : b.resetsOf row = s.bitmapStorage.resetsOf row ∧
        b.packetsOf row = s.bitmapStorage.packetsOf row ∧
        (h.record s.bitmapStorage l).handled = h.handled :=
      BitmapWindowStorage.counts_of_step hb hreq fun heq => hmerge (by rw [heq])
    obtain ⟨hresets, hpackets, hhandled⟩ := hcounts
    exact ⟨congrArg (· + _) hresets, congrArg (· + _) hpackets, hhandled⟩
  | forwardInputReq hreqs =>
    refine ⟨rfl, ?_, ?_⟩
    · simp only [packetsOf, BitmapWindowStorage.packetsOf, hreqs, countP_append, countP_cons,
        countP_nil, AutoAckLabel.requests]
      omega
    · rw [recordBitmap, bitmapLabel, hreqs]
      rfl
  | forwardQpResetSignal hrows =>
    refine ⟨?_, rfl, ?_⟩
    · simp only [resetsOf, BitmapWindowStorage.resetsOf, hrows, count_append,
        count_cons, count_nil]
      omega
    · rw [recordBitmap, bitmapLabel, hrows]
      rfl
  | _ => exact ⟨rfl, rfl, rfl⟩

theorem windowsInv_of_step (hi : WindowsInv s.bitmapStorage h) (hs : s.step l = some s') :
    WindowsInv s'.bitmapStorage (s.recordBitmap h l) := by
  have hstep := bitmapStorage_step hs
  unfold recordBitmap
  cases hl : s.bitmapLabel l with
  | none =>
    rw [hl] at hstep
    exact hstep ▸ hi
  | some bl =>
    rw [hl] at hstep
    exact hi.step hstep

end AutoAckGenerator

end OpenRdma.Rtl

namespace OpenRdma.Link

open Driver Rtl

/-! ## Calls and the card -/

/-- A call, and the commands it sends. -/
def callOf (ctx : HwDeviceCtx) : QpCall → Option (HwDeviceCtx × List UpdateQp)
  | .createQp attr key =>
    let (_, ctx, out) := ctx.createQp attr key.toNat
    some (ctx, out.commands)
  | .updateQp qpn attr connected =>
    (ctx.updateQp qpn attr connected).map fun (_, ctx, out) => (ctx, out.commands)
  | .destroyQp qpn => (ctx.destroyQp qpn).map fun (_, ctx, out) => (ctx, out.commands)

/-- The row a command resets. -/
def resetRow (entry : UpdateQp) : BitVec 10 := (dispatchQpManagement (manageQp entry)).2

/-- A call of the driver, or a step of the card. -/
inductive WindowLabel
  | call (c : QpCall)
  | card (l : AutoAckLabel)

def QpCall.isCreate : QpCall → Bool
  | .createQp _ _ => true
  | _ => false

/-- The driver and the card, with two things about a row: for each reset on its way whether
`create_qp` requested it, and the numbers merged since the last such reset. -/
structure QpWindow where
  ctx : HwDeviceCtx := {}
  card : AutoAckGenerator
  history : BitmapHistory := {}
  resets : List Bool := []
  merged : List (BitVec 24) := []

namespace QpWindow

/-- What is known of the row after the storage merged what was next. -/
def recordMerge (w : QpWindow) (row : BitVec 10) : List Bool × List (BitVec 24) :=
  match w.card.bitmapStorage.nextMerge row with
  | some true => (w.resets.tail, if w.resets.head? = some true then [] else w.merged)
  | some false => (w.resets, w.merged ++ BitmapWindowStorage.nextPsn w.history)
  | none => (w.resets, w.merged)

/-- The state after a step of the card to `card`. -/
def afterCard (row : BitVec 10) (w : QpWindow) (l : AutoAckLabel) (card : AutoAckGenerator) :
    QpWindow :=
  let known := if l = .bitmapStorage .getBramQueryRespAndMergeThem then w.recordMerge row
    else (w.resets, w.merged)
  { w with
    card := card
    history := w.card.recordBitmap w.history l
    resets := known.1
    merged := known.2 }

/-- A call of the driver, or a step of the generator. -/
def step (row : BitVec 10) (w : QpWindow) : WindowLabel → Option QpWindow
  | .call c =>
    (callOf w.ctx c).map fun (ctx, commands) =>
      { w with
        ctx := ctx
        card := { w.card with
          resetReqPipeInQueue := w.card.resetReqPipeInQueue ++ commands.map resetRow }
        resets := w.resets ++ ((commands.map resetRow).filter (· = row)).map fun _ => c.isCreate }
  | .card l => if l.isResetRequest then none else (w.card.step l).map (w.afterCard row l)

/-- A queue pair of the row is modified only before a packet of it was merged, and while none is on
its way; a packet enters when the resets of modifications are done. -/
def Ok (row : BitVec 10) (w : QpWindow) : WindowLabel → Prop
  | .call (.updateQp qpn _ _) => indexOfQpn qpn < maxQpCnt → getIndexQP (.ofNat 24 qpn) = row →
      w.card.packetsOf row = 0 ∧ (w.merged = [] ∨ true ∈ w.resets)
  | .card (.request req) => getIndexQP req.qpn = row → false ∉ w.resets
  | _ => True

instance (row : BitVec 10) (w : QpWindow) (l : WindowLabel) : Decidable (Ok row w l) := by
  unfold Ok
  split <;> infer_instance

/-- The window of the row is that of the numbers merged since the queue pair was created. -/
def Recorded (row : BitVec 10) (w : QpWindow) : Prop :=
  w.card.bitmapStorage.bramInitedReg = true →
    WindowOf (highest (countPsns w.merged) / 16) (receivedSet (countPsns w.merged))
      (w.card.bitmapStorage.stored row)

/-- The resets on their way are those known. One of a modification finds nothing merged, and no
packet is on its way. -/
structure Inv (row : BitVec 10) (w : QpWindow) : Prop where
  windows : WindowsInv w.card.bitmapStorage w.history
  resets : w.resets.length = w.card.resetsOf row
  first : w.resets.head? = some false → w.merged = []
  quiet : false ∈ w.resets → w.card.packetsOf row = 0
  handled : w.history.handled row = w.merged

variable {row : BitVec 10} {w w' : QpWindow}

theorem Inv.recorded (hi : Inv row w) : Recorded row w := fun hinit => by
  rw [← hi.handled]
  exact hi.windows.window row (.inl hinit)

theorem callOf_cases {ctx ctx' : HwDeviceCtx} {c : QpCall} {commands : List UpdateQp}
    (h : callOf ctx c = some (ctx', commands)) :
    commands = [] ∨ ∃ entry, commands = [entry] ∧ (c.isCreate = true ∨
      ∃ attr connected, c = .updateQp entry.qpn attr connected ∧ indexOfQpn entry.qpn <
      maxQpCnt) := by
  cases c with
  | createQp attr key =>
    obtain ⟨e, hc⟩ | ⟨index, -, -, ctx'', -, hc⟩ := ctx.createQp_cases attr key.toNat
    · rw [callOf, hc] at h
      obtain ⟨-, rfl⟩ := Prod.mk.inj (Option.some.inj h)
      exact .inl rfl
    · rw [callOf, hc] at h
      obtain ⟨-, rfl⟩ := Prod.mk.inj (Option.some.inj h)
      exact .inr ⟨_, rfl, .inl rfl⟩
  | updateQp qpn attr connected =>
    obtain ⟨⟨result, ctx'', out⟩, hc, h⟩ := Option.map_eq_some_iff.1 h
    obtain ⟨-, rfl⟩ := Prod.mk.inj h
    obtain ⟨-, -, rfl⟩ | ⟨hlt, -, entry, rfl, hcommands⟩ := HwDeviceCtx.updateQp_cases hc
    · exact .inl rfl
    · exact .inr ⟨entry, hcommands, .inr ⟨attr, connected, rfl, hlt⟩⟩
  | destroyQp qpn =>
    obtain ⟨⟨result, ctx'', out⟩, hc, h⟩ := Option.map_eq_some_iff.1 h
    obtain ⟨-, rfl⟩ := Prod.mk.inj h
    obtain ⟨-, rfl, -⟩ := HwDeviceCtx.destroyQp_cases hc
    exact .inl rfl

theorem Inv.call {c : QpCall} (hi : Inv row w) (hok : Ok row w (.call c))
    (hs : step row w (.call c) = some w') : Inv row w' := by
  obtain ⟨⟨ctx, commands⟩, hc, rfl⟩ := Option.map_eq_some_iff.1 hs
  obtain rfl | ⟨entry, rfl, hkind⟩ := callOf_cases hc
  · simp only [List.map_nil, List.filter_nil, List.append_nil]
    exact ⟨hi.windows, hi.resets, hi.first, hi.quiet, hi.handled⟩
  by_cases hrow : resetRow entry = row
  · simp only [List.map_cons, List.map_nil, List.filter_cons, hrow, decide_true, if_true,
      List.filter_nil]
    -- a modification is requested while nothing of the row was merged and no packet is on its way
    have hmodify : c.isCreate = false →
        w.card.packetsOf row = 0 ∧ (w.merged = [] ∨ true ∈ w.resets) := by
      intro hmod
      obtain hcreate | ⟨attr, connected, rfl, hlt⟩ := hkind
      · rw [hmod] at hcreate
        cases hcreate
      · exact hok hlt hrow
    refine ⟨hi.windows, ?_, ?_, ?_, hi.handled⟩
    · simp only [List.length_append, List.length_singleton, hi.resets, AutoAckGenerator.resetsOf,
        List.count_append, List.count_singleton_self]
      omega
    · intro hhead
      cases hresets : w.resets with
      | nil =>
        rw [hresets] at hhead
        have hmerged := (hmodify (Option.some.inj hhead)).2
        rw [hresets] at hmerged
        exact hmerged.resolve_right List.not_mem_nil
      | cons kind kinds =>
        rw [hresets] at hhead
        exact hi.first (by rw [hresets]; exact hhead)
    · intro hmem
      rcases List.mem_append.1 hmem with hmem | hmem
      · exact hi.quiet hmem
      · exact (hmodify (List.mem_singleton.1 hmem).symm).1
  · simp only [List.map_cons, List.map_nil, List.filter_cons, hrow, decide_false,
      Bool.false_eq_true, if_false, List.filter_nil, List.append_nil]
    refine ⟨hi.windows, ?_, hi.first, hi.quiet, hi.handled⟩
    simp only [hi.resets, AutoAckGenerator.resetsOf, List.count_append, List.count_singleton,
      beq_eq_false_iff_ne.2 hrow, Bool.false_eq_true, if_false, Nat.add_zero]

theorem Inv.merge {card : AutoAckGenerator} (hi : Inv row w)
    (hs : w.card.step (.bitmapStorage .getBramQueryRespAndMergeThem) = some card) : Inv row { w with
      card := card
      history := w.card.recordBitmap w.history (.bitmapStorage .getBramQueryRespAndMergeThem)
      resets := (w.recordMerge row).1
      merged := (w.recordMerge row).2 } := by
  have hwindows := AutoAckGenerator.windowsInv_of_step hi.windows hs
  obtain ⟨-, b, hb, rfl⟩ := AutoAckGenerator.bitmapStorage_eq hs
  have hcounts := BitmapWindowStorage.counts_of_merge (h := w.history) row hb
  have hresets := hi.resets
  have hquiet := hi.quiet
  simp only [AutoAckGenerator.resetsOf, AutoAckGenerator.packetsOf] at hresets hquiet
  unfold recordMerge
  cases hnext : w.card.bitmapStorage.nextMerge row with
  | none =>
    rw [hnext] at hcounts
    obtain ⟨hr, hp, hh⟩ := hcounts
    refine ⟨hwindows, ?_, hi.first, fun hmem => ?_, hh.trans hi.handled⟩
    · simp only [AutoAckGenerator.resetsOf]
      omega
    · have := hquiet hmem
      simp only [AutoAckGenerator.packetsOf]
      omega
  | some isReset =>
    rw [hnext] at hcounts
    cases isReset with
    | true =>
      obtain ⟨hr, hp, hh⟩ := hcounts
      obtain ⟨kind, kinds, hkinds⟩ : ∃ kind kinds, w.resets = kind :: kinds :=
        List.exists_cons_of_length_pos (by omega)
      have hmerged : (if w.resets.head? = some true then [] else w.merged) = [] := by
        cases kind with
        | true => rw [hkinds, List.head?_cons, if_pos rfl]
        | false =>
          rw [if_neg (by rw [hkinds]; simp), hi.first (by rw [hkinds]; rfl)]
      rw [hkinds, List.length_cons] at hresets
      rw [hmerged, hkinds, List.tail_cons]
      refine ⟨hwindows, ?_, fun _ => rfl, fun hmem => ?_, hh⟩
      · simp only [AutoAckGenerator.resetsOf]
        omega
      · have := hquiet (hkinds ▸ List.mem_cons_of_mem _ hmem)
        simp only [AutoAckGenerator.packetsOf]
        omega
    | false =>
      obtain ⟨hr, hp, hh⟩ := hcounts
      have hnone : false ∉ w.resets := fun hmem => by
        have := hquiet hmem
        omega
      refine ⟨hwindows, ?_, fun hhead => ?_, fun hmem => absurd hmem hnone, ?_⟩
      · simp only [AutoAckGenerator.resetsOf]
        omega
      · exact absurd (List.mem_of_head? hhead) hnone
      · rw [← hi.handled]
        exact hh

theorem Inv.step {l : WindowLabel} (hi : Inv row w) (hok : Ok row w l)
    (hs : step row w l = some w') :
    Inv row w' := by
  cases l with
  | call c => exact hi.call hok hs
  | card l =>
    obtain ⟨hreset, hs⟩ := Option.ite_none_left_eq_some.1 hs
    obtain ⟨card, hcard, rfl⟩ := Option.map_eq_some_iff.1 hs
    by_cases hmerge : l = .bitmapStorage .getBramQueryRespAndMergeThem
    · subst hmerge
      exact hi.merge hcard
    have hcounts : card.resetsOf row = w.card.resetsOf row ∧
        card.packetsOf row = w.card.packetsOf row +
          l.requests.countP (fun req => getIndexQP req.qpn == row) ∧
        (w.card.recordBitmap w.history l).handled = w.history.handled :=
      AutoAckGenerator.counts_of_step hcard hmerge fun row' heq => hreset (by rw [heq]; rfl)
    obtain ⟨hresets, hpackets, hhandled⟩ := hcounts
    rw [afterCard, if_neg hmerge]
    refine ⟨AutoAckGenerator.windowsInv_of_step hi.windows hcard, hi.resets.trans hresets.symm,
      hi.first, fun hmem => ?_, (congrFun hhandled row).trans hi.handled⟩
    -- no packet of the row enters while the reset of a modification is on its way
    rw [hpackets, hi.quiet hmem, Nat.zero_add, List.countP_eq_zero]
    intro req hreq hrow
    cases l with
    | request req' =>
      obtain rfl := List.mem_singleton.1 hreq
      exact hok (eq_of_beq hrow) hmem
    | _ => cases hreq

/-- **In every run in which a queue pair is modified before its first packet, which waits for the
reset, the window has every number merged since the queue pair was created.** -/
theorem run_recorded {card : AutoAckGenerator} (hcard : card.Initial) {ls : List WindowLabel}
    (h : Run (step row) (Ok row) { card := card } ls w) : Recorded row w := by
  have hi : Inv row w := by
    refine h.invariant (I := fun _ w => Inv row w) ?_ fun _ _ _ _ hi hok hs => hi.step hok hs
    obtain ⟨hbitmap, -, hcard⟩ := hcard
    refine ⟨windowsInv_init hbitmap, ?_, fun _ => rfl, fun hmem => absurd hmem List.not_mem_nil,
      rfl⟩
    rw [hcard, hbitmap]
    rfl
  exact hi.recorded

end QpWindow

/-! ## A queue pair that is connected -/

/-- The storage merges what is next and writes it back. -/
def mergeNext : List WindowLabel :=
  [.card (.bitmapStorage .sendBramQueryReqAndGenOneHotBitmap),
    .card (.bitmapStorage .getBramQueryRespAndMergeThem), .card (.bitmapStorage .doBramWriteBack)]

/-- A queue pair is created and initialized, its resets are done, and its first packet is merged. -/
def initThenReceive : List WindowLabel :=
  clearMemories.map .card ++ createAndInit.map .call ++
    [.card .forwardQpResetSignal, .card .forwardQpResetSignal] ++ mergeNext ++ mergeNext ++
    [.card (.request ⟨0, 0x100, default⟩), .card .forwardInputReqToPsnBitMapStorage] ++ mergeNext

/-- The first packet is recorded. -/
theorem run_recorded_first_packet : ∃ w,
    Run (QpWindow.step 1) (QpWindow.Ok 1) { card := autoAckPowerUp } initThenReceive w ∧
      w.merged = [0] ∧ (w.card.bitmapStorage.stored 1).leftBound = 0 ∧ w.Recorded 1 :=
  (Run.nil.append_any (P := fun w : QpWindow => w.merged = [0] ∧
    (w.card.bitmapStorage.stored 1).leftBound = 0) (by decide +kernel)).imp
    fun _ ⟨hrun, hmerged, hbound⟩ =>
      ⟨hrun, hmerged, hbound, QpWindow.run_recorded autoAckPowerUp_initial hrun⟩

/-- The queue pair becomes ready to send after it received a packet, and the reset is done. -/
def thenReadyToSend : List WindowLabel :=
  [.call (.updateQp 0x100 { qpState := some .rts, destQpNum := some 0x200, destQpIp := some 1 } (.ok ())),
    .card .forwardQpResetSignal] ++ mergeNext

/-- **A modification forgets what was received**: after the number 0 was merged the queue pair
becomes ready to send, and its window is that of a new one. -/
theorem run_forgets : ∃ w,
    Run (QpWindow.step 1) (fun _ _ => True) { card := autoAckPowerUp }
        (initThenReceive ++ thenReadyToSend) w ∧
      w.merged = [0] ∧ w.card.bitmapStorage.stored 1 = resetValue ∧ ¬ w.Recorded 1 := by
  refine (Run.nil.append_any (P := fun w : QpWindow => w.merged = [0] ∧ w.card.bitmapStorage.stored 1 = resetValue ∧
      w.card.bitmapStorage.bramInitedReg = true) (by decide +kernel)).imp
    fun w ⟨hrun, hmerged, hstored, hinit⟩ => ⟨hrun, hmerged, hstored, fun hrecorded => ?_⟩
  have hbound := (hrecorded hinit).leftBound
  rw [hmerged, hstored] at hbound
  exact absurd hbound (by decide)

end OpenRdma.Link
