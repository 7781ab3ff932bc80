import OpenRdma.Driver.SendCompletion

/-!
# When the send queue stalls

The window of message numbers moves only when a completion is polled, and only signaled requests
complete. Once the peer has acknowledged everything and the workers have taken what follows from it,
the send queue takes a further request exactly if fewer than `2 ^ 15` messages were taken since the
last one that completed (`noStall_iff`). After `2 ^ 15` unsignaled requests it takes none, for ever.
-/

namespace OpenRdma.Driver

open Channel SendQueueContext List Option SendHistory Workers

/-! ## The last completed message -/

/-- The requests that complete: those with an event. -/
def SendHistory.signaled (h : SendHistory) : List Accepted :=
  h.accepted.filter fun y => y.event.isSome

/-- The number of the last message that is completed after `k` completions. -/
def SendHistory.lastCompleted (h : SendHistory) (k : ℕ) : ℕ :=
  ((h.signaled.take k).getLast?.map Accepted.msn).getD 0

/-- The number of messages taken since the last one that completed, with that one. -/
def Workers.sinceCompleted (s : Workers) (h : SendHistory) : ℕ :=
  h.accepted.length - h.lastCompleted s.sendPolled.length

theorem map_msn_ranked (ys : List Accepted) : (ys.filterMap Accepted.ranked).map Ranked.msn =
      (ys.filter fun y => y.event.isSome).map fun y => (y.msn : ℤ) := by
  induction ys with
  | nil => rfl
  | cons y ys ih =>
    cases hy : y.ranked with
    | none =>
      have hev : y.event = none := by rw [← y.map_event_ranked, hy]; rfl
      rw [filterMap_cons_none hy, filter_cons_of_neg (by simp [hev]), ih]
    | some r =>
      obtain ⟨hmsn, -, hev⟩ := Accepted.of_mem_ranked hy
      rw [filterMap_cons_some hy, filter_cons_of_pos (by simp [hev]), map_cons, map_cons, ih, hmsn]

theorem foldl_last (L : ℤ) (xs : List ℤ) : xs.foldl (fun _ x => x) L = xs.getLast?.getD L := by
  induction xs generalizing L with
  | nil => rfl
  | cons x xs ih =>
    rw [foldl_cons, ih, getLast?_cons]
    rfl

theorem SendHistory.lastMsn_eq (h : SendHistory) (k : ℕ) :
    lastMsn 0 (h.ranked.take k) = h.lastCompleted k := by
  have hmap := congrArg (List.take k) (map_msn_ranked h.accepted)
  rw [← map_take, ← map_take] at hmap
  have hfold : lastMsn 0 (h.ranked.take k) = ((h.ranked.take k).map Ranked.msn).foldl (fun _ x => x)
    0 := by
    rw [foldl_map]
    rfl
  rw [hfold, foldl_last, ranked, hmap, getLast?_map, lastCompleted, SendHistory.signaled]
  cases ((h.accepted.filter fun y => y.event.isSome).take k).getLast? <;> rfl

/-! ## The invariant -/

/-- The number of the last completed message is known to the write worker up to the tasks in flight,
and the requests taken fit in the window that starts there. -/
def LastView (s : Workers) (h : SendHistory) : Prop :=
  ∃ M, s.ctx.msnAcked = Msn.wrap M ∧ h.accepted.length ≤ M + 2 ^ 15 ∧
    InFlight MsnView M s.rdmaWriteCh (h.lastCompleted s.sendPolled.length)

namespace LastView

variable {qp : QpAttr} {s : Workers} {h : SendHistory}

theorem send (hl : LastView s h) {s' : Workers} {h' : SendHistory} {us : List RdmaWriteTask}
    (hp : s'.sendPolled = s.sendPolled) (hctx : s'.ctx = s.ctx) (hacc : h'.accepted = h.accepted)
    (hus : s'.rdmaWriteCh = s.rdmaWriteCh ++ us) (hM : ∀ t ∈ us, ∀ K, MsnView K t K) :
    LastView s' h' := by
  obtain ⟨M, hM₁, hM₂, hM₃⟩ := hl
  refine ⟨M, hctx ▸ hM₁, hacc ▸ hM₂, ?_⟩
  rw [hus, hp, lastCompleted, SendHistory.signaled, hacc]
  exact hM₃.append (InFlight.of_forall fun t ht => hM t ht _)

theorem skip (hl : LastView s h) {task : RdmaWriteTask} {ch : List RdmaWriteTask}
    {ctx : SendQueueContext} {h' : SendHistory} (hch : s.rdmaWriteCh = task :: ch) (htask : ∀ K K',
    MsnView K task K' → K' = K) (hctx : ctx.msnAcked = s.ctx.msnAcked) (hacc :
    h'.accepted = h.accepted) : LastView (s.afterRdmaWrite ch ctx {}) h' := by
  obtain ⟨M, hM₁, hM₂, hM₃⟩ := hl
  rw [hch] at hM₃
  obtain ⟨M', hM', hM₃⟩ := hM₃
  obtain rfl := htask M M' hM'
  refine ⟨M', hctx.trans hM₁, hacc ▸ hM₂, ?_⟩
  rw [lastCompleted, SendHistory.signaled, hacc]
  exact hM₃

theorem newComplete (hl : LastView s h) {m : Msn} {ch : List RdmaWriteTask}
    (hch : s.rdmaWriteCh = .newComplete m :: ch) :
    LastView (s.afterRdmaWrite ch (s.ctx.updateMsnAcked m) {}) h := by
  obtain ⟨M, hM₁, hM₂, hM₃⟩ := hl
  rw [hch] at hM₃
  obtain ⟨M', ⟨hm, hle⟩, hM₃⟩ := hM₃
  exact ⟨M', hm, by omega, hM₃⟩

end LastView

namespace SendOrdered

variable {qp : QpAttr} {s : Workers} {h : SendHistory} (ho : SendOrdered s h)
include ho

theorem length_polled_le : s.sendPolled.length ≤ h.signaled.length := by
  have hlen := congrArg length ho.polled_eq
  have hranked := congrArg length (map_msn_ranked h.accepted)
  rw [length_map, length_map, length_take] at hlen
  rw [length_map, length_map] at hranked
  exact (min_eq_left_iff.1 hlen.symm).trans_eq hranked

theorem lastCompleted_le (k : ℕ) : h.lastCompleted k ≤ h.accepted.length := by
  have hle : lastMsn 0 (h.ranked.take k) ≤ h.accepted.length :=
    lastMsn_le_of_forall (by omega) fun r hr =>
    (ho.sorted.of_mem_ranked (mem_of_mem_take hr)).1.le
  rw [h.lastMsn_eq] at hle
  exact_mod_cast hle

theorem lastView_take (hl : LastView s h) {wr : SendWrRdma} {n : ℕ} {r : RdmaResult}
    {ch : List RdmaWriteTask} (hch : s.rdmaWriteCh = .write wr :: ch) (ht : s.ctx.Takes qp wr n r) :
    LastView (s.afterRdmaWrite ch (s.ctx.take n) r.2.2) (h.take wr n) := by
  obtain ⟨M, hM₁, hM₂, hM₃⟩ := hl
  rw [hch] at hM₃
  obtain ⟨M', hM', hM₃⟩ := hM₃
  obtain rfl : M' = M := hM'
  have hle := MsnView.le hM₃
  have hlast := ho.lastCompleted_le s.sendPolled.length
  have hdist := ht.room.2
  rw [ho.core.msn, hM₁, maxSendWr] at hdist
  have hdist' := Msn.distance_wrap (a := h.accepted.length) (b := M') (by omega) (by omega)
  refine ⟨M', hM₁, ?_, ?_⟩
  · rw [SendHistory.take, length_append, length_singleton]
    omega
  · have htake : (h.take wr n).signaled.take s.sendPolled.length =
      h.signaled.take s.sendPolled.length := by
      rw [SendHistory.signaled, SendHistory.take, filter_append]
      exact take_append_of_le_length ho.length_polled_le
    rw [lastCompleted, afterRdmaWrite, htake]
    exact hM₃

theorem lastView_completion (hl : LastView s h) {ch : List CompletionTask}
    {t : QueuePairMessageTracker} {out : CompletionOutput}
    (ho' : SendOrdered (s.afterCompletion ch t out) h) :
    LastView (s.afterCompletion ch t out) h := by
  obtain ⟨M, hM₁, hM₂, hM₃⟩ := hl
  refine ⟨M, hM₁, hM₂, ?_⟩
  -- the completions polled now are those of the next events
  have hpolled := ho'.polled_eq
  rw [afterCompletion, map_append, length_append, take_add, map_append, ho.polled_eq,
    append_cancel_left_eq] at hpolled
  obtain ⟨ms, hms⟩ : ∃ ms, (h.ranked.drop s.sendPolled.length).take out.send.length = ms := ⟨_, rfl⟩
  rw [hms] at hpolled
  have htasks : out.rdmaWrite = ms.map fun r =>
    RdmaWriteTask.newComplete (EventMeta.messageMeta r.event).msn := by
    have := congrArg (map fun e : SendEvent => RdmaWriteTask.newComplete e.messageMeta.msn) hpolled
    rw [List.map_map, List.map_map] at this
    exact this
  have htake : h.ranked.take (s.sendPolled.length + out.send.length) =
    h.ranked.take s.sendPolled.length ++ ms := by
    rw [take_add, hms]
  have hsorted : (h.ranked.take s.sendPolled.length ++ ms).Pairwise (·.msn < ·.msn) :=
    htake ▸ ho.sorted.ranked_sorted.sublist (take_sublist _ _)
  have hnonneg : ∀ r ∈ h.ranked.take s.sendPolled.length ++ ms, 0 ≤ r.msn := fun r hr => by
    obtain ⟨y, -, hy⟩ := mem_filterMap.1 (mem_of_mem_take (htake ▸ hr))
    rw [(Accepted.of_mem_ranked hy).1]
    exact Int.natCast_nonneg _
  have hview := inFlight_newComplete (pairwise_append.1 hsorted).2.1 (lastMsn_le hsorted hnonneg)
  have hlast : lastMsn (lastMsn 0 (h.ranked.take s.sendPolled.length)) ms =
      h.lastCompleted (s.sendPolled ++ out.send).length := by
    rw [length_append, ← h.lastMsn_eq, htake]
    exact foldl_append.symm
  rw [hlast, h.lastMsn_eq] at hview
  rw [afterCompletion, htasks]
  exact hM₃.append hview

end SendOrdered

/-- The steps of a run whose sequence numbers are those of the history: the peer acknowledges only
what was sent, in reports that keep the tracker exact, and a request that is taken registers its
completion and does not wrap the window. -/
def StallOk (qp : QpAttr) (w : Workers × SendHistory) (l : Label) : Prop :=
  RoomOk (2 ^ 23) qp w l ∧ ∀ m, l = .report m →
    w.1.handler.send.psnTracker.Exact (m.sendOps w.1.handler)

theorem SendOk.stallOk {qp : QpAttr} {w : Workers × SendHistory} {l : Label} (h : SendOk qp w l) :
    StallOk qp w l := by
  refine ⟨h.coreOk.roomOk, ?_⟩
  rintro m rfl
  exact h.2

structure StallSafe (s : Workers) (h : SendHistory) : Prop extends SendOrdered s h where
  tracks : Tracks s.handler.send.psnTracker h.acked h.base
  last : LastView s h

/-- **Every step keeps the window where the last completed message is.** -/
theorem StallSafe.step {qp : QpAttr} {w w' : Workers × SendHistory} {l : Label}
    (hs : StallSafe w.1 w.2) (hok : StallOk qp w l) (hstep : sendStep qp w l = some w') :
    StallSafe w'.1 w'.2 := by
  have ho := hs.toSendOrdered.step hok.1 hstep
  cases sendFires_of_step hok.1 hstep with
  | idle => exact hs
  | post wr =>
    exact ⟨ho, hs.tracks, hs.last.send rfl rfl rfl rfl
      fun t ht K => by rw [mem_singleton.1 ht]; rfl⟩
  | postRecv | timeout | runRetransmit => exact ⟨ho, hs.tracks, hs.last⟩
  | @report m r hr =>
    refine ⟨ho, hs.toSendOrdered.tracks_report hr hs.tracks (hok.2 m rfl) hok.1,
      hs.last.send rfl rfl rfl rfl fun t ht K => ?_⟩
    rw [(MetaHandler.handleMeta_spec hr).rdmaWrite] at ht
    rcases mem_append.1 ht with ht | ht
    · cases m <;> simp only [ReportMeta.answer, mem_singleton, not_mem_nil] at ht
      rw [ht]
      rfl
    · obtain ⟨p, -, rfl⟩ := mem_map.1 (mem_toList.1 ht)
      rfl
  | ack hch | refuse hch => exact ⟨ho, hs.tracks, hs.last.skip hch (fun K K' hK => hK) rfl rfl⟩
  | newComplete hch => exact ⟨ho, hs.tracks, hs.last.newComplete hch⟩
  | take hch ht => exact ⟨ho, hs.tracks, hs.toSendOrdered.lastView_take hs.last hch ht⟩
  | runCompletion => exact ⟨ho, hs.tracks, hs.toSendOrdered.lastView_completion hs.last ho⟩

theorem stallSafe_init : StallSafe {} {} where
  toSendOrdered := sendOrdered_init
  tracks := by
    have := tracks_default
    rwa [← ackedIn_nil] at this
  last := ⟨0, rfl, by decide, rfl⟩

/-! ## The stall -/

/-- The peer has acknowledged every number issued so far, and the tasks that follow from it are
taken. -/
structure Rested (s : Workers) (h : SendHistory) : Prop where
  acked : ∀ a, 0 ≤ a → a < h.next → a ∈ h.acked
  rdmaWrite : ∀ t ∈ s.rdmaWriteCh, ∃ wr, t = .write wr
  completion : ∀ t ∈ s.completionCh, ∀ p, t ≠ .ackSend p

/-- **No permanent stall**: once everything is acknowledged, a further request of up to `2 ^ 23`
packets is taken. -/
def NoStall (s : Workers) (h : SendHistory) : Prop := Rested s h → ∀ n ≤ 2 ^ 23,
    (s.ctx.nextWr n).isSome

theorem StallSafe.hasRoom_iff {s : Workers} {h : SendHistory} (hs : StallSafe s h)
    (hrest : Rested s h) {n : ℕ} (hn : n ≤ 2 ^ 23) :
    s.ctx.HasRoom n ↔ s.sinceCompleted h < 2 ^ 15 := by
  -- the base of the tracker is the next number
  have hbase : h.base = h.next := by
    refine le_antisymm hs.core.base_le_next (not_lt.1 fun hlt => ?_)
    exact hs.tracks.isFrontier.notMem (hrest.acked _ hs.tracks.nonneg hlt)
  obtain ⟨K, hK, -, hview⟩ := hs.core.view
  obtain rfl : K = h.base := hview.eq_of_silent fun t ht a b hab => by
    obtain ⟨wr, rfl⟩ := hrest.rdmaWrite t ht
    exact hab
  obtain ⟨M, hM, hwin, hmsns⟩ := hs.last
  obtain rfl : M = h.lastCompleted s.sendPolled.length := hmsns.eq_of_silent fun t ht a b hab => by
    obtain ⟨wr, rfl⟩ := hrest.rdmaWrite t ht
    exact hab
  have hlast := hs.lastCompleted_le s.sendPolled.length
  have hpsn := Psn.wrap_sub (a := h.next) (b := h.next) le_rfl (by omega)
  have hmsn := Msn.distance_wrap (a := h.accepted.length) (b := h.lastCompleted s.sendPolled.length)
    (by omega) (by omega)
  unfold SendQueueContext.HasRoom sinceCompleted
  rw [Psn.add_inner, hs.core.psn, hK, hbase, hs.core.msn, hM, maxPsnWindow_eq, maxSendWr]
  omega

/-- **The send queue does not stall exactly if fewer than `2 ^ 15` messages were taken since the
last one that completed**, in every state of every run. -/
theorem noStall_iff {qp : QpAttr} {ls : List Label} {w : Workers × SendHistory}
    (h : Run (sendStep qp) (StallOk qp) ({}, {}) ls w) :
    NoStall w.1 w.2 ↔ (Rested w.1 w.2 → w.1.sinceCompleted w.2 < 2 ^ 15) := by
  have hs : StallSafe w.1 w.2 := h.invariant (I := fun _ w => StallSafe w.1 w.2) stallSafe_init
    fun _ _ _ _ hs hok hstep => hs.step hok hstep
  refine forall_congr' fun hrest => ?_
  have hroom : ∀ n, (w.1.ctx.nextWr n).isSome ↔ w.1.ctx.HasRoom n := fun n => by
    rw [nextWr_eq]
    split_ifs with hr <;> simp [hr]
  constructor
  · intro hall
    exact (hs.hasRoom_iff hrest (by decide)).1 ((hroom 0).1 (hall 0 (by decide)))
  · intro hlt n hn
    exact (hroom n).2 ((hs.hasRoom_iff hrest hn).2 hlt)

/-- Two signaled writes that complete leave the whole window but one message. -/
theorem noStall_two_writes :
    ∃ w, Run (sendStep sampleAttr) (StallOk sampleAttr) ({}, {}) (twoWrites ++
      List.replicate 4 .runRdmaWrite) w ∧ w.1.rdmaWriteCh = [] ∧ w.1.completionCh = [] ∧
    w.1.sinceCompleted w.2 = 1 ∧ NoStall w.1 w.2 := by
  have hrun : Run (sendStep sampleAttr) (SendOk sampleAttr) ({}, {}) (twoWrites ++
    replicate 4 .runRdmaWrite) _ :=
    .of_isSome (by decide +kernel)
  have hstall := hrun.mono fun _ _ hok => SendOk.stallOk hok
  exact ⟨_, hstall, by decide +kernel, by decide +kernel, by decide +kernel,
    (noStall_iff hstall).2 fun _ => by decide +kernel⟩

/-! ### A stall -/

/-- An unsignaled write of one packet. -/
def unsignaledPacket : SendWrRdma := { samplePacket with
    base := { samplePacket.base with sendFlags := 0 } }

/-- Unsignaled writes, each taken at once. -/
def unsignaledWrites : ℕ → List Label
  | 0 => []
  | k + 1 => unsignaledWrites k ++ [.post unsignaledPacket] ++ [.runRdmaWrite]

/-- The workers after `k` unsignaled writes. -/
structure Unsignaled (k : ℕ) (s : Workers) (h : SendHistory) : Prop where
  ctx : s.ctx = ⟨Msn.wrap k, Psn.wrap k, default, default⟩
  handler : s.handler = {}
  tracker : s.tracker = {}
  rdmaWriteCh : s.rdmaWriteCh = []
  completionCh : s.completionCh = []
  next : h.next = k
  base : h.base = 0

theorem accepts_unsignaled {k : ℕ} (hk : k < 2 ^ 15) :
    Accepts sampleAttr ⟨Msn.wrap k, Psn.wrap k, default, default⟩ unsignaledPacket where
  opcode := by decide
  registers := by decide
  pmtu := by decide
  length := by decide
  addresses := by decide
  psnWindow n hn := by
    have hres : reservedPsns unsignaledPacket sampleAttr.pmtu = some 1 := by decide +kernel
    obtain rfl : 1 = n := some.inj (hres.symm.trans hn)
    have := Psn.wrap_sub (a := k) (b := 0) (by omega) (by omega)
    change (Psn.wrap k - Psn.wrap 0).inner + 1 ≤ 2 ^ 23
    omega
  msnWindow := by
    have := Msn.distance_wrap (a := k) (b := 0) (by omega) (by omega)
    change (Msn.wrap k).distance (Msn.wrap 0) < 0x8000
    omega

theorem run_unsignaled {k : ℕ} (hk : k ≤ 2 ^ 15) :
    ∃ w, Run (sendStep sampleAttr) (SendOk sampleAttr) ({}, {}) (unsignaledWrites k) w ∧
    Unsignaled k w.1 w.2 := by
  induction k with
  | zero => exact ⟨_, .nil, rfl, rfl, rfl, rfl, rfl, rfl, rfl⟩
  | succ k ih =>
    obtain ⟨⟨s, h⟩, hrun, hu⟩ := ih (by omega)
    have hacc := accepts_unsignaled (k := k) (by omega)
    rw [← hu.ctx] at hacc
    obtain ⟨n, r, hpost, ht⟩ := post_of_accepts hacc
    obtain rfl : n = 1 := some.inj (ht.reserved.symm.trans (by decide +kernel))
    obtain ⟨s₁, hs₁⟩ : ∃ s₁ : Workers, s₁ = { s with rdmaWriteCh := [.write unsignaledPacket] } :=
      ⟨_, rfl⟩
    have hrun₁ : Run (sendStep sampleAttr) (SendOk sampleAttr) ({}, {})
        (unsignaledWrites k ++ [.post unsignaledPacket]) (s₁, h) := hrun.snoc trivial (by
      rw [hs₁, sendStep, step, hu.rdmaWriteCh]
      rfl)
    have hch : s₁.rdmaWriteCh = [.write unsignaledPacket] := by rw [hs₁]
    have hctx : s₁.ctx = s.ctx := by rw [hs₁]
    have hstep : s₁.step sampleAttr .runRdmaWrite =
      some (s₁.afterRdmaWrite [] (s.ctx.take 1) r.2.2) := by
      rw [step, hch, hctx]
      dsimp only
      rw [SendQueueContext.process, hpost, ← ht.after]
      rfl
    obtain ⟨r₁, r₂, r₃⟩ := r
    obtain rfl : r₁ = .ok () := ht.ok
    have hrecord : h.record sampleAttr s₁ (s₁.afterRdmaWrite [] (s.ctx.take 1) r₃) .runRdmaWrite =
        h.take unsignaledPacket 1 := by
      have hnext : s₁.nextRequest = some unsignaledPacket := by rw [nextRequest, hch]
      rw [record, hnext]
      dsimp only
      rw [hctx, hpost, give, ht.reserved]
      rfl
    have hok : SendOk sampleAttr (s₁, h) .runRdmaWrite := by
      intro wr hwr
      rw [nextRequest, hch] at hwr
      cases hwr
      rwa [hctx]
    refine ⟨(s₁.afterRdmaWrite [] (s.ctx.take 1) r₃, h.take unsignaledPacket 1),
      hrun₁.snoc hok (by rw [sendStep, hstep, map_some, hrecord]), ?_⟩
    have hnext : h.next = k := hu.next
    refine ⟨?_, hs₁ ▸ hu.handler, hs₁ ▸ hu.tracker, rfl, ?_, ?_, hu.base⟩
    · rw [hu.ctx, SendQueueContext.take, Msn.wrappingAdd_wrap, Psn.wrap_add]
      rfl
    · have hnone : r₃.completion = [] := ht.completion
      rw [afterRdmaWrite, hnone, hs₁, hu.completionCh]
      rfl
    · change h.next + 1 = _
      omega

/-- The peer acknowledges `2 ^ 15` packets, and the workers take what follows from it. -/
def acknowledged : List Label := [.report (.ackRemoteDriver 32768), .runRdmaWrite, .runCompletion]

/-- **After `2 ^ 15` unsignaled writes the send queue stalls**: all of them are acknowledged and
every task is taken, but no request is taken any more. -/
theorem unsignaled_stall :
    ∃ w, Run (sendStep sampleAttr) (SendOk sampleAttr) ({}, {}) (unsignaledWrites (2 ^ 15) ++
      acknowledged) w ∧ Rested w.1 w.2 ∧ w.1.rdmaWriteCh = [] ∧ w.1.completionCh = [] ∧
    (∀ n, w.1.ctx.nextWr n = none) ∧
      ¬ NoStall w.1 w.2 := by
  obtain ⟨⟨s, h⟩, hrun, hu⟩ := run_unsignaled le_rfl
  have hhandler : s.handler = {} := hu.handler
  have hnext : h.next = (2 ^ 15 : ℕ) := hu.next
  have hbase : h.base = 0 := hu.base
  have hreport : (({} : MetaHandler).handleMeta (.ackRemoteDriver 32768)).map
      (fun r => (r.2.rdmaWrite, r.2.completion)) = some ([.ack 32768], [.ackSend 32768]) := by
    decide +kernel
  obtain ⟨⟨handler, out⟩, hr, hout⟩ := map_eq_some_iff.1 hreport
  obtain ⟨hout₁, hout₂⟩ := Prod.mk.inj hout
  have hok : SendOk sampleAttr (s, h) (.report (.ackRemoteDriver 32768)) := by
    unfold SendOk
    dsimp only [ReportMeta.sendOps]
    rw [hhandler, hbase, hnext]
    decide +kernel
  obtain ⟨h₁, hh₁⟩ : ∃ h₁, h.record sampleAttr s (s.afterReport handler out)
    (.report (.ackRemoteDriver 32768)) = h₁ := ⟨_, rfl⟩
  have hrun₁ : Run (sendStep sampleAttr) (SendOk sampleAttr) ({}, {})
      (unsignaledWrites (2 ^ 15) ++ [.report (.ackRemoteDriver 32768)]) (s.afterReport handler out,
        h₁) :=
    hrun.snoc hok (by rw [sendStep, step, hhandler, hr, ← hh₁]; rfl)
  have hch₁ : (s.afterReport handler out).rdmaWriteCh = [.ack 32768] := by
    rw [afterReport, hu.rdmaWriteCh]
    exact hout₁
  have hch₂ : (s.afterReport handler out).completionCh = [.ackSend 32768] := by
    rw [afterReport, hu.completionCh]
    exact hout₂
  obtain ⟨s₂, hs₂⟩ : ∃ s₂, (s.afterReport handler out).afterRdmaWrite []
    (s.ctx.updatePsnAcked 32768) {} = s₂ :=
    ⟨_, rfl⟩
  have hrun₂ : Run (sendStep sampleAttr) (SendOk sampleAttr) ({}, {})
      (unsignaledWrites (2 ^ 15) ++ [.report (.ackRemoteDriver 32768)] ++ [.runRdmaWrite])
      (s₂, h₁) :=
    hrun₁.snoc (fun wr hwr => by rw [nextRequest, hch₁] at hwr; cases hwr) (by
      have hstep : (s.afterReport handler out).step sampleAttr .runRdmaWrite = some s₂ := by
        rw [step, hch₁, ← hs₂]
        rfl
      rw [sendStep, hstep]
      simp [record, nextRequest, hch₁])
  have hch₃ : s₂.completionCh = [.ackSend 32768] := by
    rw [← hs₂, afterRdmaWrite, hch₂]
    rfl
  obtain ⟨t, ht⟩ : ∃ t, ({} : QueuePairMessageTracker).process sampleAttr (.ackSend 32768) =
    some (t, {}) :=
    ⟨_, rfl⟩
  have htracker : s₂.tracker = {} := by
    rw [← hs₂]
    exact hu.tracker
  have hrun₃ : Run (sendStep sampleAttr) (SendOk sampleAttr) ({}, {})
      (unsignaledWrites (2 ^ 15) ++ [.report (.ackRemoteDriver 32768)] ++
        [.runRdmaWrite] ++ [.runCompletion])
      (s₂.afterCompletion [] t {}, h₁) :=
    hrun₂.snoc trivial (by
      rw [sendStep, step, hch₃]
      dsimp only
      rw [htracker, ht]
      rfl)
  rw [append_assoc, append_assoc] at hrun₃
  have hctx : (s₂.afterCompletion [] t {}).ctx = ⟨Msn.wrap (2 ^ 15 : ℕ), Psn.wrap (2 ^ 15 : ℕ),
    32768, default⟩ := by
    rw [← hs₂]
    exact congrArg (SendQueueContext.updatePsnAcked · 32768) hu.ctx
  have hnone : ∀ n, (s₂.afterCompletion [] t {}).ctx.nextWr n = none := fun n => by
    rw [hctx, nextWr_eq, if_neg fun hroom => absurd hroom.2 (by decide)]
  have hwrite : (s₂.afterCompletion [] t {}).rdmaWriteCh = [] := by
    rw [← hs₂]
    rfl
  have hrest : Rested (s₂.afterCompletion [] t {}) h₁ := by
    refine ⟨fun a _ ha => ?_, by simp [hwrite], by simp [afterCompletion]⟩
    rw [← hh₁] at ha ⊢
    refine ⟨(0, .before 32768), mem_append_right _ ?_, ?_⟩
    · rw [hbase]
      exact mem_singleton_self _
    · have hlift : Psn.lift 0 32768 = 32768 := by decide
      change a < h.next at ha
      change a < Psn.lift 0 32768
      omega
  exact ⟨_, hrun₃, hrest, hwrite, rfl, hnone,
    fun hno => by simpa [hnone] using hno hrest 0 (by decide)⟩

end OpenRdma.Driver
