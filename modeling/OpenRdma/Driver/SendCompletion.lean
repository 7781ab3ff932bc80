import OpenRdma.Driver.Events
import OpenRdma.Driver.SendSide

/-!
# Send completions over whole runs

The write worker registers an event for every signaled request it takes, and the bases the peer
acknowledges follow the events over the same channel to the completion worker. A run in which every
request is accepted and the peer's reports are exact completes the signaled requests in order, each
once and only after its last sequence number was acknowledged, and leaves none behind
(`SendSafe.completes`).
-/

namespace OpenRdma.Driver

open Channel SendQueueContext EventMeta List Option QueuePairMessageTracker

/-! ## What the completion worker sees -/

namespace Accepted

theorem event_messageMeta {y : Accepted} {e : SendEvent} (h : e ∈ y.event) :
    messageMeta e = ⟨Msn.wrap y.msn, Psn.wrap y.fin⟩ := by
  unfold event sendEvent at h
  split_ifs at h
  · obtain ⟨op, -, rfl⟩ := map_eq_some_iff.1 h
    rfl
  · cases h

/-- The completion event with its unbounded numbers. -/
def ranked (y : Accepted) : Option (Ranked SendEvent) :=
  y.event.pmap (fun e he => ⟨e, y.msn, y.fin, he⟩) fun _ he => event_messageMeta he

theorem map_event_ranked (y : Accepted) : y.ranked.map Ranked.event = y.event := by
  rw [ranked, Option.map_pmap, Option.pmap_eq_map, Option.map_id']

theorem of_mem_ranked {y : Accepted} {r : Ranked SendEvent} (h : r ∈ y.ranked) :
    r.msn = y.msn ∧ r.fin = y.fin ∧ y.event = some r.event := by
  obtain ⟨e, _, he, rfl⟩ := pmap_eq_some_iff.1 h
  exact ⟨rfl, rfl, he⟩

theorem exists_ranked {y : Accepted} (h : y.event.isSome) : ∃ r, y.ranked = some r :=
  isSome_iff_exists.1 (by rwa [ranked, isSome_pmap])

end Accepted

/-- What a task tells the completion worker about the send side: the events registered so far and
the acknowledged base. A new event is after all events that wait. -/
def SendSees (v : List (Ranked SendEvent) × ℤ) :
    CompletionTask → List (Ranked SendEvent) × ℤ → Prop
  | .register (.send e), v' => ∃ x : Ranked SendEvent, x.event = e ∧ v' = (v.1 ++ [x], v.2) ∧
      v.2 < x.fin ∧ x.fin ≤ v.2 + 2 ^ 23 ∧
      ∀ r ∈ v.1, v.2 < r.fin → r.Near x ∧ r.msn < x.msn ∧ r.fin ≤ x.fin
  | .ackSend p, v' => p = Psn.wrap v'.2 ∧ v.2 ≤ v'.2 ∧ v'.2 ≤ v.2 + 2 ^ 23 ∧ v'.1 = v.1
  | _, v' => v' = v

theorem SendSees.isPrefix {v v' : List (Ranked SendEvent) × ℤ} {ch : List CompletionTask}
    (h : InFlight SendSees v ch v') : v.1 <+: v'.1 ∧ v.2 ≤ v'.2 := by
  refine h.preserves (P := fun u => v.1 <+: u.1 ∧ v.2 ≤ u.2) ⟨prefix_rfl, le_rfl⟩ ?_
  rintro a task b ⟨h₁, h₂⟩ hab
  unfold SendSees at hab
  split at hab
  · obtain ⟨x, -, rfl, -⟩ := hab
    exact ⟨h₁.trans (prefix_append _ _), h₂⟩
  · obtain ⟨-, hle, -, heq⟩ := hab
    exact ⟨heq ▸ h₁, h₂.trans hle⟩
  · exact hab ▸ ⟨h₁, h₂⟩

namespace QueuePairMessageTracker

/-- The send half of the tracker: the events `done` were popped at the base `T` or before it, and
all but those still to be merged were polled; the events `wait` are queued in order. -/
structure SendInv (t : QueuePairMessageTracker) (polled : List (SendEvent × Completion))
    (gone merged wait : List (Ranked SendEvent)) (T : ℤ) : Prop where
  gone_eq : polled.map Prod.fst = gone.map Ranked.event
  completion : ∀ x ∈ polled, x.2 = x.1.completion
  merged_eq : t.merge.send = merged.map Ranked.event
  wait_eq : t.send.inner = wait.map Ranked.event
  done_le : ∀ r ∈ gone ++ merged, r.fin ≤ T
  lt_wait : ∀ r ∈ wait, T < r.fin ∧ r.fin ≤ T + 2 ^ 23
  sorted : wait.Pairwise (·.fin ≤ ·.fin)

namespace SendInv

variable {t t' : QueuePairMessageTracker} {polled xs : List (SendEvent × Completion)}
  {gone merged wait : List (Ranked SendEvent)} {T : ℤ} (h : t.SendInv polled gone merged wait T)
include h

theorem register {e : SendEvent} {v : List (Ranked SendEvent) × ℤ}
    (hsees : SendSees (gone ++ merged ++ wait, T) (.register (.send e)) v) :
    ∃ x, v = (gone ++ merged ++ (wait ++ [x]), T) ∧
      (t.append (.send e)).SendInv polled gone merged (wait ++ [x]) T := by
  obtain ⟨x, rfl, rfl, hlt, hle, hall⟩ := hsees
  have hwait : ∀ r ∈ wait, r.Near x ∧ r.msn < x.msn ∧ r.fin ≤ x.fin := fun r hr =>
    hall r (mem_append_right _ hr) (h.lt_wait r hr).1
  refine ⟨x, by rw [append_assoc], h.gone_eq, h.completion, h.merged_eq, ?_, h.done_le, ?_, ?_⟩
  · refine MessageTracker.append_new (R := wait) (S := []) ?_ (fun r hr => ?_) (by simp)
    · rw [append_nil]
      exact h.wait_eq
    · exact ⟨(hwait r hr).1, (hwait r hr).2.1⟩
  · intro r hr
    rcases mem_append.1 hr with hr | hr
    · exact h.lt_wait r hr
    · rw [mem_singleton.1 hr]
      exact ⟨hlt, hle⟩
  · refine pairwise_append.2 ⟨h.sorted, pairwise_singleton _ _, fun r hr y hy => ?_⟩
    rw [mem_singleton.1 hy]
    exact (hwait r hr).2.2

theorem ackSend {b : ℤ} (hTb : T ≤ b) (hb : b ≤ T + 2 ^ 23) :
    (t.ackSend (Psn.wrap b)).SendInv polled gone (merged ++ wait.takeWhile (·.fin ≤ b))
      (wait.dropWhile (·.fin ≤ b)) b := by
  have hdrain := MessageTracker.drain_eq (b := b) wait fun r hr => by
    have := h.lt_wait r hr
    omega
  have heq : t.ackSend (Psn.wrap b) =
      { t with
        send := ⟨(wait.dropWhile (·.fin ≤ b)).map Ranked.event, Psn.wrap b⟩
        merge := { t.merge with
          send := t.merge.send ++ (wait.takeWhile (·.fin ≤ b)).map Ranked.event } } := by
    unfold QueuePairMessageTracker.ackSend
    rw [h.wait_eq, hdrain]
    dsimp only
    rw [MergeQueue.foldl_pushSend]
  rw [heq]
  refine ⟨h.gone_eq, h.completion, ?_, rfl, ?_, ?_, h.sorted.sublist (dropWhile_sublist _)⟩
  · rw [map_append, ← h.merged_eq]
  · intro r hr
    rw [← append_assoc] at hr
    rcases mem_append.1 hr with hr | hr
    · exact (h.done_le r hr).trans hTb
    · simpa using mem_takeWhile_imp hr
  · intro r hr
    have := h.lt_wait r ((dropWhile_sublist _).mem hr)
    exact ⟨Ranked.lt_of_mem_dropWhile h.sorted hr, by omega⟩

theorem congr (hmerge : t'.merge.send = t.merge.send)
    (hsend : t'.send.inner = t.send.inner) : t'.SendInv polled gone merged wait T :=
  { h with
    merged_eq := hmerge.trans h.merged_eq
    wait_eq := hsend.trans h.wait_eq }

theorem poll (hp : t.PolledSend xs t') :
    ∃ ms merged', merged = ms ++ merged' ∧ xs.map Prod.fst = ms.map Ranked.event ∧
      t'.SendInv (polled ++ xs) (gone ++ ms) merged' wait T := by
  have hsend := hp.send
  rw [h.merged_eq] at hsend
  obtain ⟨ms, merged', rfl, hms, hmerged'⟩ := map_eq_append_iff.1 hsend
  refine ⟨ms, merged', rfl, hms.symm, ?_, ?_, hmerged'.symm, ?_, ?_, h.lt_wait, h.sorted⟩
  · rw [map_append, map_append, h.gone_eq, hms]
  · intro x hx
    rcases mem_append.1 hx with hx | hx
    · exact h.completion x hx
    · exact hp.completion x hx
  · rw [hp.frame]
    exact h.wait_eq
  · rw [append_assoc]
    exact h.done_le

end SendInv

end QueuePairMessageTracker

/-! ## The window of message numbers -/

/-- What a task tells the write worker about the number of the last completed message. -/
def MsnView (P : ℤ) : RdmaWriteTask → ℤ → Prop
  | .newComplete msn, P' => msn = Msn.wrap P' ∧ P ≤ P'
  | _, P' => P' = P

theorem MsnView.le {P P' : ℤ} {ch : List RdmaWriteTask} (h : InFlight MsnView P ch P') :
    P ≤ P' := by
  refine h.preserves (P := (P ≤ ·)) le_rfl fun a t b ha hb => ?_
  cases t with
  | newComplete => exact ha.trans hb.2
  | write => exact ha.trans_eq hb.symm
  | ack => exact ha.trans_eq hb.symm

/-- The number of the last of the messages `ms` completed after the message `L`. -/
def lastMsn (L : ℤ) (ms : List (Ranked SendEvent)) : ℤ := ms.foldl (fun _ r => r.msn) L

theorem lastMsn_le {ms rest : List (Ranked SendEvent)} {L : ℤ}
    (hs : (ms ++ rest).Pairwise (·.msn < ·.msn)) (hL : ∀ r ∈ ms ++ rest, L ≤ r.msn) :
    ∀ r ∈ rest, lastMsn L ms ≤ r.msn := by
  induction ms generalizing L with
  | nil => exact hL
  | cons r ms ih =>
    rw [cons_append, pairwise_cons] at hs
    exact ih hs.2 fun x hx => (hs.1 x hx).le

theorem lastMsn_le_of_forall {ms : List (Ranked SendEvent)} {L N : ℤ} (hL : L ≤ N)
    (hN : ∀ r ∈ ms, r.msn ≤ N) : lastMsn L ms ≤ N := by
  induction ms generalizing L with
  | nil => exact hL
  | cons r ms ih =>
    rw [forall_mem_cons] at hN
    exact ih hN.1 hN.2

theorem inFlight_newComplete {ms : List (Ranked SendEvent)} {L : ℤ}
    (hs : ms.Pairwise (·.msn < ·.msn)) (hL : ∀ r ∈ ms, L ≤ r.msn) :
    InFlight MsnView L (ms.map fun r => RdmaWriteTask.newComplete (messageMeta r.event).msn)
    (lastMsn L ms) := by
  induction ms generalizing L with
  | nil => rfl
  | cons r ms ih =>
    rw [pairwise_cons] at hs
    refine ⟨r.msn, ⟨?_, hL r mem_cons_self⟩, ih hs.2 fun x hx => (hs.1 x hx).le⟩
    rw [r.messageMeta_eq]

/-- The requests taken so far have increasing message numbers and increasing ends. -/
structure AcceptedSorted (h : SendHistory) : Prop where
  sorted : h.accepted.Pairwise fun x y => x.msn < y.msn ∧ x.fin < y.fin
  msn_lt : ∀ y ∈ h.accepted, y.msn < h.accepted.length
  fin_le : ∀ y ∈ h.accepted, y.fin ≤ h.next

/-- The events of the requests taken so far. -/
def SendHistory.ranked (h : SendHistory) : List (Ranked SendEvent) :=
  h.accepted.filterMap Accepted.ranked

namespace AcceptedSorted

variable {h : SendHistory}

theorem take (hs : AcceptedSorted h) (wr : SendWrRdma) {n : ℕ} (hn : 0 < n) :
    AcceptedSorted (h.take wr n) where
  sorted := by
    refine pairwise_append.2 ⟨hs.sorted, pairwise_singleton _ _, fun x hx y hy => ?_⟩
    rw [mem_singleton.1 hy]
    have := hs.fin_le x hx
    exact ⟨hs.msn_lt x hx, this.trans_lt (by change h.next < h.next + n; omega)⟩
  msn_lt y hy := by
    rw [SendHistory.take, length_append]
    rcases mem_append.1 hy with hy | hy
    · exact (hs.msn_lt y hy).trans (Nat.lt_succ_self _)
    · rw [mem_singleton.1 hy]
      exact Nat.lt_succ_self _
  fin_le y hy := by
    change y.fin ≤ h.next + n
    rcases mem_append.1 hy with hy | hy
    · exact (hs.fin_le y hy).trans (by omega)
    · rw [mem_singleton.1 hy]
      exact le_rfl

theorem of_mem_ranked (hs : AcceptedSorted h) {r : Ranked SendEvent} (hr : r ∈ h.ranked) :
    r.msn < h.accepted.length ∧ r.fin ≤ h.next := by
  obtain ⟨y, hy, hr⟩ := mem_filterMap.1 hr
  obtain ⟨hmsn, hfin, -⟩ := Accepted.of_mem_ranked hr
  have h₁ := hs.msn_lt y hy
  have h₂ := hs.fin_le y hy
  omega

theorem ranked_sorted (hs : AcceptedSorted h) : h.ranked.Pairwise (·.msn < ·.msn) := by
  refine pairwise_filterMap.2 (hs.sorted.imp fun hxy r hr r' hr' => ?_)
  rw [(Accepted.of_mem_ranked hr).1, (Accepted.of_mem_ranked hr').1]
  exact_mod_cast hxy.1

end AcceptedSorted

/-! ## Runs -/

/-- The send half of the completion worker and the message numbers on their way to the write
worker. -/
structure SendView (s : Workers) (h : SendHistory) (gone merged wait : List (Ranked SendEvent))
    (T M L : ℤ) : Prop where
  inv : s.tracker.SendInv s.sendPolled gone merged wait T
  sees : InFlight SendSees (gone ++ merged ++ wait, T) s.completionCh (h.ranked, h.base)
  msnAcked : s.ctx.msnAcked = Msn.wrap M
  window : h.accepted.length - M ≤ 2 ^ 15
  msns : InFlight MsnView M s.rdmaWriteCh L
  last_le : L ≤ h.accepted.length
  rest : ∃ rest, h.ranked = gone ++ rest ∧ ∀ r ∈ rest, L ≤ r.msn

/-- The completion worker has seen the events of the requests in the order they were taken. -/
structure SendOrdered (s : Workers) (h : SendHistory) : Prop where
  core : s.Core (2 ^ 23) h
  sorted : AcceptedSorted h
  settled : s.tracker.Settled
  view : ∃ gone merged wait T M L, SendView s h gone merged wait T M L

namespace SendView

variable {s : Workers} {h : SendHistory} {gone merged wait : List (Ranked SendEvent)} {T M L : ℤ}
variable {ch : List RdmaWriteTask} (hv : SendView s h gone merged wait T M L)
include hv

theorem send {s' : Workers} {h' : SendHistory}
    {ts : List CompletionTask} {us : List RdmaWriteTask} (ht : s'.tracker = s.tracker)
    (hp : s'.sendPolled = s.sendPolled) (hctx : s'.ctx = s.ctx) (hacc : h'.accepted = h.accepted)
    (hch : s'.completionCh = s.completionCh ++ ts) (hus : s'.rdmaWriteCh = s.rdmaWriteCh ++ us)
    (hts : InFlight SendSees (h.ranked, h.base) ts (h.ranked, h'.base))
    (hM : ∀ t ∈ us, ∀ K, MsnView K t K) : SendView s' h' gone merged wait T M L := by
  have hranked : h'.ranked = h.ranked := congrArg (filterMap Accepted.ranked) hacc
  constructor
  · rw [ht, hp]
    exact hv.inv
  · rw [hch, hranked]
    exact hv.sees.append hts
  · rw [hctx, hv.msnAcked]
  · rw [hacc]
    exact hv.window
  · rw [hus]
    exact hv.msns.append (InFlight.of_forall fun t ht => hM t ht _)
  · rw [hacc]
    exact hv.last_le
  · rw [hranked]
    exact hv.rest

theorem near {r : Ranked SendEvent} (hr : r ∈ h.ranked) (hlt : h.base < r.fin) : M ≤ r.msn := by
  obtain ⟨rest, hrest, hL⟩ := hv.rest
  have hT := (SendSees.isPrefix hv.sees).2
  rw [hrest] at hr
  rcases mem_append.1 hr with hr | hr
  · have := hv.inv.done_le r (mem_append_left _ hr)
    omega
  · exact (MsnView.le hv.msns).trans (hL r hr)

theorem newComplete {m : Msn} (hch : s.rdmaWriteCh = .newComplete m :: ch) :
    ∃ M', SendView (s.afterRdmaWrite ch (s.ctx.updateMsnAcked m) {}) h gone merged wait T M' L := by
  have hmsns := hv.msns
  rw [hch] at hmsns
  obtain ⟨M', ⟨hm, hle⟩, hmsns⟩ := hmsns
  have hwin := hv.window
  refine ⟨M', hv.inv, ?_, hm, by omega, hmsns, hv.last_le, hv.rest⟩
  exact hv.sees.append (InFlight.refl _)

theorem skip {task : RdmaWriteTask} {ctx : SendQueueContext} {h' : SendHistory}
    (hch : s.rdmaWriteCh = task :: ch) (htask : ∀ K K', MsnView K task K' → K' = K)
    (hctx : ctx.msnAcked = s.ctx.msnAcked) (hacc : h'.accepted = h.accepted)
    (hbase : h'.base = h.base) : SendView (s.afterRdmaWrite ch ctx {}) h' gone merged wait
    T M L := by
  have hmsns := hv.msns
  rw [hch] at hmsns
  obtain ⟨M', hM', hmsns⟩ := hmsns
  obtain rfl := htask M M' hM'
  have hranked : h'.ranked = h.ranked := congrArg (filterMap Accepted.ranked) hacc
  refine ⟨hv.inv, ?_, hctx.trans hv.msnAcked, hacc ▸ hv.window, hmsns, hacc ▸ hv.last_le, ?_⟩
  · rw [hranked, hbase]
    exact hv.sees.append (InFlight.refl _)
  · rw [hranked]
    exact hv.rest

theorem take {qp : QpAttr} {wr : SendWrRdma} {n : ℕ} {r : RdmaResult}
    (hc : s.Core (2 ^ 23) h) (hs : AcceptedSorted h) (hch : s.rdmaWriteCh = .write wr :: ch)
    (ht : s.ctx.Takes qp wr n r) (hc' : (s.afterRdmaWrite ch (s.ctx.take n) r.2.2).Core (2 ^ 23)
    (h.take wr n)) : SendView (s.afterRdmaWrite ch (s.ctx.take n) r.2.2) (h.take wr n) gone merged
    wait T M L := by
  have hmsns := hv.msns
  rw [hch] at hmsns
  obtain ⟨M', hM', hmsns⟩ := hmsns
  rw [show M' = M from hM'] at hmsns
  have hLM := MsnView.le hmsns
  have hlast := hv.last_le
  have hdist := ht.room.2
  have hwin := hv.window
  have hn : 0 < n := reservedPsns_pos ht.reserved
  rw [hc.msn, hv.msnAcked, maxSendWr] at hdist
  have hdist' := Msn.distance_wrap (a := h.accepted.length) (b := M) (by omega) (by omega)
  obtain ⟨y, hy⟩ : ∃ y : Accepted, y = ⟨h.accepted.length, h.next, n, wr⟩ := ⟨_, rfl⟩
  have hfin : y.fin = (h.take wr n).next := by
    rw [hy]
    rfl
  have hranked : (h.take wr n).ranked = h.ranked ++ y.ranked.toList := by
    rw [SendHistory.take, hy]
    cases hr : (Accepted.mk h.accepted.length h.next n wr).ranked <;> simp [SendHistory.ranked, hr]
  have hevent : sendEvent wr s.ctx.msn (s.ctx.psn + n) = y.event := by
    rw [hc.msn, hc.psn, Psn.wrap_add, hy]
    rfl
  have hbase := hc.base_le_next
  have hwin' := hc'.next_sub_base_le
  have hbase' : (h.take wr n).base = h.base := rfl
  have hnext' : (h.take wr n).next = h.next + n := rfl
  refine ⟨hv.inv, ?_, hv.msnAcked, ?_, hmsns, ?_, ?_⟩
  · rw [Workers.afterRdmaWrite, ht.completion, hevent, hranked]
    refine hv.sees.append ?_
    cases hx : y.ranked with
    | none =>
      have : y.event = none := by rw [← y.map_event_ranked, hx]; rfl
      rw [this, toList_none, append_nil]
      exact InFlight.refl _
    | some x =>
      obtain ⟨hmsn, hfinx, hex⟩ := Accepted.of_mem_ranked hx
      rw [hex]
      refine InFlight.single ⟨x, rfl, rfl, by dsimp only; omega, by dsimp only; omega, ?_⟩
      intro j hj hlt
      have hnear := hv.near hj hlt
      have hjs := hs.of_mem_ranked hj
      have hymsn : y.msn = h.accepted.length := by rw [hy]
      refine ⟨⟨?_, ?_⟩, ?_, ?_⟩ <;> omega
  · rw [SendHistory.take, length_append, length_singleton]
    omega
  · rw [SendHistory.take, length_append]
    omega
  · obtain ⟨rest, hrest, hL⟩ := hv.rest
    refine ⟨rest ++ y.ranked.toList, by rw [hranked, hrest, append_assoc], fun r hr => ?_⟩
    rcases mem_append.1 hr with hr | hr
    · exact hL r hr
    · obtain ⟨hmsn, -⟩ := Accepted.of_mem_ranked (mem_toList.1 hr)
      have hymsn : y.msn = h.accepted.length := by rw [hy]
      omega

theorem polled (hs : AcceptedSorted h)
    {t t' : QueuePairMessageTracker} (u : QueuePairMessageTracker) (out : CompletionOutput)
    {ch : List CompletionTask} {merged₁ wait₁ : List (Ranked SendEvent)} {T₁ : ℤ}
    (hinv : t.SendInv s.sendPolled gone merged₁ wait₁ T₁)
    (hsees : InFlight SendSees (gone ++ merged₁ ++ wait₁, T₁) ch (h.ranked, h.base))
    (hp : t.PolledSend out.send t') (hmerge : u.merge.send = t'.merge.send)
    (hsend : u.send.inner = t'.send.inner) :
    ∃ gone' merged' L', SendView (s.afterCompletion ch u out) h gone' merged' wait₁ T₁ M L' := by
  obtain ⟨ms, merged', rfl, hms, hinv'⟩ := hinv.poll hp
  obtain ⟨⟨new, hnew⟩, -⟩ := SendSees.isPrefix hsees
  obtain ⟨rest, hrest, hL⟩ := hv.rest
  -- the events not polled before are those polled now, those left and those not seen yet
  have hrest' : rest = ms ++ (merged' ++ wait₁ ++ new) := by
    rw [hrest] at hnew
    simp only [append_assoc, append_cancel_left_eq] at hnew ⊢
    exact hnew.symm
  have hsorted := hs.ranked_sorted
  rw [hrest, hrest', pairwise_append] at hsorted
  have hview := inFlight_newComplete (pairwise_append.1 hsorted.2.1).1 fun r hr =>
    hL r (by rw [hrest']; exact mem_append_left _ hr)
  have hN : ∀ r ∈ ms, r.msn ≤ h.accepted.length := fun r hr =>
    (hs.of_mem_ranked (by rw [hrest, hrest']; simp [hr])).1.le
  have hle := lastMsn_le_of_forall hv.last_le hN
  have htasks : out.rdmaWrite =
      ms.map fun r => RdmaWriteTask.newComplete (messageMeta r.event).msn := by
    have := congrArg (map fun e : SendEvent => RdmaWriteTask.newComplete e.messageMeta.msn) hms
    rw [List.map_map, List.map_map] at this
    exact this
  refine ⟨gone ++ ms, merged', lastMsn L ms, hinv'.congr hmerge hsend, ?_, hv.msnAcked,
    hv.window, ?_, hle, merged' ++ wait₁ ++ new, ?_, lastMsn_le hsorted.2.1 (hrest' ▸ hL)⟩
  · rw [append_assoc gone ms merged']
    exact hsees
  · rw [Workers.afterCompletion, htasks]
    exact hv.msns.append hview
  · rw [hrest, hrest', append_assoc gone ms]

theorem runCompletion {qp : QpAttr} (hs : AcceptedSorted h)
    (hset : s.tracker.Settled) {task : CompletionTask} {ch : List CompletionTask}
    {r : QueuePairMessageTracker × CompletionOutput} (hch : s.completionCh = task :: ch)
    (hr : s.tracker.process qp task = some r) : ∃ gone' merged' wait' T' L',
      SendView (s.afterCompletion ch r.1 r.2) h gone' merged' wait' T' M L' := by
  have hsees := hv.sees
  rw [hch] at hsees
  obtain ⟨v, htask, hsees⟩ := hsees
  cases task with
  | register event =>
    cases hr
    -- registering polls nothing
    have hnil : ∀ t : QueuePairMessageTracker, t.merge = s.tracker.merge →
        t.PolledSend ({} : CompletionOutput).send t := fun t ht =>
      ⟨rfl, by simp, by rw [ht]; exact hset, ⟨[], rfl, rfl⟩, rfl⟩
    cases event with
    | send e =>
      obtain ⟨x, rfl, hinv⟩ := hv.inv.register htask
      obtain ⟨gone', merged', L', hv'⟩ := hv.polled hs _ _ hinv hsees (hnil _ rfl) rfl rfl
      exact ⟨gone', merged', _, T, L', hv'⟩
    | recv e =>
      obtain rfl : v = _ := htask
      obtain ⟨gone', merged', L', hv'⟩ := hv.polled hs (s.tracker.append (.recv e)) _ hv.inv hsees
        (hnil _ rfl) rfl rfl
      exact ⟨gone', merged', _, T, L', hv'⟩
    | postRecv e =>
      obtain rfl : v = _ := htask
      obtain ⟨gone', merged', L', hv'⟩ := hv.polled hs (s.tracker.append (.postRecv e)) _
        hv.inv hsees (hnil _ rfl) rfl rfl
      exact ⟨gone', merged', _, T, L', hv'⟩
  | ackSend p =>
    obtain ⟨R, b⟩ := v
    obtain ⟨rfl, hTb, hb, rfl⟩ := htask
    obtain ⟨xs, u, hp, rfl⟩ := process_ackSend hr
    have hinv : (s.tracker.ackSend (Psn.wrap b)).SendInv s.sendPolled gone
        (merged ++ wait.takeWhile (·.fin ≤ b)) (wait.dropWhile (·.fin ≤ b)) b :=
      hv.inv.ackSend hTb hb
    have hsees' : InFlight SendSees (gone ++ (merged ++ wait.takeWhile (·.fin ≤ b)) ++
        wait.dropWhile (·.fin ≤ b), b) ch (h.ranked, h.base) := by
      rw [append_assoc gone, append_assoc merged, takeWhile_append_dropWhile, ← append_assoc]
      exact hsees
    obtain ⟨gone', merged', L', hv'⟩ := hv.polled hs u { send := xs } hinv hsees' hp rfl rfl
    exact ⟨gone', merged', _, b, L', hv'⟩
  | ackRecv p =>
    obtain rfl : v = _ := htask
    obtain ⟨xs, t, ys, u, hp, hrecv, rfl⟩ := process_ackRecv hr
    have hinv : (s.tracker.ackRecv p).SendInv s.sendPolled gone merged wait T := by
      refine hv.inv.congr ?_ rfl
      unfold ackRecv
      dsimp only
      rw [MergeQueue.foldl_pushRecv]
    have hu := hrecv.frame
    obtain ⟨gone', merged', L', hv'⟩ := hv.polled hs u { send := xs, recv := ys } hinv hsees hp
      (by rw [hu]) (by rw [hu])
    exact ⟨gone', merged', _, T, L', hv'⟩

end SendView

variable {s : Workers} {h : SendHistory} {qp : QpAttr} {w : Workers × SendHistory}

theorem inFlight_report_send {m : ReportMeta}
    {r : MetaHandler × MetaOutput} (hr : s.handler.handleMeta m = some r) (hc : s.Core (2 ^ 23) h)
    {h' : SendHistory} (hnext : h'.next = h.next)
    (hbase : h'.base = advance h.base s.handler.send.psnTracker.basePsn
      r.1.send.psnTracker.basePsn) (hc' : (s.afterReport r.1 r.2).Core (2 ^ 23) h') :
    InFlight SendSees (h.ranked, h.base) r.2.completion (h.ranked, h'.base) := by
  have hspec := MetaHandler.handleMeta_spec hr
  have h₁ := hc'.base_le_next
  have h₂ := hc.next_sub_base_le
  rw [hspec.completion]
  refine InFlight.append (b := (h.ranked, h.base)) (InFlight.of_forall fun t ht => ?_) ?_
  · rcases mem_append.1 ht with ht | ht
    · obtain ⟨e, -, rfl⟩ := mem_map.1 (mem_toList.1 ht)
      rfl
    · obtain ⟨p, -, rfl⟩ := mem_map.1 (mem_toList.1 ht)
      rfl
  · cases hack : m.sendAck s.handler with
    | none =>
      rw [hbase, hspec.send, PsnTracker.applyAll_of_none hack, advance_self]
      exact InFlight.refl _
    | some p =>
      have hp : p = Psn.wrap h'.base := by
        rw [← hc'.sound.base, ← PsnTracker.applyAll_of_some hack, ← hspec.send]
        rfl
      refine InFlight.single ⟨hp, ?_, ?_, rfl⟩
      · exact hbase ▸ le_advance _ _ _
      · omega

/-- **Every step keeps the events in order**, where the peer acknowledges only what was sent and the
window is kept. -/
theorem SendOrdered.step {w' : Workers × SendHistory} {l : Label}
    (ho : SendOrdered w.1 w.2) (hok : RoomOk (2 ^ 23) qp w l) (hstep : sendStep qp w l = some w') :
    SendOrdered w'.1 w'.2 := by
  have hcore := ho.core.step le_rfl hok hstep
  obtain ⟨gone, merged, wait, T, M, L, hv⟩ := ho.view
  cases sendFires_of_step hok hstep with
  | idle => exact ho
  | post wr =>
    refine ⟨hcore, ho.sorted, ho.settled, gone, merged, wait, T, M, L,
      hv.send rfl rfl rfl rfl (append_nil _).symm rfl (InFlight.refl _) fun t ht K => ?_⟩
    rw [mem_singleton.1 ht]
    rfl
  | postRecv wrId =>
    exact ⟨hcore, ho.sorted, ho.settled, gone, merged, wait, T, M, L,
      hv.send rfl rfl rfl rfl rfl (append_nil _).symm (InFlight.single rfl) (by simp)⟩
  | @report m r hr =>
    refine ⟨hcore, ⟨ho.sorted.sorted, ho.sorted.msn_lt, ho.sorted.fin_le⟩, ho.settled, gone, merged,
      wait, T, M, L, hv.send rfl rfl rfl rfl rfl rfl (inFlight_report_send hr ho.core rfl rfl hcore)
      ?_⟩
    intro t ht K
    rw [(MetaHandler.handleMeta_spec hr).rdmaWrite] at ht
    rcases mem_append.1 ht with ht | ht
    · cases m <;> simp only [ReportMeta.answer, mem_singleton, not_mem_nil] at ht
      rw [ht]
      rfl
    · obtain ⟨p, -, rfl⟩ := mem_map.1 (mem_toList.1 ht)
      rfl
  | timeout | runRetransmit =>
    exact ⟨hcore, ho.sorted, ho.settled, gone, merged, wait, T, M, L,
      hv.send rfl rfl rfl rfl (append_nil _).symm (append_nil _).symm (InFlight.refl _)
        (by simp)⟩
  | ack hch =>
    exact ⟨hcore, ho.sorted, ho.settled, gone, merged, wait, T, M, L,
      hv.skip hch (fun K K' hK => hK) rfl rfl rfl⟩
  | newComplete hch =>
    obtain ⟨M', hv'⟩ := hv.newComplete hch
    exact ⟨hcore, ho.sorted, ho.settled, gone, merged, wait, T, M', L, hv'⟩
  | refuse hch =>
    exact ⟨hcore, ⟨ho.sorted.sorted, ho.sorted.msn_lt, ho.sorted.fin_le⟩, ho.settled, gone, merged,
      wait, T, M, L, hv.skip hch (fun K K' hK => hK) rfl rfl rfl⟩
  | @take wr ch n r hch ht =>
    exact ⟨hcore, ho.sorted.take wr (reservedPsns_pos ht.reserved), ho.settled, gone, merged, wait,
      T, M, L, hv.take ho.core ho.sorted hch ht hcore⟩
  | runCompletion hch hr =>
    obtain ⟨gone', merged', wait', T', L', hv'⟩ := hv.runCompletion ho.sorted ho.settled hch hr
    exact ⟨hcore, ho.sorted, ho.settled.process hr, gone', merged', wait', T', M, L', hv'⟩

theorem SendOrdered.tracks_report {m : ReportMeta}
    {r : MetaHandler × MetaOutput} (ho : SendOrdered s h) (hr : s.handler.handleMeta m = some r)
    (ht : Tracks s.handler.send.psnTracker h.acked h.base)
    (hex : s.handler.send.psnTracker.Exact (m.sendOps s.handler))
    (hops : ∀ x ∈ calls s.handler.send.psnTracker h.base (m.sendOps s.handler),
      x.2.Below x.1 h.next) :
    Tracks r.1.send.psnTracker (ackedIn (h.acks ++
      calls s.handler.send.psnTracker h.base (m.sendOps s.handler)))
    (advance h.base s.handler.send.psnTracker.basePsn r.1.send.psnTracker.basePsn) := by
  have hwin : h.next - h.base ≤ 2 ^ 23 := ho.core.next_sub_base_le
  rw [ackedIn_append, (MetaHandler.handleMeta_spec hr).send]
  refine ht.applyAll hex ?_
  rintro a (ha | ⟨x, hx, ha⟩)
  · have := ho.core.acked_lt a ha
    omega
  · have := AckOp.below_iff.1 (hops x hx) a ha
    omega

theorem SendOrdered.polled_eq (ho : SendOrdered s h) :
    s.sendPolled.map Prod.fst = (h.ranked.take s.sendPolled.length).map Ranked.event := by
  obtain ⟨gone, merged, wait, T, M, L, hv⟩ := ho.view
  obtain ⟨rest, hrest, -⟩ := hv.rest
  have hlen : s.sendPolled.length = gone.length := by
    simpa using congrArg length hv.inv.gone_eq
  rw [hrest, hlen, take_left, hv.inv.gone_eq]

theorem sendOrdered_init : SendOrdered {} {} where
  core := sendCore_init _ (by norm_num)
  sorted := ⟨List.Pairwise.nil, by simp, by simp⟩
  settled := Or.inl rfl
  view := by
    refine ⟨[], [], [], 0, 0, 0, ⟨rfl, by simp, rfl, rfl, by simp, by simp, List.Pairwise.nil⟩, rfl,
      rfl, by decide, rfl, le_rfl, [], rfl, by simp⟩

/-! ## Runs in which every request is accepted -/

/-- The steps of a run in which no send completion is lost: the peer acknowledges only what was
sent, in reports that keep the tracker exact, and the write worker is given requests it accepts. -/
def SendOk (qp : QpAttr) (w : Workers × SendHistory) : Label → Prop
  | .report m =>
    (∀ x ∈ calls w.1.handler.send.psnTracker w.2.base (m.sendOps w.1.handler),
      x.2.Below x.1 w.2.next) ∧ w.1.handler.send.psnTracker.Exact (m.sendOps w.1.handler)
  | .runRdmaWrite => ∀ wr ∈ w.1.nextRequest, Accepts qp w.1.ctx wr
  | _ => True

instance (qp : QpAttr) (w : Workers × SendHistory) : (l : Label) → Decidable (SendOk qp w l)
  | .report _ | .runRdmaWrite | .post _ | .postRecv _ | .timeout | .runRetransmit
      | .runCompletion => by
    dsimp only [SendOk]
    infer_instance

theorem SendOk.coreOk {l : Label} (h : SendOk qp w l) : CoreOk (2 ^ 23) qp w l := by
  cases l with
  | report m => exact h.1
  | runRdmaWrite =>
    intro wr hwr
    refine ⟨(h wr hwr).registers, fun n hn => ?_⟩
    have := (h wr hwr).psnWindow n hn
    exact_mod_cast this
  | post | postRecv | timeout | runRetransmit | runCompletion => trivial

/-- The request was sent. -/
def Accepted.Sent (qp : QpAttr) (s : Workers) (y : Accepted) : Prop :=
  ∃ c cs, firstChunks qp y.wr (Msn.wrap y.msn) (Psn.wrap y.start) = some (c :: cs) ∧
    ∀ x ∈ c :: cs, x ∈ s.sent

theorem Accepted.Sent.mono {s' : Workers} {y : Accepted} (h : y.Sent qp s) (hs : s.sent ⊆ s'.sent) :
    y.Sent qp s' := by
  obtain ⟨c, cs, hcs, hmem⟩ := h
  exact ⟨c, cs, hcs, fun x hx => hs (hmem x hx)⟩

structure SendSafe (qp : QpAttr) (s : Workers) (h : SendHistory) :
    Prop extends SendOrdered s h where
  tracks : Tracks s.handler.send.psnTracker h.acked h.base
  given : h.accepted.map Accepted.wr = h.given
  sent : ∀ y ∈ h.accepted, y.Sent qp s

/-- **Every step keeps the send side safe.** -/
theorem SendSafe.step {w' : Workers × SendHistory} {l : Label}
    (hs : SendSafe qp w.1 w.2) (hok : SendOk qp w l) (hstep : sendStep qp w l = some w') :
    SendSafe qp w'.1 w'.2 := by
  have ho := hs.toSendOrdered.step hok.coreOk.roomOk hstep
  obtain ⟨s, h⟩ := w
  cases sendFires_of_step hok.coreOk.roomOk hstep with
  | idle => exact hs
  | post | postRecv | timeout | runCompletion => exact ⟨ho, hs.tracks, hs.given, hs.sent⟩
  | report hr => exact ⟨ho, hs.toSendOrdered.tracks_report hr hs.tracks hok.2 hok.1,
      hs.given, hs.sent⟩
  | ack | newComplete | runRetransmit =>
    exact ⟨ho, hs.tracks, hs.given, fun y hy => (hs.sent y hy).mono (subset_append_left _ _)⟩
  | @refuse wr ch r hch hr hrefuse =>
    -- a request that is accepted is not refused
    obtain ⟨n, r', hr', ht⟩ := post_of_accepts (hok wr (by simp [Workers.nextRequest, hch]))
    obtain rfl := some.inj (hr.symm.trans hr')
    obtain ⟨e, rfl⟩ := hrefuse
    cases ht.ok
  | @take wr ch n r hch ht =>
    have hacc := hok wr (by simp [Workers.nextRequest, hch])
    refine ⟨ho, hs.tracks, ?_, fun y hy => ?_⟩
    · change (h.accepted ++ [_]).map Accepted.wr = h.given ++ [wr]
      rw [map_append, hs.given]
      rfl
    · rcases mem_append.1 hy with hy | hy
      · exact (hs.sent y hy).mono (subset_append_left _ _)
      · rw [mem_singleton.1 hy]
        have hchunks := ht.chunks
        obtain ⟨c, cs, hcs⟩ := hacc.exists_firstChunks s.ctx.msn s.ctx.psn
        rw [hcs] at hchunks
        rw [hs.core.msn, hs.core.psn] at hcs
        refine ⟨c, cs, hcs, fun x hx => mem_append_right _ ?_⟩
        rw [← some.inj hchunks]
        exact hx

theorem sendSafe_init : SendSafe qp {} {} where
  toSendOrdered := sendOrdered_init
  tracks := by
    have := tracks_default
    rwa [← ackedIn_nil] at this
  given := rfl
  sent y hy := absurd hy not_mem_nil

/-- What a signaled request is to complete with: the completion of its kind, with its identifier. -/
def SendWrRdma.expected (wr : SendWrRdma) : Option Completion :=
  if wr.signaled then
    match wr.opcode with
    | .rdmaWrite | .rdmaWriteWithImm => some (.rdmaWrite wr.wrId)
    | .send | .sendWithImm => some (.send wr.wrId)
    | .rdmaRead => some (.rdmaRead wr.wrId)
    | _ => none
  else none

theorem Accepted.map_completion_event (y : Accepted) :
    y.event.map SendEvent.completion = y.wr.expected := by
  rw [event, sendEvent, SendWrRdma.expected]
  split
  · cases y.wr.opcode <;> rfl
  · rfl

/-- **Send completions**: every request given to the write worker was sent; the completions are
those of the signaled requests, in the order they were taken, each once with its kind and identifier
and only when all numbers up to its end were acknowledged; once the completion worker has no tasks,
a signaled request whose numbers were all acknowledged is completed, unless a read at or before it
still waits for its response; and the worker can take its next task. -/
structure SendsComplete (qp : QpAttr) (s : Workers) (h : SendHistory) : Prop where
  sent : h.accepted.map Accepted.wr = h.given ∧ ∀ y ∈ h.accepted, y.Sent qp s
  completed : ∃ ys zs, h.accepted = ys ++ zs ∧
    s.sendPolled = ys.filterMap (fun y => y.event.map fun e => (e, e.completion)) ∧
    s.sendCq = ys.filterMap (fun y => y.wr.expected) ∧
    (∀ y ∈ ys, y.event.isSome → y.fin ≤ h.base ∧ ∀ a, 0 ≤ a → a < y.fin → a ∈ h.acked) ∧
    (s.completionCh = [] → ∀ y ∈ zs, y.event.isSome → (∀ a, 0 ≤ a → a < y.fin → a ∈ h.acked) →
      (∃ e ∈ (zs.filterMap Accepted.event).head?, e.op = .readSignaled) ∧
        s.tracker.merge.recvReadResp = [])
  progress : ∀ task ∈ s.completionCh.head?, (∀ p, task ≠ .ackRecv p) →
    (s.tracker.process qp task).isSome

theorem filterMap_event (ys : List Accepted) :
    ys.filterMap Accepted.event = (ys.filterMap Accepted.ranked).map Ranked.event := by
  rw [map_filterMap]
  exact congrArg (filterMap · ys) (funext fun y => y.map_event_ranked.symm)

theorem eq_map_completion {xs : List (SendEvent × Completion)}
    (h : ∀ x ∈ xs, x.2 = x.1.completion) :
    xs = (xs.map Prod.fst).map fun e => (e, e.completion) := by
  rw [List.map_map]
  refine (List.map_id xs).symm.trans (List.map_congr_left fun x hx => ?_)
  rw [Function.comp_apply, ← h x hx]
  rfl

theorem SendOrdered.completed (ho : SendOrdered s h) : ∃ ys zs, h.accepted = ys ++ zs ∧
      s.sendPolled = ys.filterMap fun y => y.event.map fun e => (e, e.completion) := by
  obtain ⟨gone, merged, wait, T, M, L, hv⟩ := ho.view
  obtain ⟨rest, hrest, -⟩ := hv.rest
  obtain ⟨ys, zs, hyz, hys, -⟩ := filterMap_eq_append_iff.1 hrest
  refine ⟨ys, zs, hyz, ?_⟩
  rw [eq_map_completion hv.inv.completion, hv.inv.gone_eq, ← hys, ← filterMap_event, map_filterMap]

theorem SendSafe.completes (hcq : qp.sendCq.isSome) (hs : SendSafe qp s h) :
    SendsComplete qp s h := by
  obtain ⟨gone, merged, wait, T, M, L, hv⟩ := hs.view
  obtain ⟨rest, hrest, -⟩ := hv.rest
  obtain ⟨ys, zs, hyz, hys, hzs⟩ := filterMap_eq_append_iff.1 hrest
  have hT := (SendSees.isPrefix hv.sees).2
  have hpolled : s.sendPolled = ys.filterMap fun y => y.event.map fun e => (e, e.completion) := by
    rw [eq_map_completion hv.inv.completion, hv.inv.gone_eq, ← hys, ← filterMap_event,
      map_filterMap]
  refine ⟨⟨hs.given, hs.sent⟩, ⟨ys, zs, hyz, hpolled, ?_, fun y hy he => ?_,
    fun hch y hy he hacked => ?_⟩, ?_⟩
  · rw [Workers.sendCq, hpolled, map_filterMap]
    refine congrArg (filterMap · ys) (funext fun y => ?_)
    rw [Option.map_map, ← y.map_completion_event]
    rfl
  · obtain ⟨r, hr⟩ := Accepted.exists_ranked he
    have hmem : r ∈ gone := hys ▸ mem_filterMap.2 ⟨y, hy, hr⟩
    have hle := hv.inv.done_le r (mem_append_left _ hmem)
    have hfin := (Accepted.of_mem_ranked hr).2.1
    exact ⟨by omega, fun a h₀ h₁ => hs.tracks.below a h₀ (by omega)⟩
  · -- the numbers before the end are acknowledged, so the base has reached it and the event was popped
    have hsees := hv.sees
    rw [hch] at hsees
    obtain ⟨hR, hb⟩ := Prod.mk.inj (InFlight.nil_iff.1 hsees)
    have hfin : y.fin ≤ h.base := by
      by_contra hlt
      exact hs.tracks.isFrontier.notMem (hacked _ hs.tracks.nonneg (by omega))
    obtain ⟨r, hr⟩ := Accepted.exists_ranked he
    have hrest' : rest = merged ++ wait := by
      rw [hrest, append_assoc, append_cancel_left_eq] at hR
      exact hR.symm
    have hmem : r ∈ merged ++ wait := by
      rw [← hrest', ← hzs]
      exact mem_filterMap.2 ⟨y, hy, hr⟩
    have hmerged : r ∈ merged := by
      rcases mem_append.1 hmem with hmem | hmem
      · exact hmem
      · have := (hv.inv.lt_wait r hmem).1
        have := (Accepted.of_mem_ranked hr).2.1
        omega
    have hne : s.tracker.merge.send ≠ [] := by
      rw [hv.inv.merged_eq, Ne, map_eq_nil_iff]
      exact ne_nil_of_mem hmerged
    obtain ⟨⟨e, hhead, hop⟩, hresp⟩ := hs.settled.resolve_left hne
    refine ⟨⟨e, ?_, hop⟩, hresp⟩
    rw [filterMap_event, hzs, hrest', map_append, head?_append, ← hv.inv.merged_eq]
    rw [mem_def.1 hhead]
    rfl
  · intro task htask hrecv
    cases task with
    | register => rfl
    | ackSend p => simp [QueuePairMessageTracker.process, hcq]
    | ackRecv p => exact absurd rfl (hrecv p)

/-- **In every run whose requests are accepted and whose reports are exact, every signaled request
completes once, in order, after its numbers were acknowledged.** -/
theorem run_sendsComplete {qp : QpAttr} (hcq : qp.sendCq.isSome) {ls : List Label}
    {w : Workers × SendHistory} (h : Run (sendStep qp) (SendOk qp) ({}, {}) ls w) :
    SendsComplete qp w.1 w.2 :=
  (h.invariant (I := fun _ w => SendSafe qp w.1 w.2) sendSafe_init
    fun _ _ _ _ hs hok hstep => hs.step hok hstep).completes hcq

/-- Two signaled writes of one packet; the peer acknowledges the first, and then both. -/
def twoWrites : List Label :=
  [.post samplePacket, .post samplePacket, .runRdmaWrite, .runRdmaWrite,
    .report (.ackRemoteDriver 1), .report (.ackRemoteDriver 2), .runCompletion, .runCompletion,
    .runCompletion, .runCompletion]

/-- Both writes complete. -/
theorem run_sendsComplete_two_writes :
    ∃ w, Run (sendStep sampleAttr) (SendOk sampleAttr) ({}, {}) twoWrites w ∧
      w.1.sendCq = [.rdmaWrite samplePacket.wrId, .rdmaWrite samplePacket.wrId] ∧
      SendsComplete sampleAttr w.1 w.2 :=
  ⟨_, .of_isSome (by decide +kernel), by decide +kernel, run_sendsComplete rfl (.of_isSome _)⟩

/-- A signaled write of more packets than the window has. -/
def hugeWrite : SendWrRdma := sampleWr .rdmaWrite 0x2000 (2 ^ 31 + 256) sampleRaddr_lt (by decide)

/-- A signaled write that does not fit the window disappears: nothing is sent, no event is
registered and no worker has anything left to do. -/
theorem run_loses_request :
    ∃ w, Run (sendStep sampleAttr) (fun _ _ => True) ({}, {}) [.post hugeWrite, .runRdmaWrite] w ∧
      hugeWrite.signaled = true ∧ w.2.given = [hugeWrite] ∧ w.1.Quiescent ∧ w.1.sent = [] ∧
      w.1.sendCq = [] ∧ ¬ SendsComplete sampleAttr w.1 w.2 :=
  ⟨_, .of_isSome (by decide +kernel), rfl, by decide +kernel,
    ⟨by decide +kernel, by decide +kernel, by decide +kernel⟩, by decide +kernel, by decide +kernel,
    fun hc => absurd hc.sent.1 (by decide +kernel)⟩

end OpenRdma.Driver
