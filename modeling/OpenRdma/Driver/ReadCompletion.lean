import OpenRdma.Driver.RecvCompletion
import OpenRdma.Driver.SendCompletion

/-!
# The completion of reads

A signaled read completes when its request was acknowledged and a read response was received; which
read a response answers is decided by their order alone. In a run in which the responses answer the
signaled reads in the order the reads were posted, a read completes only after its own response
arrived (`ReadSafe.readsAnswered`). An unsignaled read has a response and no completion, and its
response completes the next signaled read.
-/

namespace OpenRdma.Driver

open Channel EventMeta SendQueueContext List Option

variable {tr : Traffic} {qp : QpAttr} {s : Workers} {hs : SendHistory} {hr : RecvHistory}
variable {w w' : Workers × SendHistory × RecvHistory} {l : RecvLabel}

/-! ## Both sides -/

/-- A step of the workers that records the history of both sides. -/
def linkStep (tr : Traffic) (qp : QpAttr) (w : Workers × SendHistory × RecvHistory)
    (l : RecvLabel) : Option (Workers × SendHistory × RecvHistory) :=
  match l.label tr with
  | none => some (w.1, w.2.1, w.2.2.record tr w.1 w.1 l)
  | some l' => (w.1.step qp l').map fun s' =>
      (s', w.2.1.record qp w.1 s' l', w.2.2.record tr w.1 s' l)

theorem recvStep_of_linkStep (h : linkStep tr qp w l = some w') :
    recvStep tr qp (w.1, w.2.2) l = some (w'.1, w'.2.2) := by
  unfold linkStep at h
  unfold recvStep
  cases hl : l.label tr with
  | none =>
    simp only [hl] at h ⊢
    rw [← some.inj h]
  | some l' =>
    simp only [hl] at h ⊢
    obtain ⟨s', hs', rfl⟩ := map_eq_some_iff.1 h
    exact map_eq_some_iff.2 ⟨s', hs', rfl⟩

theorem sendStep_of_linkStep (h : linkStep tr qp w l = some w') :
    l.label tr = none ∧ w'.1 = w.1 ∧ w'.2.1 = w.2.1 ∨
      ∃ l', l.label tr = some l' ∧ sendStep qp (w.1, w.2.1) l' = some (w'.1, w'.2.1) := by
  unfold linkStep at h
  split at h
  · rename_i hl
    rw [← some.inj h]
    exact Or.inl ⟨hl, rfl, rfl⟩
  · rename_i l' hl
    obtain ⟨s', hs', rfl⟩ := map_eq_some_iff.1 h
    exact Or.inr ⟨l', hl, map_eq_some_iff.2 ⟨s', hs', rfl⟩⟩

/-! ## Reads and responses -/

/-- The request is a signaled read. -/
def Accepted.IsRead (y : Accepted) : Prop := y.wr.signaled ∧ y.wr.opcode = .rdmaRead

instance (y : Accepted) : Decidable y.IsRead := inferInstanceAs (Decidable (_ ∧ _))

/-- The signaled reads among some requests. -/
def reads (ys : List Accepted) : List Accepted := ys.filter (·.IsRead)

/-- The request a message answers. -/
def MessageKind.request : MessageKind → Option ℕ
  | .readResp request => some request
  | _ => none

/-- The message is a read response. -/
def Traffic.isResp (tr : Traffic) (i : ℕ) : Bool := (tr i).kind.isReadResp

/-- The number of read responses before message `i`. -/
def Traffic.respIndex (tr : Traffic) (i : ℕ) : ℕ := (List.range i).countP tr.isResp

/-- The message answers the signaled read at its place, if it is a read response. -/
def AnswersInOrder (tr : Traffic) (hs : SendHistory) (i : ℕ) : Prop :=
  ∀ q ∈ (tr i).kind.request, ((reads hs.accepted)[tr.respIndex i]?).map Accepted.msn = some q

instance (tr : Traffic) (hs : SendHistory) (i : ℕ) : Decidable (AnswersInOrder tr hs i) :=
  inferInstanceAs (Decidable (∀ q ∈ (tr i).kind.request, _))

/-- Both sides are safe, with the headers of read responses before their acknowledgement. -/
def LinkOk (tr : Traffic) (qp : QpAttr) (w : Workers × SendHistory × RecvHistory) (l : RecvLabel) :
    Prop :=
  RecvOk tr tr.isResp (w.1, w.2.2) l ∧ ∀ l' ∈ l.label tr, CoreOk (2 ^ 23) qp (w.1, w.2.1) l'

instance (tr : Traffic) (qp : QpAttr) (w : Workers × SendHistory × RecvHistory) (l : RecvLabel) :
    Decidable (LinkOk tr qp w l) :=
  inferInstanceAs (Decidable (_ ∧ ∀ l' ∈ l.label tr, CoreOk (2 ^ 23) qp (w.1, w.2.1) l'))

/-- The steps of a run in which reads complete with their own responses: both sides are safe, and a
read response, when its end is reported, answers the signaled read at its place. -/
def ReadOk (tr : Traffic) (qp : QpAttr) (w : Workers × SendHistory × RecvHistory) (l : RecvLabel) :
    Prop :=
  LinkOk tr qp w l ∧
    match l with
    | .header i j _ => tr.Registers i j → AnswersInOrder tr w.2.1 i
    | _ => True

instance (tr : Traffic) (qp : QpAttr) (w : Workers × SendHistory × RecvHistory) :
    (l : RecvLabel) → Decidable (ReadOk tr qp w l)
  | .header .. | .arrive _ | .other _ => by
    dsimp only [ReadOk]
    infer_instance

theorem Accepted.event_op (y : Accepted) : (∃ e, y.event = some e ∧ e.op = .readSignaled) ↔
    y.IsRead := by
  unfold Accepted.event sendEvent Accepted.IsRead
  split_ifs with hsig
  · cases y.wr.opcode <;> simp [hsig, eventOp, writeEventOp]
  · simp [hsig]

theorem countP_reads (ys : List Accepted) :
    (ys.filterMap fun y => y.event.map fun e => (e, e.completion)).countP
      (·.1.op = .readSignaled) = (reads ys).length := by
  induction ys with
  | nil => rfl
  | cons y ys ih =>
    have hop := y.event_op
    unfold reads at ih ⊢
    rw [filterMap_cons, filter_cons]
    cases he : y.event with
    | none =>
      have hread : ¬ y.IsRead := fun h => by
        obtain ⟨e, he', -⟩ := hop.2 h
        rw [he] at he'
        cases he'
      rw [if_neg (by simpa using hread)]
      exact ih
    | some e =>
      have hiff : e.op = .readSignaled ↔ y.IsRead := by
        rw [← hop, he]
        simp
      by_cases hread : y.IsRead
      · simp [hread, hiff.2 hread, ih]
      · simp [hread, mt hiff.1 hread, ih]

/-! ## Runs -/

theorem SendHistory.accepted_prefix_record {s' : Workers} (h : SendHistory) (l : Label) :
    h.accepted <+: (h.record qp s s' l).accepted := by
  unfold record
  split
  · exact prefix_rfl
  · split
    · unfold give
      split
      · exact prefix_append _ _
      · exact prefix_rfl
    · exact prefix_rfl
  · exact prefix_rfl

theorem AnswersInOrder.mono {i : ℕ} {hs' : SendHistory} (h : AnswersInOrder tr hs i)
    (hle : hs.accepted <+: hs'.accepted) : AnswersInOrder tr hs' i := by
  intro q hq
  obtain ⟨y, hy, rfl⟩ := map_eq_some_iff.1 (h q hq)
  obtain ⟨zs, hzs⟩ := hle
  have : reads hs'.accepted = reads hs.accepted ++ reads zs := by
    rw [← hzs]
    exact filter_append _ _
  rw [this, List.getElem?_append_left (List.getElem?_eq_some_iff.1 hy).1, hy]
  rfl

/-- The invariant of both sides: a registered response answers the signaled read at its place. -/
structure ReadSafe (tr : Traffic) (s : Workers) (hs : SendHistory) (hr : RecvHistory) : Prop where
  send : SendOrdered s hs
  recv : RecvSafe tr tr.isResp s hr
  answers : ∀ i ∈ hr.registered, AnswersInOrder tr hs i

/-- **Every step keeps both sides safe and the responses in order.** -/
theorem ReadSafe.step
    (h : ReadSafe tr w.1 w.2.1 w.2.2) (hok : ReadOk tr qp w l)
    (hstep : linkStep tr qp w l = some w') : ReadSafe tr w'.1 w'.2.1 w'.2.2 := by
  have hrecv := h.recv.step hok.1.1 (recvStep_of_linkStep hstep)
  have hsend : SendOrdered w'.1 w'.2.1 ∧ w.2.1.accepted <+: w'.2.1.accepted := by
    rcases sendStep_of_linkStep hstep with ⟨-, h₁, h₂⟩ | ⟨l', hl', hstep'⟩
    · rw [h₁, h₂]
      exact ⟨h.send, prefix_rfl⟩
    · refine ⟨h.send.step (hok.1.2 l' hl').roomOk hstep', ?_⟩
      obtain ⟨s', -, heq⟩ := map_eq_some_iff.1 hstep'
      rw [← (Prod.mk.inj heq).2]
      exact SendHistory.accepted_prefix_record _ _
  have hregistered : ∀ i ∈ w'.2.2.registered, i ∈ w.2.2.registered ∨ AnswersInOrder tr w.2.1 i := by
    intro i hi
    cases l with
    | arrive a =>
      cases hstep
      exact Or.inl hi
    | header k j isRetry =>
      obtain ⟨s', -, rfl⟩ := map_eq_some_iff.1 hstep
      rcases mem_append.1 hi with hi | hi
      · exact Or.inl hi
      · split_ifs at hi with hreg
        · rw [mem_singleton.1 hi]
          exact Or.inr (hok.2 hreg)
        · cases hi
    | other l =>
      obtain ⟨s', -, rfl⟩ := map_eq_some_iff.1 hstep
      cases l <;> exact Or.inl hi
  refine ⟨hsend.1, hrecv, fun i hi => ?_⟩
  exact ((hregistered i hi).elim (h.answers i) id).mono hsend.2

theorem readSafe_init (tr : Traffic) : ReadSafe tr {} {} {} :=
  ⟨sendOrdered_init, recvSafe_init tr _, by simp⟩

/-- **Reads complete with their own responses**: the completions are those of the first signaled
requests, in the order they were taken, and for each completed read there is a response to this
request all of whose packets arrived, with all packets before them. -/
def ReadsAnswered (tr : Traffic) (s : Workers) (hs : SendHistory) (hr : RecvHistory) : Prop :=
  ∃ ys zs, hs.accepted = ys ++ zs ∧
    s.sendPolled = ys.filterMap (fun y => y.event.map fun e => (e, e.completion)) ∧
    ∀ y ∈ ys, y.IsRead → ∃ i, (tr i).kind = .readResp y.msn ∧ ∀ a < tr.fin i, a ∈ hr.arrived

theorem RecvView.respIndex {popped wait reg : List ℕ} {T : ℤ}
    (hv : RecvView tr tr.isResp s hr popped wait reg T) {A B : List ℕ} {i : ℕ}
    (hsplit : popped.filter tr.isResp = A ++ i :: B) : tr.respIndex i = A.length := by
  have hsorted := hv.inv.popped_sorted.filter tr.isResp
  rw [hsplit, pairwise_append, pairwise_cons] at hsorted
  obtain ⟨hA, ⟨hB, -⟩, hAB⟩ := hsorted
  have hmem : ∀ k, k ∈ A ++ i :: B ↔ k ∈ popped ∧ tr.isResp k := fun k => by
    rw [← hsplit, mem_filter]
  have hi := (hmem i).1 (by simp)
  have heq : A = (range i).filter tr.isResp := by
    refine hA.eq_of_mem_iff (pairwise_lt_range.filter _) fun k => ?_
    rw [mem_filter, mem_range]
    constructor
    · intro hk
      exact ⟨hAB k hk i mem_cons_self, ((hmem k).1 (mem_append_left _ hk)).2⟩
    · rintro ⟨hki, hk⟩
      have hT := hv.inv.popped_le i hi.1
      have hfin := tr.fin_strictMono hki
      have hk' := (hmem k).2 ⟨hv.must_mem k hk (by omega), hk⟩
      rcases mem_append.1 hk' with hk' | hk'
      · exact hk'
      · rcases mem_cons.1 hk' with rfl | hk'
        · omega
        · have := hB k hk'
          omega
  rw [Traffic.respIndex, countP_eq_length_filter, ← heq]

theorem ReadSafe.readsAnswered (h : ReadSafe tr s hs hr) : ReadsAnswered tr s hs hr := by
  obtain ⟨ys, zs, hyz, hpolled⟩ := h.send.completed
  refine ⟨ys, zs, hyz, hpolled, fun y hy hread => ?_⟩
  obtain ⟨popped, wait, reg, T, hv⟩ := h.recv.view
  obtain ⟨used, hused, hlen⟩ := hv.inv.resp
  rw [hpolled, countP_reads] at hlen
  -- the read is the `k`-th signaled one, and the `k`-th response was used up
  have hmem : y ∈ reads ys := mem_filter.2 ⟨hy, decide_eq_true hread⟩
  obtain ⟨k, hk, hyk⟩ := getElem_of_mem hmem
  have hk' : k < (popped.filter tr.isResp).length := by
    have := congrArg length hused
    rw [length_map, length_append] at this
    change (popped.filter tr.isResp).length = _ at this
    omega
  have hsplit : popped.filter tr.isResp = (popped.filter tr.isResp).take k ++
      (popped.filter tr.isResp)[k] :: (popped.filter tr.isResp).drop (k + 1) := by
    rw [getElem_cons_drop, take_append_drop]
  obtain ⟨i, hi⟩ : ∃ i, i = (popped.filter tr.isResp)[k] := ⟨_, rfl⟩
  rw [← hi] at hsplit
  have hindex := hv.respIndex hsplit
  rw [length_take_of_le hk'.le] at hindex
  have himem := mem_filter.1 (hi ▸ getElem_mem hk')
  obtain ⟨hT, hreg⟩ := RecvSees.mono hv.sees
  have hans := h.answers i (hreg ((hv.mem i).2 (Or.inl himem.1)))
  obtain ⟨q, hq⟩ : ∃ q, (tr i).kind = .readResp q := by
    have := himem.2
    unfold Traffic.isResp MessageKind.isReadResp at this
    split at this
    · exact ⟨_, ‹_›⟩
    · cases this
  refine ⟨i, ?_, fun a ha => h.recv.core.arrived_of_lt ?_⟩
  · have := hans q (by rw [hq]; rfl)
    have hy' : (reads hs.accepted)[k]? = some y := by
      have : reads hs.accepted = reads ys ++ reads zs := by
        rw [hyz]
        exact filter_append _ _
      rw [this, List.getElem?_append_left hk, getElem?_eq_getElem hk, hyk]
    rw [hindex, hy'] at this
    rw [hq, ← some.inj this]
  · have := hv.inv.popped_le i himem.1
    omega

/-- **In every run in which both sides are safe and the responses answer the signaled reads in
order, a read completes only after its own response arrived.** -/
theorem run_readsAnswered {ls : List RecvLabel} {w : Workers × SendHistory × RecvHistory}
    (hrun : Run (linkStep tr qp) (ReadOk tr qp) ({}, {}, {}) ls w) :
    ReadsAnswered tr w.1 w.2.1 w.2.2 :=
  (hrun.invariant (I := fun _ w => ReadSafe tr w.1 w.2.1 w.2.2) (readSafe_init tr)
    fun _ _ _ _ hs hok hstep => hs.step hok hstep).readsAnswered

/-- The peer answers the requests in order, each with one packet. -/
def respTraffic : Traffic := fun i => ⟨.readResp i, 1, false, Nat.one_pos, by simp⟩

def sampleRead : SendWrRdma := sampleWr .rdmaRead 0x2000 256 sampleRaddr_lt sampleLength_lt

/-- The read without a completion. -/
def unsignaledRead : SendWrRdma :=
  { sampleRead with base := { sampleRead.base with sendFlags := 0 } }

/-- Two reads are posted and acknowledged, and the response to the first arrives. -/
def firstResponse (wr : SendWrRdma) : List RecvLabel :=
  [.other (.post wr), .other (.post sampleRead), .other .runRdmaWrite, .other .runRdmaWrite,
    .arrive 0, .header 0 0 false, .other (.report (.ackLocalHw 0 1)),
    .other (.report (.ackRemoteDriver 2))] ++ List.replicate 6 (.other .runCompletion)

/-- The first of two signaled reads completes with its response. -/
theorem run_readsAnswered_first :
    ∃ w, Run (linkStep respTraffic sampleAttr) (ReadOk respTraffic sampleAttr) ({}, {}, {})
        (firstResponse sampleRead) w ∧
      w.1.sendCq = [.rdmaRead 7] ∧ ReadsAnswered respTraffic w.1 w.2.1 w.2.2 :=
  ⟨_, .of_isSome (by decide +kernel), by decide +kernel, run_readsAnswered (.of_isSome _)⟩

/-- After an unsignaled read, the signaled read completes with the response to the first, though no
packet of its own response arrived. -/
theorem run_read_completes_early :
    ∃ w, Run (linkStep respTraffic sampleAttr) (LinkOk respTraffic sampleAttr) ({}, {}, {})
        (firstResponse unsignaledRead) w ∧
      w.1.sendCq = [.rdmaRead 7] ∧ w.2.2.arrived = [0] ∧
      ¬ ReadsAnswered respTraffic w.1 w.2.1 w.2.2 := by
  refine ⟨_, .of_isSome (by decide +kernel), by decide +kernel, by decide +kernel, ?_⟩
  rintro ⟨ys, zs, hyz, hpolled, hans⟩
  replace hyz : [⟨0, 0, 1, unsignaledRead⟩, ⟨1, 1, 1, sampleRead⟩] = ys ++ zs :=
    .trans (by decide +kernel) hyz
  have hlen := (congrArg length hpolled).symm.trans (by decide +kernel : _ = 1)
  -- the unsignaled read has no completion, so the one polled is that of the second read
  have hlast : (⟨1, 1, 1, sampleRead⟩ : Accepted) ∈ ys := by
    rcases ys with _ | ⟨y, _ | ⟨z, ys⟩⟩
    · cases hlen
    · obtain rfl := (cons.inj hyz).1
      cases hlen
    · rw [(cons.inj (cons.inj hyz).2).1]
      simp
  obtain ⟨i, hkind, hall⟩ := hans _ hlast (by decide)
  obtain rfl : i = 1 := MessageKind.readResp.inj hkind
  exact absurd (hall 1 (by decide)) (by decide +kernel)

end OpenRdma.Driver
