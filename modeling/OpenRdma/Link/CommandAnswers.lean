import OpenRdma.Foundations.Run
import OpenRdma.Link.CommandDispatch

/-!
# Commands are answered

Every step of the dispatcher and of what is around it takes a request closer to its response, so the
system comes to rest. It rests with all requests answered, unless there are two for the buffer of
raw packets: the second one waits for room in a queue that nothing empties, and the driver waits for
its response. Where a storage of the generator of acknowledgements takes no more resets, four more
requests for queue pairs fill the queues to it.
-/

namespace OpenRdma.Link

open OpenRdma.Driver OpenRdma.Rtl List Option

namespace CmdSystem

variable {room : ResetStorage → Option ℕ}
variable {s s' : CmdSystem} {ls : List CmdLabel} {l : CmdLabel} {done : List RawDesc}

/-! ## Coming to rest -/

/-- The number of steps that are left at most: those of a request, and of a reset, from each of the
queues it passes. -/
def measure (s : CmdSystem) : ℕ :=
  20 * s.reqRing.length + 19 * s.descFragsPipeOut.length + 10 * s.mrAndPgtReqQ.length +
    9 * s.mrAndPgtServer.length + 8 * s.mrAndPgtRespQ.length + 10 * s.qpcReqQ.length +
    9 * s.qpcServer.length + 8 * s.qpcRespQ.length + 4 * s.qpResetReqPipeOutQ.length + 3 *
    s.resetReqPipeInQueue.length + (s.resetReqPipeInQ .bitmap).length +
    (s.resetReqPipeInQ .autoAckMeta).length + s.setNetworkParamPipeOutQ.length + 3 *
    s.descFragQ.length + 2 * s.ringbufQ.length + s.respRing.length

theorem measure_dispatch (hs : s.dispatchRingbufRequestDescriptors = some s') :
    s'.measure < s.measure := by
  rw [dispatchRingbufRequestDescriptors] at hs
  split at hs
  · cases hs
  · next hq =>
    obtain ⟨-, hs⟩ := ite_none_right_eq_some.1 hs
    split at hs
    case h_6 =>
      cases hs
      simp only [measure, hq, length_cons]
      omega
    all_goals
      obtain ⟨-, rfl⟩ := ite_some_none_eq_some.1 hs
      simp only [measure, respond, hq, length_append, length_cons, length_nil]
      omega

theorem measure_gather (hs : s.gatherResponse = some s') : s'.measure < s.measure := by
  obtain ⟨-, hs⟩ := ite_none_right_eq_some.1 hs
  split at hs
  · next hr =>
    split at hs
    · cases hs
    · cases hs
      simp only [measure, respond, hr, length_append, length_cons, length_nil]
      omega
  · split at hs
    · next hr _ =>
      cases hs
      simp only [measure, respond, hr, length_append, length_cons, length_nil]
      omega
    · cases hs

theorem length_fill_le (p : ReadProxy) (raw : RawDesc) :
    (p.fillAllReqSegments raw).2.toList.length ≤ 1 := by
  rw [ReadProxy.fillAllReqSegments]
  split
  · exact Nat.zero_le 1
  · exact Nat.le_refl 1

theorem measure_lt (hl : l.Own) (hs : s.step l = some s') : s'.measure < s.measure := by
  cases l with
  | push raw => exact absurd rfl (hl raw)
  | dispatchRingbufRequestDescriptors => exact measure_dispatch hs
  | gatherResponse => exact measure_gather hs
  | fillAllReqSegments =>
    rw [step] at hs
    split at hs
    · cases hs
    · next raw raws hq =>
      obtain ⟨-, hs⟩ := ite_none_right_eq_some.1 hs
      obtain rfl : { s with
        reqRing := raws
        readProxy := (s.readProxy.fillAllReqSegments raw).1
        descFragsPipeOut := s.descFragsPipeOut ++ (s.readProxy.fillAllReqSegments raw).2.toList } =
          s' :=
        some.inj hs
      have hle := length_fill_le s.readProxy raw
      simp only [measure, hq, length_append, length_cons]
      omega
  | takeReset storage =>
    rw [step] at hs
    split at hs
    · cases hs
    · next hq =>
      obtain ⟨-, rfl⟩ := ite_some_none_eq_some.1 hs
      cases storage <;> simp [measure, hq]
  | connectQpReset | forwardQpResetSignal | sendFirstBeat | tryPop =>
    rw [step] at hs
    split at hs
    · cases hs
    · next hq =>
      obtain ⟨-, rfl⟩ := ite_some_none_eq_some.1 hs
      simp only [measure, hq, length_append, length_cons, length_nil]
      omega
  | _ =>
    rw [step] at hs
    split at hs
    · cases hs
    · next hq =>
      cases hs
      simp only [measure, hq, length_append, length_cons, length_nil]
      omega

theorem decreases (segBuf : RawDesc × RawDesc) (room : ResetStorage → Option ℕ) :
    Decreases step Possible CmdLabel.Own (init segBuf room) measure :=
  fun _ _ _ _ _ hl _ hs => measure_lt hl hs

/-! ## At rest -/

/-- At rest a queue is empty if some step is possible while it is not. -/
theorem eq_nil_of_quiescent {α : Type} {q : List α} (hq : Quiescent step Possible CmdLabel.Own s)
    (l : CmdLabel) (hl : l.Own) (hok : s.Possible l) (h : ∀ x xs, q = x :: xs → s.step l ≠ none) :
    q = [] := by
  cases q with
  | nil => rfl
  | cons x xs => exact absurd (hq l hl hok) (h x xs rfl)

section

variable (h : InvAt room ls s done)
include h

theorem InvAt.delivered (hq : Quiescent step Possible CmdLabel.Own s) :
    s.respRing = [] ∧ s.ringbufQ = [] ∧ s.descFragQ = [] := by
  have hringbuf : s.ringbufQ = [] :=
    eq_nil_of_quiescent hq .putResponse (by rintro _ ⟨⟩) trivial fun _ _ hcons => by
      simp [step, hcons]
  have hfrag : s.descFragQ = [] :=
    eq_nil_of_quiescent hq .sendFirstBeat (by rintro _ ⟨⟩) trivial fun _ _ hcons => by
      simp [step, hcons, hringbuf]
  refine ⟨?_, hringbuf, hfrag⟩
  by_contra hne
  obtain ⟨resp, q, hcons⟩ := exists_cons_of_ne_nil hne
  have hnone := hq .tryPop (by rintro _ ⟨⟩) trivial
  rw [step, hcons] at hnone
  by_cases hnum : s.num = 0
  · -- the driver waits for as many responses as there are requests without
    have hlen := congrArg length h.order
    have hresp := congrArg length h.responses
    have hanswers := h.answers.length_eq
    have hcount := h.num
    rw [hcons] at hresp
    simp only [length_append, length_cons] at hlen hresp
    omega
  · simp only [ne_eq, hnum] at hnone
    cases hnone

theorem InvAt.served (hq : Quiescent step Possible CmdLabel.Own s) :
    s.mrAndPgtRespQ.length = s.mrAndPgtInflightReqQ.length ∧ s.qpcRespQ.length =
    s.qpcInflightReqQ.length ∧
      s.mrAndPgtReqQ = [] ∧ s.qpcReqQ = [] := by
  have hserver : s.mrAndPgtServer = [] :=
    eq_nil_of_quiescent hq (.mrAndPgtAnswer true) (by rintro _ ⟨⟩) trivial fun _ _ hcons => by
      simp [step, hcons]
  have hreq : s.mrAndPgtReqQ = [] :=
    eq_nil_of_quiescent hq .mrAndPgtTake (by rintro _ ⟨⟩) trivial fun _ _ hcons => by
      simp [step, hcons]
  have hqpcServer : s.qpcServer = [] :=
    eq_nil_of_quiescent hq (.qpcAnswer true) (by rintro _ ⟨⟩) trivial fun _ _ hcons => by
      simp [step, hcons]
  have hqpcReq : s.qpcReqQ = [] :=
    eq_nil_of_quiescent hq .qpcTake (by rintro _ ⟨⟩) trivial fun _ _ hcons => by
      simp [step, hcons]
  have htable := congrArg length h.table
  have hqp := congrArg length h.qp
  have htableAcks := h.tableAcks
  have hqpAcks := h.qpAcks
  rw [hserver, hreq] at htable
  rw [hqpcServer, hqpcReq] at hqp
  simp only [length_append, length_nil, length_map] at htable hqp
  exact ⟨by omega, by omega, hreq, hqpcReq⟩

theorem InvAt.gathered (hq : Quiescent step Possible CmdLabel.Own s) :
    s.mrAndPgtInflightReqQ = [] ∧ s.qpcInflightReqQ = [] ∧ s.isDispatchingReqReg = true := by
  obtain ⟨-, -, hfrag⟩ := h.delivered hq
  obtain ⟨htable, hqp, -⟩ := h.served hq
  have hbusy := h.busy
  have hnone := hq .gatherResponse (by rintro _ ⟨⟩) trivial
  rw [step, gatherResponse] at hnone
  cases hd : s.isDispatchingReqReg with
  | true =>
    obtain ⟨hmr, hqpc⟩ := h.idle hd
    exact ⟨hmr, hqpc, rfl⟩
  | false =>
    -- one of the two servers answered, and the response is gathered
    rw [hd, hfrag] at hnone
    rw [hd] at hbusy
    simp only [Bool.false_eq_true, if_false] at hbusy
    cases hr : s.mrAndPgtRespQ with
    | cons isSuccess resps =>
      rw [hr, length_cons] at htable
      obtain ⟨raw, inflight, hcons⟩ :=
        exists_cons_of_ne_nil (ne_nil_of_length_pos (l := s.mrAndPgtInflightReqQ) (by omega))
      simp only [hr, hcons] at hnone
      cases hnone
    | nil =>
      rw [hr, length_nil] at htable
      obtain ⟨raw, inflight, hcons⟩ :=
        exists_cons_of_ne_nil (ne_nil_of_length_pos (l := s.qpcInflightReqQ) (by omega))
      obtain ⟨isSuccess, resps, hresp⟩ :=
        exists_cons_of_ne_nil (ne_nil_of_length_pos (l := s.qpcRespQ) (by omega))
      simp only [hr, hcons, hresp] at hnone
      cases hnone

theorem InvAt.exists_room_eq (hq : Quiescent step Possible CmdLabel.Own s)
    (hfull : ¬ s.qpResetReqPipeOutQ.length < 2) :
    ∃ storage, ∃ r ∈ room storage, done.countP isQp = r + 4 := by
  obtain ⟨hout, hgen, hstorage⟩ := h.resetsLe
  have hqpc := (h.gathered hq).2.1
  -- each queue is full because the next one is
  obtain ⟨qp, q, hcons⟩ := exists_cons_of_ne_nil (ne_nil_of_length_pos (l := s.qpResetReqPipeOutQ)
    (by omega))
  have hconnect := hq .connectQpReset (by rintro _ ⟨⟩) trivial
  rw [step, hcons] at hconnect
  have hgenFull : ¬ s.resetReqPipeInQueue.length < 1 := fun hlt => by simp [hlt] at hconnect
  obtain ⟨qp', q', hcons'⟩ := exists_cons_of_ne_nil
    (ne_nil_of_length_pos (l := s.resetReqPipeInQueue) (by omega))
  have hforward := hq .forwardQpResetSignal (by rintro _ ⟨⟩) trivial
  rw [step, hcons'] at hforward
  obtain ⟨storage, hstorageFull⟩ : ∃ storage, ¬ (s.resetReqPipeInQ storage).length < 1 := by
    by_contra hne
    push Not at hne
    simp [hne .bitmap, hne .autoAckMeta] at hforward
  obtain ⟨qp'', q'', hcons''⟩ :=
    exists_cons_of_ne_nil (ne_nil_of_length_pos (l := s.resetReqPipeInQ storage) (by omega))
  have htake := hq (.takeReset storage) (by rintro _ ⟨⟩) trivial
  rw [step, hcons''] at htake
  have hleft : s.resetRoom storage = some 0 := by
    by_contra hne
    simp [hne] at htake
  have hresets := h.resets storage
  have hle := hstorage storage
  rw [hleft, hqpc] at hresets
  obtain ⟨r, hr, heq⟩ := Option.map_eq_some_iff.1 hresets.symm
  refine ⟨storage, r, hr, ?_⟩
  simp only [resetsQueued, length_nil] at heq
  rw [countP_eq_length_filter]
  omega

theorem InvAt.dispatched (hq : Quiescent step Possible CmdLabel.Own s)
    (hone : (requests ls).countP isRawPacket ≤ 1)
    (hroom : ∀ storage, ∀ r ∈ room storage, (requests ls).countP isQp ≤ r + 4) :
    s.descFragsPipeOut = [] := by
  obtain ⟨-, -, hfrag⟩ := h.delivered hq
  obtain ⟨-, -, hreq, hqpcReq⟩ := h.served hq
  obtain ⟨hmr, hqpc, hd⟩ := h.gathered hq
  have hparam : s.setNetworkParamPipeOutQ = [] :=
    eq_nil_of_quiescent hq .forwardSetNetworkParamReqPipeOut (by rintro _ ⟨⟩) trivial
      fun _ _ hcons => by
      simp [step, hcons]
  by_contra hne
  obtain ⟨frags, rest, hcons⟩ := exists_cons_of_ne_nil hne
  have hnext : s.Next (headDesc frags) rest := ⟨by rw [hcons, map_cons], hmr, hqpc⟩
  have horder := h.order_next hnext
  have hnone := hq .dispatchRingbufRequestDescriptors (by rintro _ ⟨⟩) trivial
  rw [step, dispatchRingbufRequestDescriptors, hcons] at hnone
  simp only [hd] at hnone
  cases hop : opcodeOf (headDesc frags) with
  | setRawPacketReceiveMeta =>
    -- the only request for the buffer finds room
    have hcount := h.rawPacket
    have hraw : isRawPacket (headDesc frags) = true := by simp [isRawPacket, hop]
    rw [← horder, countP_append, countP_cons, hraw] at hone
    have hroom : s.setRawPacketReceiveMetaReqQ.length < 1 := by
      simp only [if_true] at hone
      omega
    simp only [hop, hfrag, hroom] at hnone
    cases hnone
  | qpManagement =>
    -- a place is free on the way to the storages
    have hraw : isQp (headDesc frags) = true := by simp [isQp, hop]
    have hreset : s.qpResetReqPipeOutQ.length < 2 := by
      by_contra hfull
      obtain ⟨storage, r, hr, heq⟩ := h.exists_room_eq hq hfull
      have hle := hroom storage r hr
      rw [← horder, countP_append, countP_cons, hraw, heq] at hle
      simp only [if_true] at hle
      omega
    simp only [hop, hfrag, hqpcReq, hqpc, hreset] at hnone
    cases hnone
  | unsupported =>
    simp only [hop] at hnone
    cases hnone
  | _ =>
    simp only [hop, hfrag, hreq, hmr, hparam] at hnone
    cases hnone

/-- **At rest, all requests are answered, if at most one is for the buffer of raw packets and those
for queue pairs are at most four more than a storage takes.** -/
theorem answered_of_quiescent (hq : Quiescent step Possible CmdLabel.Own s)
    (hone : (requests ls).countP isRawPacket ≤ 1)
    (hroom : ∀ storage, ∀ r ∈ room storage, (requests ls).countP isQp ≤ r + 4) :
    done = requests ls ∧ s.received = s.responses ∧ s.num = 0 := by
  obtain ⟨hring, hringbuf, hfrag⟩ := h.delivered hq
  obtain ⟨hmr, hqpc, -⟩ := h.gathered hq
  have hfrags := h.dispatched hq hone hroom
  have hreq : s.reqRing = [] :=
    eq_nil_of_quiescent hq .fillAllReqSegments (by rintro _ ⟨⟩) trivial fun _ _ hcons => by
      simp [step, hcons, hfrags]
  have horder := h.order
  have hresp := h.responses
  rw [hmr, hqpc, hfrags, hreq] at horder
  rw [hring, hringbuf, hfrag] at hresp
  simp only [map_nil, append_nil] at horder hresp
  have hnum := h.num
  rw [← horder, h.answers.length_eq, ← hresp] at hnum
  exact ⟨horder, hresp, by omega⟩

end

/-! ## Answers -/

/-- The responses so far are to the first requests, in their order, and what the driver took are the
first of them. A response for a table stands for a request its server acknowledged. -/
structure SoFar (reqs : List RawDesc) (s : CmdSystem) : Prop where
  answers : List.Forall₂ Answers (reqs.take s.responses.length) s.responses
  received : s.received <+: s.responses
  table : (reqs.take s.responses.length).filter isTable <+: s.mrAndPgtAcked
  qp : ((reqs.take s.responses.length).filter isQp).map (fun raw => (qpcReq raw).1) <+: s.qpcAcked

theorem InvAt.take_eq (h : InvAt room ls s done) :
    (requests ls).take s.responses.length = done := by
  rw [← h.answers.length_eq, ← h.order, take_left]

theorem InvAt.soFar (h : InvAt room ls s done) : SoFar (requests ls) s where
  answers := by
    rw [h.take_eq]
    exact h.answers
  received := h.responses ▸ prefix_append _ _
  table := by
    -- both are the first of what was given to the server
    rw [h.take_eq]
    refine prefix_of_prefix_length_le (prefix_append _ _) (h.table ▸ prefix_append _ _) ?_
    exact h.tableAcks ▸ Nat.le_add_right _ _
  qp := by
    rw [h.take_eq]
    refine prefix_of_prefix_length_le ?_ (h.qp ▸ prefix_append _ _) ?_
    · rw [map_append]
      exact prefix_append _ _
    · rw [length_map]
      exact h.qpAcks ▸ Nat.le_add_right _ _

/-- The requests are answered: at any time those answered so far are, the system comes to rest after
a bounded number of steps however these are chosen, and when it rests the driver has a response to
each request and waits for none. -/
def Serves (s₀ : CmdSystem) (reqs : List RawDesc) : Prop :=
  ∀ ls s, Run step Possible s₀ ls s → requests ls = reqs →
    SoFar reqs s ∧
    (∃ n, ∀ ls' s', Run step Possible s₀ (ls ++ ls') s' → (∀ l ∈ ls', l.Own) → ls'.length ≤ n) ∧
    (Quiescent step Possible CmdLabel.Own s → s.received.length = reqs.length ∧ s.num = 0)

theorem requests_append_of_own (ls : List CmdLabel) {ls' : List CmdLabel} (h : ∀ l ∈ ls', l.Own) :
    requests (ls ++ ls') = requests ls := by
  induction ls' using reverseRecOn with
  | nil => rw [append_nil]
  | append_singleton ls' l ih =>
    rw [forall_mem_append] at h
    rw [← append_assoc, requests_append_own _ (forall_mem_singleton.1 h.2), ih h.1]

theorem exists_run_push (segBuf : RawDesc × RawDesc) (room : ResetStorage → Option ℕ)
    {reqs : List RawDesc} (h : ∀ raw ∈ reqs, Supported raw) :
    ∃ ls s, Run step Possible (init segBuf room) ls s ∧ requests ls = reqs := by
  induction reqs using reverseRecOn with
  | nil => exact ⟨[], _, .nil, rfl⟩
  | append_singleton reqs raw ih =>
    rw [forall_mem_append] at h
    obtain ⟨ls, s, hrun, hreqs⟩ := ih h.1
    have hraw : Supported raw := forall_mem_singleton.1 h.2
    refine ⟨ls ++ [.push raw], _, hrun.snoc (l := CmdLabel.push raw) hraw rfl, ?_⟩
    rw [requests_append_push, hreqs]

/-- A request with the given operation and data of the user, and nothing else. -/
def bareReq (opCode userData : BitVec 8) : RawDesc :=
  BitVec.ofNat 256 (2 ^ 255 + opCode.toNat * 2 ^ 240 + userData.toNat * 2 ^ 224)

/-- The labels that are not a push. -/
def ownLabels : List CmdLabel :=
  [.fillAllReqSegments, .dispatchRingbufRequestDescriptors, .gatherResponse, .mrAndPgtTake,
    .mrAndPgtAnswer true, .mrAndPgtAnswer false, .qpcTake, .qpcAnswer true, .qpcAnswer false,
    .forwardSetNetworkParamReqPipeOut, .connectQpReset, .forwardQpResetSignal, .takeReset .bitmap,
    .takeReset .autoAckMeta, .sendFirstBeat, .putResponse, .tryPop]

theorem quiescent_of_all (h : ownLabels.all fun l => (s.step l).isNone) :
    Quiescent step Possible CmdLabel.Own s := by
  intro l hl _
  have hmem : l ∈ ownLabels := by
    cases l with
    | push raw => exact absurd rfl (hl raw)
    | mrAndPgtAnswer ok | qpcAnswer ok => cases ok <;> decide
    | takeReset storage => cases storage <;> decide
    | _ => decide
  exact isNone_iff_eq_none.1 (all_eq_true.1 h l hmem)

/-- The second request for the buffer of raw packets is never answered, also where the storages take
every reset: the system rests, and the driver waits for a response. -/
theorem second_rawPacket_waits : ∃ ls s, Run step Possible (init (0, 0) fun _ => none) ls s ∧
    requests ls = [bareReq 4 1, bareReq 4 2] ∧ Quiescent step Possible CmdLabel.Own s ∧
    s.received.length = 1 ∧ s.num = 1 :=
  ⟨[.push (bareReq 4 1), .push (bareReq 4 2), .fillAllReqSegments, .fillAllReqSegments,
    .dispatchRingbufRequestDescriptors, .sendFirstBeat, .putResponse, .tryPop], _,
    .of_isSome (by decide +kernel), rfl, quiescent_of_all (by decide +kernel), by decide +kernel⟩

/-- **The requests are answered if and only if at most one is for the buffer of raw packets, and
those for queue pairs are at most four more than the resets that each storage takes:** two wait in
the dispatcher, one in the generator and one before the storage. -/
theorem serves_iff (segBuf : RawDesc × RawDesc) (room : ResetStorage → Option ℕ)
    {reqs : List RawDesc} (hreqs : ∀ raw ∈ reqs, Supported raw) :
    Serves (init segBuf room) reqs ↔
      reqs.countP isRawPacket ≤ 1 ∧ ∀ storage, ∀ r ∈ room storage, reqs.countP isQp ≤ r + 4 := by
  constructor
  · intro h
    -- push all of them and wait: the queues hold what was answered and not taken
    obtain ⟨ls, s, hrun, rfl⟩ := exists_run_push segBuf room hreqs
    obtain ⟨ls', s', hown, hrun', hq⟩ := hrun.settles (decreases segBuf room)
    have heq := requests_append_of_own ls hown
    obtain ⟨done, hinv⟩ := inv_of_run hrun'
    have hlen := ((h _ s' hrun' heq).2.2 hq).1
    have hdone : done = requests ls := by
      have hle := congrArg length hinv.responses
      rw [length_append] at hle
      rw [← hinv.take_eq, heq, take_of_length_le (by omega)]
    rw [← hdone]
    refine ⟨hinv.rawPacket ▸ hinv.rawPacketLe, fun storage r hr => ?_⟩
    obtain ⟨hout, hgen, hstorage⟩ := hinv.resetsLe
    have hresets := hinv.resets storage
    have hle := hstorage storage
    rw [mem_def.1 hr, (hinv.gathered hq).2.1] at hresets
    obtain ⟨left, -, hleft⟩ := Option.map_eq_some_iff.1 hresets
    simp only [resetsQueued, length_nil] at hleft
    rw [countP_eq_length_filter]
    omega
  · rintro ⟨hone, hroom⟩ ls s hrun rfl
    obtain ⟨done, hinv⟩ := inv_of_run hrun
    refine ⟨hinv.soFar, ⟨s.measure, fun ls' s' h hown =>
      hrun.length_le (decreases segBuf room) h hown⟩, fun hq => ?_⟩
    obtain ⟨hdone, hreceived, hnum⟩ := answered_of_quiescent hinv hq hone hroom
    exact ⟨by rw [hreceived, ← hinv.answers.length_eq, hdone], hnum⟩

/-- One request of each kind. -/
def eachKind : List RawDesc := [bareReq 0 5, bareReq 1 6, bareReq 2 7, bareReq 3 8, bareReq 4 9]

/-- One request of each kind is answered, also if neither storage takes a reset. -/
theorem serves_eachKind : (∀ raw ∈ eachKind, Supported raw) ∧
    Serves (init (0, 0) fun _ => some 0) eachKind := by
  have hall : (eachKind.all fun raw => decide (Supported raw)) = true := by decide +kernel
  have hsupported : ∀ raw ∈ eachKind, Supported raw := fun raw h =>
    of_decide_eq_true (all_eq_true.1 hall raw h)
  have hone : eachKind.countP isRawPacket ≤ 1 := by decide +kernel
  have hqp : eachKind.countP isQp ≤ 4 := by decide +kernel
  refine ⟨hsupported, (serves_iff (0, 0) (fun _ => some 0) hsupported).2 ⟨hone, fun _ r hr => ?_⟩⟩
  exact hqp.trans (Nat.le_add_left 4 r)

end CmdSystem

end OpenRdma.Link
