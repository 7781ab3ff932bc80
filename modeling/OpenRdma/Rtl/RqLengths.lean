import OpenRdma.Rtl.RqAlignment

/-!
# The length of a packet and its number of beats

The receive queue compares the number of beats of a payload, counted in eight bits, with the one
that follows from the address and the length of the packet, which is also kept in eight bits, and
only if the memory region is queried. If payloads are checked and neither number needs more bits
(`BeatsOk`), a packet that passes has the number of beats its length says (`LengthsAgree`).
-/

namespace OpenRdma.Rtl

open List Option

/-! ## Numbers of beats -/

/-- The number of beats of a payload of `len` bytes at address `va`, as unbounded numbers: it is
shifted to the address in words of four bytes. -/
def payloadBeats (va len : ℕ) : ℕ := ((va + len - 1) / 4 - va / 4) / 8 + 1

theorem toNat_zerobasedExpectedPayloadBeatNum (va : BitVec 64) {len : BitVec 32}
    (hlen : 0 < len.toNat) : (zerobasedExpectedPayloadBeatNum va len).toNat =
    (payloadBeats va.toNat len.toNat - 1) % 2 ^ 8 := by
  have hend : (va + len.setWidth 64 - 1).toNat = (va.toNat + len.toNat - 1) % 2 ^ 64 := by
    rw [BitVec.toNat_sub, BitVec.toNat_add, BitVec.toNat_setWidth, show (1 : BitVec 64).toNat =
      1 from rfl]
    omega
  simp only [zerobasedExpectedPayloadBeatNum, payloadBeats, BitVec.toNat_setWidth,
    BitVec.toNat_ushiftRight, BitVec.toNat_sub, hend, Nat.shiftRight_eq_div_pow]
  omega

theorem calculatedFirstPacketLen_pos (pmtu : BitVec 3) (va : BitVec 64) :
    0 < (calculatedFirstPacketLen pmtu va).toNat := by
  obtain ⟨k, hk, hsize, hmask⟩ : ∃ k < 15, ((1 : BitVec 32) <<< getPmtuSizeByPmtuEnum pmtu).toNat =
    2 ^ k ∧
      ((((1 : BitVec 32) <<< getPmtuSizeByPmtuEnum pmtu) - 1).signExtend 64).toNat = 2 ^ k - 1 := by
    revert pmtu
    decide
  simp only [calculatedFirstPacketLen, BitVec.toNat_sub, BitVec.toNat_setWidth,
    BitVec.toNat_and, hsize, hmask, Nat.and_two_pow_sub_one_eq_mod]
  omega

theorem packetLen_pos (pmtu : BitVec 3) (isFirst : Bool) {reth : Reth} (h : reth.dlen ≠ 0) :
    0 < (packetLen pmtu isFirst reth).toNat := by
  unfold packetLen
  split_ifs
  · exact calculatedFirstPacketLen_pos pmtu reth.va
  · exact Nat.pos_of_ne_zero fun h0 => h (BitVec.eq_of_toNat_eq h0)

/-- A routed frame has its headers, and payload exactly if its headers say so. If the queue pair of
a packet with payload has a context, the payload is checked, and both its number of beats and the
one that follows from its length are at most 256. -/
@[mk_iff]
structure BeatsOk (card : Card) (f : Frame) : Prop where
  frame : FrameOk card.settings f
  beats : (f.ethMeta card.settings).routed → f.packetMeta.hasPayload →
    ∀ qpc ∈ card.tables.queryQpc f.packetMeta.bth.dqpn,
      f.packetMeta.isNeedQueryMrTable ∧ f.len - 3 ≤ 256 ∧
      payloadBeats f.packetMeta.reth.va.toNat
        (packetLen qpc.pmtu f.packetMeta.bth.opcode.isFirstRdmaOpCode f.packetMeta.reth).toNat ≤ 256

instance (card : Card) (f : Frame) : Decidable (BeatsOk card f) :=
  decidable_of_iff' _ (beatsOk_iff card f)

/-! ## The invariant -/

/-- A packet that has passed the checks so far has a context, its length follows from it, and the
expected number of beats follows from its length. -/
structure LengthOf (card : Card) (e : CheckMrTablePipelineEntry) : Prop where
  need : e.isNeedQueryMrTable = e.rdmaPacketMeta.isNeedQueryMrTable
  length : e.packetStatus = .normal → ∃ qpc ∈ card.tables.queryQpc e.rdmaPacketMeta.bth.dqpn,
    e.packetLen = packetLen qpc.pmtu e.rdmaPacketMeta.bth.opcode.isFirstRdmaOpCode
    e.rdmaPacketMeta.reth ∧ e.zerobasedExpectedPayloadBeatNum =
      zerobasedExpectedPayloadBeatNum e.rdmaPacketMeta.reth.va e.packetLen

/-- A packet that has passed all checks has the number of beats `t` its length says, in eight bits,
where it is checked. -/
def CountOf (card : Card) (e : CheckedPipelineEntry) (t : Option (BitVec 8)) : Prop :=
  e.packetStatus = .normal → ∃ qpc ∈ card.tables.queryQpc e.rdmaPacketMeta.bth.dqpn,
    e.packetLen = packetLen qpc.pmtu e.rdmaPacketMeta.bth.opcode.isFirstRdmaOpCode
    e.rdmaPacketMeta.reth ∧ (e.rdmaPacketMeta.isNeedQueryMrTable → e.rdmaPacketMeta.hasPayload →
      t.getD 0 - 1 = zerobasedExpectedPayloadBeatNum e.rdmaPacketMeta.reth.va e.packetLen)

/-- The packets in the pipeline have the lengths that follow from their own contexts. -/
structure LengthsInv (card : Card) (s : RQ) (h : RqHistory) : Prop where
  qpc : s.qpcResp ++ s.qpcReq.map card.tables.queryQpc = s.checkQpcAndMrTablePipe.map (qpcOf card)
  parsed : ∀ e ∈ s.checkQpcAndMrTablePipe, ∃ m peer, e = parseEntry m peer
  step2 : ∀ e ∈ s.checkMrTableStep2Pipe, LengthOf card e
  step3 : ∀ e ∈ s.checkMrTableStep3Pipe, LengthOf card e
  checked : List.Forall₂ (CountOf card) (h.issued ++ s.issuePayloadConReqOrDiscardPipe) h.tails

variable {card : Card} {frames : ℕ → Frame} {s s' s₀ : RQ} {h h' : RqHistory} {ls : List RqLabel}
  {w w' : RQ × RqHistory}

theorem lengthsInv_init (hs : s.Initial) : LengthsInv card s {} := by
  obtain ⟨p, -, rfl⟩ := hs
  exact ⟨rfl, by simp, by simp, by simp, .nil⟩

theorem lengthOf_checkEntry (m : RdmaRecvPacketMeta) (peer : ThinMacIpUdpMetaDataForRecv)
    (r : Option MemRegionTableEntry) :
    LengthOf card (checkEntry card.dontCare (parseEntry m peer) (qpcOf card (parseEntry m peer))
      r) := by
  refine ⟨rfl, fun hnormal => ?_⟩
  obtain ⟨-, qpc, hqpc, -⟩ := checkEntry_normal hnormal
  refine ⟨qpc, hqpc, ?_⟩
  have hlen : (parseEntry m peer).packetLen (some qpc) =
      some (packetLen qpc.pmtu m.bth.opcode.isFirstRdmaOpCode m.reth) := rfl
  rw [hqpc]
  simp only [checkEntry, hlen, map_some, getD_some, and_true]
  rfl

theorem countOf_checkMrTableStep3Entry {e : CheckMrTablePipelineEntry} (he : LengthOf card e)
    (t : Option (BitVec 8)) : CountOf card (checkMrTableStep3Entry e (t.getD 0)) t := by
  intro hnormal
  obtain ⟨hcheck, hstep3⟩ := checkMrTableStep3Entry_normal hnormal
  obtain ⟨qpc, hqpc, hlen, hbeats⟩ := he.length hcheck
  exact ⟨qpc, hqpc, hlen, fun hneed hp => ((hstep3 (he.need.trans hneed)).2.2 hp).trans hbeats⟩

theorem LengthsInv.congr (hi : LengthsInv card s h) (hs : s' = { s with
      packetParser := s'.packetParser
      mrReq := s'.mrReq
      mrResp := s'.mrResp
      handleConRespPipe := s'.handleConRespPipe
      filterCmd := s'.filterCmd
      conReqOut := s'.conReqOut
      conRespIn := s'.conRespIn
      filteredDataStreamForConsume := s'.filteredDataStreamForConsume
      handleGenMetaReportQueueDescPipe := s'.handleGenMetaReportQueueDescPipe
      autoAckGenReqOut := s'.autoAckGenReqOut
      genCnpReqOut := s'.genCnpReqOut })
    (hissued : h'.issued = h.issued) (htails : h'.tails = h.tails) : LengthsInv card s' h' := by
  rw [hs]
  exact ⟨hi.qpc, hi.parsed, hi.step2, hi.step3, by rw [hissued, htails]; exact hi.checked⟩

/-- **Every step keeps the lengths.** -/
theorem LengthsInv.step {l : RqLabel} (hi : LengthsInv card w.1 w.2)
    (hstep : rqStep card frames w l = some w') : LengthsInv card w'.1 w'.2 := by
  obtain ⟨s, h⟩ := w
  obtain ⟨s', hs', rfl⟩ := map_eq_some_iff.1 hstep
  replace hs' : s.step card (beatAt frames h.arrived) l = some s' := hs'
  cases l with
  | arrive | conResp resp =>
    cases hs'
    exact hi.congr rfl rfl rfl
  | discardPacketWhenNetworkSettingsNotReady | handleBeatStage | dispatchStream | handleBeat =>
    obtain ⟨p, -, rfl⟩ := map_eq_some_iff.1 hs'
    exact hi.congr rfl rfl rfl
  | sendQpcQueryReqAndSomeSimpleParse =>
    obtain ⟨m, metas, peer, peers, hm, hp, rfl⟩ := RQ.sendQpcQueryReqAndSomeSimpleParse_eq hs'
    simp only [RqHistory.record, hm, hp]
    refine ⟨?_, fun e he => ?_, hi.step2, hi.step3, hi.checked⟩
    · rw [map_append, map_append, ← append_assoc, hi.qpc]
      rfl
    · rcases mem_append.1 he with he | he
      · exact hi.parsed e he
      · exact ⟨m, peer, mem_singleton.1 he⟩
  | answerQpc =>
    obtain ⟨qpn, qpns, hq, rfl⟩ := RQ.answerQpc_eq hs'
    refine ⟨?_, hi.parsed, hi.step2, hi.step3, hi.checked⟩
    rw [← hi.qpc, hq, append_assoc]
    rfl
  | answerMr =>
    obtain ⟨idx, idxs, -, rfl⟩ := RQ.answerMr_eq hs'
    exact hi.congr rfl rfl rfl
  | checkQpcAndMrTable =>
    obtain ⟨e, es, q, qs, r, mrs, he, hq, -, rfl⟩ := RQ.checkQpcAndMrTable_eq hs'
    obtain ⟨m, peer, rfl⟩ := hi.parsed e (by rw [he]; exact mem_cons_self)
    have hqpc := hi.qpc
    rw [hq, he, cons_append, map_cons] at hqpc
    obtain ⟨rfl, hqpc'⟩ := cons.inj hqpc
    simp only [RqHistory.record, he, hq]
    refine ⟨hqpc', fun x hx => hi.parsed x (by rw [he]; exact mem_cons_of_mem _ hx),
      fun x hx => ?_, hi.step3, hi.checked⟩
    rcases mem_append.1 hx with hx | hx
    · exact hi.step2 x hx
    · rw [mem_singleton.1 hx]
      exact lengthOf_checkEntry m peer r
  | checkMrTableStep2 =>
    obtain ⟨e, es, he, rfl⟩ := RQ.checkMrTableStep2_eq hs'
    refine ⟨hi.qpc, hi.parsed, fun x hx => hi.step2 x (by rw [he]; exact mem_cons_of_mem _ hx),
      fun x hx => ?_, hi.checked⟩
    rcases mem_append.1 hx with hx | hx
    · exact hi.step3 x hx
    · have hlen := hi.step2 e (by rw [he]; exact mem_cons_self)
      rw [mem_singleton.1 hx]
      exact ⟨hlen.need, hlen.length⟩
  | checkMrTableStep3 =>
    obtain ⟨e, es, tail, tails, he, htail, rfl⟩ := RQ.checkMrTableStep3_eq hs'
    rw [RqHistory.record_checkMrTableStep3 he htail]
    refine ⟨hi.qpc, hi.parsed, hi.step2, fun x hx =>
      hi.step3 x (by rw [he]; exact mem_cons_of_mem _ hx), ?_⟩
    dsimp only
    rw [← append_assoc]
    exact rel_append hi.checked (.cons (countOf_checkMrTableStep3Entry
      (hi.step3 e (by rw [he]; exact mem_cons_self)) tail) .nil)
  | issuePayloadConReqOrDiscard =>
    obtain ⟨e, es, he, rfl⟩ := RQ.issuePayloadConReqOrDiscard_eq hs'
    simp only [RqHistory.record, he, head?_cons, toList_some]
    refine ⟨hi.qpc, hi.parsed, hi.step2, hi.step3, ?_⟩
    dsimp only
    rw [append_assoc, singleton_append, ← he]
    exact hi.checked
  | handleConResp =>
    obtain ⟨e, es, resps, -, rfl⟩ := RQ.handleConResp_eq hs'
    exact hi.congr rfl rfl rfl
  | filterDiscardedPayloadStream =>
    obtain ⟨isDiscard, cmds, ds, beats, hc, hp, rfl⟩ := RQ.filterDiscardedPayloadStream_eq hs'
    simp only [RqHistory.record, hc, hp]
    split_ifs <;> exact hi.congr rfl rfl rfl

/-! ## Agreement -/

/-- **A packet with payload that passed all checks has the number of beats its length says**: so do
its frame, the request to write its payload and the beats forwarded with it. -/
def LengthsAgree (card : Card) (frames : ℕ → Frame) (s : RQ) (h : RqHistory) : Prop :=
  ∀ (k : ℕ) e, (h.issued ++ s.issuePayloadConReqOrDiscardPipe)[k]? = some e →
    e.rdmaPacketMeta.hasPayload → e.packetStatus = .normal →
    ∃ n, Routed card.settings frames n ∧ Nat.count (Routed card.settings frames) n = k ∧
      e.rdmaPacketMeta = (frames n).packetMeta ∧
      (frames n).len - 3 = payloadBeats e.payloadConReq.addr.toNat e.payloadConReq.len.toNat ∧
      ∀ c, h.issued[k]? = some e → h.filtered[h.commandOf k]? = some c →
        c.2.length = payloadBeats e.payloadConReq.addr.toNat e.payloadConReq.len.toNat

theorem BeatsOk.eq {f : Frame} (hok : BeatsOk card f) (hr : (f.ethMeta card.settings).routed)
    (hp : f.packetMeta.hasPayload) {e : CheckedPipelineEntry} (he : e.rdmaPacketMeta = f.packetMeta)
    (hnormal : e.packetStatus = .normal) (hc : CountOf card e (some f.tail)) :
    f.len - 3 = payloadBeats e.payloadConReq.addr.toNat e.payloadConReq.len.toNat := by
  obtain ⟨qpc, hqpc, hlen, hcount⟩ := hc hnormal
  rw [he] at hqpc hlen hcount
  obtain ⟨hneed, hmany, hexpected⟩ := hok.beats hr hp qpc hqpc
  have hfour := (hok.frame hr).2.1 hp
  have hdlen : f.packetMeta.reth.dlen ≠ 0 := by
    have := (Bool.and_eq_true_iff.1 hneed).2
    simpa using this
  have hpos := packetLen_pos qpc.pmtu f.packetMeta.bth.opcode.isFirstRdmaOpCode hdlen
  have heq := congrArg BitVec.toNat (hcount hneed hp)
  rw [← hlen] at hpos hexpected
  rw [toNat_zerobasedExpectedPayloadBeatNum _ hpos, getD_some, Frame.tail, BitVec.toNat_sub,
    BitVec.toNat_ofNat, show (1 : BitVec 8).toNat = 1 from rfl] at heq
  change f.len - 3 = payloadBeats e.rdmaPacketMeta.reth.va.toNat e.packetLen.toNat
  rw [he]
  have hone : 1 ≤ payloadBeats f.packetMeta.reth.va.toNat e.packetLen.toNat := Nat.le_add_left _ _
  omega

theorem PacketsInv.lengthsAgree (hok : ∀ k, BeatsOk card (frames k))
    (hi : PacketsInv card.settings frames s h) (hl : LengthsInv card s h) :
    LengthsAgree card frames s h := by
  intro k e he hp hnormal
  have hread := fun n => hi.readFrom (k := k) (n := n)
  obtain ⟨g, c, b, -, hh, -⟩ := hi
  have hk : k < h.tails.length := hl.checked.length_eq ▸ (List.getElem?_eq_some_iff.1 he).1
  obtain ⟨n, hr, hcount⟩ := hh.routed k (hk.trans_le hh.waitingFrom.le)
  have hmeta : e.rdmaPacketMeta = (frames n).packetMeta := by
    have hget := hh.checkedFrom.getElem? (k := k) (by rw [List.getElem?_map, he]; rfl)
    rw [Nat.zero_add, origin, ← hcount, packet_count hr] at hget
    exact congrArg Prod.fst hget
  have htail : h.tails[k]? = some (some (frames n).tail) := by
    have hget := List.getElem?_eq_getElem hk
    rw [hget, (hread n hr hcount).tail _ hget, if_pos (hmeta ▸ hp)]
  have hc : CountOf card e (some (frames n).tail) := by
    obtain ⟨hk', rfl⟩ := List.getElem?_eq_some_iff.1 he
    rw [← (List.getElem?_eq_some_iff.1 htail).2]
    exact hl.checked.get hk' hk
  have hbeats := (hok n).eq hr (hmeta ▸ hp) hmeta hnormal hc
  refine ⟨n, hr, hcount, hmeta, hbeats, fun c hissued hfiltered => ?_⟩
  rw [(hread n hr hcount).filtered e c hissued (hmeta ▸ hp) hfiltered, ← hbeats]
  simp [Frame.payload]

/-- **In every run with frames whose payload is checked and at most 256 beats long, by its beats and
by its length, a packet with payload that passed all checks has the number of beats its length
says.** -/
theorem run_lengthsAgree {ok : RQ × RqHistory → RqLabel → Prop} (hok : ∀ k, BeatsOk card (frames k))
    (hs₀ : s₀.Initial) (hrun : Run (rqStep card frames) ok (s₀, {}) ls w) :
    LengthsAgree card frames w.1 w.2 :=
  (packetsInv_of_run (fun k => (hok k).frame) hs₀ hrun).lengthsAgree hok
    (hrun.invariant (I := fun _ w => LengthsInv card w.1 w.2) (lengthsInv_init hs₀)
      fun _ _ _ _ hi _ hstep => hi.step hstep)

/-- Two writes of one beat pass the checks. -/
theorem run_lengthsAgree_two_writes :
    ∃ w, Run (rqStep sampleCard (twoWrites 1)) (fun _ _ => True) ({ packetParser := resetParse },
      {})
        (passThrough 8 2) w ∧
      w.2.issued.map (fun e => (e.rdmaPacketMeta.hasPayload, e.packetStatus, e.packetLen)) =
        [(true, .normal, 32), (true, .normal, 32)] ∧
      LengthsAgree sampleCard (twoWrites 1) w.1 w.2 := by
  have hok : ∀ k, BeatsOk sampleCard (twoWrites 1 k)
    | 0 => by decide +kernel
    | _ + 1 => by
      change BeatsOk sampleCard (samplePacketFrame 8 0x0a 0x100 0x2000 0x100 32 1)
      decide +kernel
  exact ⟨_, .of_isSome (by decide +kernel), by decide +kernel,
    run_lengthsAgree hok resetParse_initial (.of_isSome _)⟩

/-- A card with a memory region of 16384 bytes. -/
def wideCard : Card :=
  { sampleCard with tables := { sampleCard.tables with mr := fun _ => some ⟨0, 0x1000, 16384, 0x3, 0⟩ } }

/-- Writes of 8224 bytes with one beat of payload. -/
def shortWrites : ℕ → Frame := fun _ => samplePacketFrame 7 0x0a 0x100 0x1000 0 8224 1

/-- The write passes the checks: 257 beats are expected, and 257 is 1 in eight bits. -/
theorem run_accepts_short_payload :
    ∃ w, Run (rqStep wideCard shortWrites) (fun _ _ => True) ({ packetParser := resetParse }, {})
        (passThrough 4 1) w ∧
      w.1.conReqOut.map (·.len) = [8224] ∧ w.2.tails = [some 1] ∧
      ¬ LengthsAgree wideCard shortWrites w.1 w.2 := by
  refine ⟨_, .of_isSome (by decide +kernel), by decide +kernel, by decide +kernel, fun ha => ?_⟩
  obtain ⟨n, -, -, -, hlen, -⟩ := ha 0 _ (eq_some_of_isSome (by decide +kernel)) (by decide +kernel)
    (by decide +kernel)
  change 1 = payloadBeats _ _ at hlen
  exact absurd hlen (by decide +kernel)

end OpenRdma.Rtl
