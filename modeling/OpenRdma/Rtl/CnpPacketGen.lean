import OpenRdma.Foundations.Run
import OpenRdma.Rtl.AutoAck

/-!
# The generator of congestion notifications

For each request the generator reads the time of the last notification to the queue pair, and sends
one if more than 8192 ticks passed since then. The new time is written when the packet is generated,
so that requests read before that see the old one.
-/

namespace OpenRdma.Rtl

open List Function

namespace CnpPacketGenReq

def index (req : CnpPacketGenReq) : BitVec 10 := getIndexQP req.peerQpn

def macIpUdpMeta (req : CnpPacketGenReq) : ThinMacIpUdpMetaDataForSend where
  dstMacAddr := req.peerAddrInfo.srcMacAddr
  ipDscp := 0
  ipEcn := 1
  dstIpAddr := req.peerAddrInfo.srcIpAddr
  srcPort := req.localUdpPort
  dstPort := udpPortRdma
  udpPayloadLen := 54
  ethType := ethTypeIp

def packetMeta (req : CnpPacketGenReq) : RdmaSendPacketMeta where
  bth :=
    { trans := .cnp
      opcode := .sendFirst
      solicited := false
      isRetry := false
      msn := req.peerMsn
      dqpn := req.peerQpn
      ackReq := false
      psn := 0 }
  rdmaExtendHeaderBuf := 0
  hasPayload := false

end CnpPacketGenReq

/-- The pause after a packet, in cycles. -/
def cnpPauseTickCnt : BitVec 32 := 8192

/-- The generator, at the start of a clock cycle. What the storage reads in a cycle is pending in
the next, and then in `outputQ`; both are kept with their requests. What was sent stays in its
queues, and `sent` has the times and the queue pairs. -/
structure CnpPacketGenerator where
  storage : BitVec 10 → BitVec 32
  cycles : ℕ := 0
  pendingRead : List (CnpPacketGenReq × BitVec 32) := []
  outputQ : List (CnpPacketGenReq × BitVec 32) := []
  macIpUdpMetaPipeOutQueue : List ThinMacIpUdpMetaDataForSend := []
  rdmaPacketMetaPipeOutQueue : List RdmaSendPacketMeta := []
  sent : List (ℕ × BitVec 10) := []

/-- The rules that fire in a cycle: the request that `genContextReadReq` takes, and whether
`genPacket` fires. -/
structure CnpCycle where
  genContextReadReq : Option CnpPacketGenReq
  genPacket : Bool

namespace CnpPacketGenerator

variable {s s' : CnpPacketGenerator} {req : CnpPacketGenReq}

def cnpPauseCounterNowReg (s : CnpPacketGenerator) : BitVec 32 := .ofNat 32 s.cycles

def onWay (s : CnpPacketGenerator) : List (CnpPacketGenReq × BitVec 32) :=
  s.outputQ ++ s.pendingRead

/-- A packet is sent if the pause since the last one for the queue pair is over. -/
def genPacket (s : CnpPacketGenerator) : Option CnpPacketGenerator :=
  match s.outputQ with
  | [] => none
  | (req, cnpPauseCounter) :: outputQ =>
    some (if cnpPauseTickCnt < s.cnpPauseCounterNowReg - cnpPauseCounter then
      { s with
        outputQ := outputQ
        macIpUdpMetaPipeOutQueue := s.macIpUdpMetaPipeOutQueue ++ [req.macIpUdpMeta]
        rdmaPacketMetaPipeOutQueue := s.rdmaPacketMetaPipeOutQueue ++ [req.packetMeta]
        storage := update s.storage req.index s.cnpPauseCounterNowReg
        sent := s.sent ++ [(s.cycles, req.index)] }
    else { s with outputQ := outputQ })

/-- `genContextReadReq`: what is pending after the cycle. At most three reads are on their way, and
a write in the same cycle is not seen. -/
def readStorage (s : CnpPacketGenerator) : Option CnpPacketGenReq →
    Option (List (CnpPacketGenReq × BitVec 32))
  | none => some []
  | some req => if s.onWay.length < 3 then some [(req, s.storage req.index)] else none

/-- One clock cycle. The rules see the state at its start. -/
def step (s : CnpPacketGenerator) (cycle : CnpCycle) : Option CnpPacketGenerator :=
  (s.readStorage cycle.genContextReadReq).bind fun pendingRead =>
    (if cycle.genPacket then s.genPacket else some s).map fun s' =>
      { s' with cycles := s.cycles + 1, outputQ := s'.outputQ ++ s.pendingRead, pendingRead := pendingRead }

/-! ## The pace -/

/-- A request is read only while none for its queue pair is on its way. -/
def ReadAlone (s : CnpPacketGenerator) (cycle : CnpCycle) : Prop :=
  ∀ req ∈ cycle.genContextReadReq, ∀ p ∈ s.onWay, p.1.index ≠ req.index

instance (s : CnpPacketGenerator) (cycle : CnpCycle) : Decidable (s.ReadAlone cycle) :=
  inferInstanceAs (Decidable (∀ req ∈ cycle.genContextReadReq, ∀ p ∈ s.onWay, p.1.index ≠
    req.index))

/-- Two notifications to a queue pair are more than 8192 ticks apart. -/
def Paced (s : CnpPacketGenerator) : Prop :=
  s.sent.Pairwise fun e e' => e.2 = e'.2 → e.1 + 8192 < e'.1

/-- The storage has the time of the last notification, and so has every request on its way. -/
structure Inv (s : CnpPacketGenerator) : Prop where
  nodup : (s.onWay.map (·.1.index)).Nodup
  read : ∀ p ∈ s.onWay, p.2 = s.storage p.1.index
  last : ∀ e ∈ s.sent, ∃ t < s.cycles, e.1 ≤ t ∧ s.storage e.2 = .ofNat 32 t
  paced : s.Paced

theorem lt_of_tick {t now : ℕ} (ht : t < now) (h : cnpPauseTickCnt < BitVec.ofNat 32 now -
    .ofNat 32 t) : t + 8192 < now := by
  rw [BitVec.lt_def, BitVec.toNat_sub, BitVec.toNat_ofNat, BitVec.toNat_ofNat, cnpPauseTickCnt] at h
  change 8192 < _ at h
  omega

/-- After a packet is generated, nothing changed for queue pairs that no request on its way is
for. -/
theorem Inv.genPacket (h : Inv s) (hs : s.genPacket = some s') :
    Inv { s' with cycles := s.cycles + 1 } ∧ s'.pendingRead = s.pendingRead ∧ s'.onWay <+ s.onWay ∧
      ∀ i, (∀ p ∈ s.onWay, p.1.index ≠ i) → s'.storage i = s.storage i := by
  obtain ⟨hnodup, hread, hlast, hpaced⟩ := h
  rw [CnpPacketGenerator.genPacket] at hs
  split at hs
  · cases hs
  next req v outputQ hq =>
    have hway : s.onWay = (req, v) :: (outputQ ++ s.pendingRead) := by rw [onWay, hq, cons_append]
    rw [hway, map_cons, nodup_cons] at hnodup
    rw [hway, forall_mem_cons] at hread
    obtain ⟨hv : v = s.storage req.index, hrest⟩ := hread
    have hsub : outputQ ++ s.pendingRead <+ s.onWay := hway ▸ sublist_cons_self _ _
    split at hs <;> cases hs
    · next htick =>
      have hne : ∀ p ∈ outputQ ++ s.pendingRead, p.1.index ≠ req.index :=
        fun p hp he => hnodup.1 (mem_map.2 ⟨p, hp, he⟩)
      refine ⟨⟨hnodup.2, fun p hp => ?_, ?_, ?_⟩, rfl, hsub, fun i hi => ?_⟩
      · exact (hrest p hp).trans (update_of_ne (hne p hp) _ _).symm
      · refine forall_mem_append.2 ⟨fun e he => ?_, fun e he => ?_⟩
        · obtain ⟨t, ht, hle, hstored⟩ := hlast e he
          by_cases hindex : e.2 = req.index
          · exact ⟨s.cycles, s.cycles.lt_succ_self, hle.trans ht.le, hindex ▸ update_self _ _ _⟩
          · exact ⟨t, ht.trans s.cycles.lt_succ_self, hle, (update_of_ne hindex _ _).trans hstored⟩
        · obtain rfl := mem_singleton.1 he
          exact ⟨s.cycles, s.cycles.lt_succ_self, le_rfl, update_self _ _ _⟩
      · refine pairwise_append.2 ⟨hpaced, pairwise_singleton _ _, fun e he e' he' hindex => ?_⟩
        obtain rfl := mem_singleton.1 he'
        obtain ⟨t, ht, hle, hstored⟩ := hlast e he
        rw [hindex] at hstored
        rw [hv, hstored] at htick
        exact (Nat.add_le_add_right hle _).trans_lt (lt_of_tick ht htick)
      · exact update_of_ne (hi (req, _) (hway ▸ mem_cons_self)).symm _ _
    · refine ⟨⟨hnodup.2, hrest, fun e he => ?_, hpaced⟩, rfl, hsub, fun _ _ => rfl⟩
      obtain ⟨t, ht, hrest⟩ := hlast e he
      exact ⟨t, ht.trans s.cycles.lt_succ_self, hrest⟩

theorem Inv.step {cycle : CnpCycle} (h : Inv s) (halone : s.ReadAlone cycle) (hs : s.step cycle = some s') : Inv s' := by
  obtain ⟨pendingRead, hpending, hs⟩ := Option.bind_eq_some_iff.1 hs
  obtain ⟨s₁, hs₁, rfl⟩ := Option.map_eq_some_iff.1 hs
  have hgen : Inv { s₁ with cycles := s.cycles + 1 } ∧ s₁.pendingRead = s.pendingRead ∧ s₁.onWay <+ s.onWay ∧
      ∀ i, (∀ p ∈ s.onWay, p.1.index ≠ i) → s₁.storage i = s.storage i := by
    split at hs₁
    · exact h.genPacket hs₁
    · cases hs₁
      refine ⟨⟨h.nodup, h.read, fun e he => ?_, h.paced⟩, rfl, .refl _, fun _ _ => rfl⟩
      obtain ⟨t, ht, hrest⟩ := h.last e he
      exact ⟨t, ht.trans s.cycles.lt_succ_self, hrest⟩
  obtain ⟨hinv, hsame, hsub, hstorage⟩ := hgen
  rw [← hsame]
  cases hreq : cycle.genContextReadReq with
  | none =>
    rw [hreq] at hpending
    cases hpending
    refine ⟨?_, ?_, hinv.last, hinv.paced⟩ <;> rw [onWay, append_nil]
    · exact hinv.nodup
    · exact hinv.read
  | some req =>
    rw [hreq, readStorage] at hpending
    obtain ⟨-, hpending⟩ := Option.ite_none_right_eq_some.1 hpending
    cases hpending
    have hne := halone req hreq
    refine ⟨?_, ?_, hinv.last, hinv.paced⟩ <;> rw [onWay]
    · rw [map_append]
      refine hinv.nodup.append (nodup_singleton _) fun i hi hi' => ?_
      obtain ⟨p, hp, rfl⟩ := mem_map.1 hi
      exact hne p (hsub.subset hp) (mem_singleton.1 hi')
    · refine forall_mem_append.2 ⟨hinv.read, fun p hp => ?_⟩
      obtain rfl := mem_singleton.1 hp
      exact (hstorage _ hne).symm

/-- **Two notifications to a queue pair are more than 8192 ticks apart** in every run in which no
request is read while one for its queue pair is on its way, whatever the storage holds at first. -/
theorem run_paced (storage : BitVec 10 → BitVec 32) {cycles : List CnpCycle}
    (h : Run step ReadAlone { storage := storage } cycles s) : s.Paced :=
  (h.invariant (I := fun _ s => Inv s) ⟨nodup_nil, nofun, nofun, .nil⟩ fun _ _ _ _ hi hok hs => hi.step hok hs).paced

def sampleCnpReq (qpn : BitVec 24) : CnpPacketGenReq := ⟨default, qpn, 0, 0⟩

/-- Two requests for a queue pair with one for another between them: the last is not answered. -/
theorem run_paced_three_requests :
    ∃ s, Run step ReadAlone { storage := fun _ => 2 ^ 31 }
        [⟨some (sampleCnpReq 0x100), false⟩, ⟨some (sampleCnpReq 0x200), false⟩, ⟨none, true⟩,
          ⟨some (sampleCnpReq 0x100), true⟩, ⟨none, false⟩, ⟨none, true⟩] s ∧
      s.sent = [(2, 1), (3, 2)] ∧ s.Paced :=
  ⟨_, .of_isSome (by decide +kernel), by decide +kernel, run_paced _ (.of_isSome _)⟩

/-- **Two notifications to one queue pair in two cycles**: the second request is read before the
first packet is generated. -/
theorem run_not_paced :
    ∃ s, Run step (fun _ _ => True) { storage := fun _ => 2 ^ 31 }
        [⟨some (sampleCnpReq 0x100), false⟩, ⟨some (sampleCnpReq 0x100), false⟩, ⟨none, true⟩, ⟨none, true⟩] s ∧
      s.sent = [(2, 1), (3, 1)] ∧ ¬ s.Paced := by
  refine ⟨_, .of_isSome (by decide +kernel), by decide +kernel, ?_⟩
  unfold Paced
  decide +kernel

end CnpPacketGenerator

end OpenRdma.Rtl
