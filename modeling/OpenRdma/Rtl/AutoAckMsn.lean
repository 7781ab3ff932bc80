import OpenRdma.Rtl.AutoAckRow

/-!
# Message numbers of negative acknowledgements

The counters are updated in a pipeline of their own: an update is counted when its answer comes
back, and the negative acknowledgement carries the value before. For a queue pair whose resets come
first the message number of a negative acknowledgement is the number of those before it, modulo 2 ^
16 (`MsnInv.packets`), and their windows are ordered (`Ordered`).
-/

namespace OpenRdma.Rtl

open List Option Function AutoAckHistory

namespace AutoAckHistory

/-- The number of losses of the row among the first `i` updates. -/
def lostBefore (h : AutoAckHistory) (row : BitVec 10) (i : ℕ) : ℕ :=
  (h.updates.take i).countP fun u => u.rowAddr = row && u.lost

/-- The number of negative acknowledgements of the row before the `i`-th of all. -/
def nakNumber (h : AutoAckHistory) (row : BitVec 10) (i : ℕ) : ℕ :=
  (h.naks.take i).countP fun x => x.1.rowAddr = row

variable {h : AutoAckHistory} {row : BitVec 10}

theorem lostBefore_succ (row : BitVec 10) {i : ℕ} {u : Update} (hu : h.updates[i]? = some u) :
    h.lostBefore row (i + 1) = h.lostBefore row i + if u.rowAddr = row ∧ u.lost then 1 else 0 := by
  rw [lostBefore, take_add_one, hu, countP_append, toList_some, countP_singleton, lostBefore]
  simp only [Bool.and_eq_true, decide_eq_true_eq]

theorem lostBefore_record (s : AutoAckGenerator) (l : AutoAckLabel) {i : ℕ}
    (hi : i ≤ h.updates.length) : (h.record s l).lostBefore row i = h.lostBefore row i := by
  unfold lostBefore record
  split
  · rw [take_append_of_le_length hi]
  all_goals rfl

end AutoAckHistory

section

variable {s s' : AutoAckGenerator} {h : AutoAckHistory} {row : BitVec 10} {l : AutoAckLabel}

theorem AutoAckInv.order (ha : AutoAckInv s h) :
    (h.updates.drop h.done).map (fun u => (u.rowAddr, u.lost)) =
      s.autoAckMetaAtomicUpdateStorage.respPipeOutQueue.map (fun resp =>
          (resp.rowAddr, resp.newValue.hasReported)) ++
        s.autoAckMetaAtomicUpdateStorage.pending.map (fun req => (req.rowAddr, req.reqData)) ++
        s.bitmapStorage.respPipeOutQueue.map fun resp => (resp.rowAddr, resp.hasPacketLost) := by
  have hmerged := congrArg (List.map fun resp : BitmapWindowStorageUpdateResp =>
    (resp.rowAddr, resp.hasPacketLost)) ha.merged
  rw [List.map_append, List.map_map, List.map_map] at hmerged
  have hmap : (fun u : Update => (u.rowAddr, u.lost)) =
      (fun resp : BitmapWindowStorageUpdateResp => (resp.rowAddr, resp.hasPacketLost)) ∘
      (·.resp) := by
    funext u
    exact Prod.ext u.resp_rowAddr.symm rfl
  rw [hmap, hmerged, ← ha.flags]
  rfl

theorem AutoAckInv.answers_le (ha : AutoAckInv s h) :
    h.done + s.autoAckMetaAtomicUpdateStorage.respPipeOutQueue.length ≤ h.updates.length := by
  have hlen := congrArg length ha.order
  simp only [length_map, length_append, length_drop] at hlen
  have := ha.done_le
  omega

theorem AutoAckInv.next_counted (ha : AutoAckInv s h) {req : AtomicUpdateStorageUpdateReq Bool}
    {reqs : List (AtomicUpdateStorageUpdateReq Bool)}
    (hreq : s.autoAckMetaAtomicUpdateStorage.pending = req :: reqs) :
    ∃ u, h.updates[h.done + s.autoAckMetaAtomicUpdateStorage.respPipeOutQueue.length]? = some u ∧
      u.rowAddr = req.rowAddr ∧ u.lost = req.reqData := by
  have horder := congrArg
    (fun xs => xs[s.autoAckMetaAtomicUpdateStorage.respPipeOutQueue.length]?) ha.order
  simp only [getElem?_map, getElem?_drop, hreq] at horder
  rw [append_assoc, getElem?_append_right (by rw [length_map]), length_map,
    Nat.sub_self] at horder
  obtain ⟨u, hu, heq⟩ := map_eq_some_iff.1 horder
  obtain ⟨hrow, hlost⟩ := Prod.mk.inj heq
  exact ⟨u, hu, hrow, hlost⟩

end

theorem RowInv.lostBefore_eq_zero {s : AutoAckGenerator} {h : AutoAckHistory} {row : BitVec 10}
    {entered : List (BitVec 24)} (hi : RowInv row s h entered) (ha : AutoAckInv s h)
    (hr : s.Resetting row) (i : ℕ) : h.lostBefore row i = 0 := by
  have hentered : entered = [] := by
    by_contra hne
    exact hi.resets hne hr
  have hhandled := hi.handled_prefix ha
  rw [hentered, prefix_nil, hi.handled, map_eq_nil_iff] at hhandled
  refine countP_eq_zero.2 fun u hu hrow => ?_
  have hmem : u ∈ h.updatesOf row :=
    List.mem_filter.2 ⟨mem_of_mem_take hu, (Bool.and_eq_true_iff.1 hrow).1⟩
  rw [hhandled] at hmem
  cases hmem

theorem NaksInv.packets_length {s : AutoAckGenerator} {h : AutoAckHistory} (hn : NaksInv s h) :
    s.rdmaPacketMetaPipeOutQueue.length = h.naks.length := by
  rw [hn.packets.length_eq, length_zip, hn.lengths, min_self]

/-- The counter of the row and the answers for it hold the number of losses before, and so do the
negative acknowledgements sent. -/
structure MsnInv (row : BitVec 10) (s : AutoAckGenerator) (h : AutoAckHistory) : Prop where
  current : s.autoAckMetaAtomicUpdateStorage.bramInitedReg = true ∨
      row < s.autoAckMetaAtomicUpdateStorage.bramInitPtrReg →
    (s.autoAckMetaAtomicUpdateStorage.current row).ackMsn = BitVec.ofNat 16
      (h.lostBefore row (h.done + s.autoAckMetaAtomicUpdateStorage.respPipeOutQueue.length))
  answers : ∀ j resp, s.autoAckMetaAtomicUpdateStorage.respPipeOutQueue[j]? = some resp →
    resp.rowAddr = row → resp.oldValue.ackMsn = BitVec.ofNat 16 (h.lostBefore row (h.done + j))
  idle : s.autoAckMetaAtomicUpdateStorage.bramInitedReg = false → h.done = 0
  packets : ∀ i x packet, h.naks[i]? = some x → s.rdmaPacketMetaPipeOutQueue[i]? = some packet →
    x.1.rowAddr = row →
    packet = nakPacketMeta x.2.qpc x.1.resp (BitVec.ofNat 16 (h.nakNumber row i))

namespace MsnInv

variable {s s' : AutoAckGenerator} {h : AutoAckHistory} {row : BitVec 10} {l : AutoAckLabel}
  (ha : AutoAckInv s h)
include ha

theorem congr (hm : MsnInv row s h) (hl : l ≠ .genAutoAckEthPacket)
    (hinited : s'.autoAckMetaAtomicUpdateStorage.bramInitedReg =
      s.autoAckMetaAtomicUpdateStorage.bramInitedReg) (hptr :
      s'.autoAckMetaAtomicUpdateStorage.bramInitPtrReg =
      s.autoAckMetaAtomicUpdateStorage.bramInitPtrReg)
    (hcurrent : s'.autoAckMetaAtomicUpdateStorage.current =
      s.autoAckMetaAtomicUpdateStorage.current)
    (hresp : s'.autoAckMetaAtomicUpdateStorage.respPipeOutQueue =
      s.autoAckMetaAtomicUpdateStorage.respPipeOutQueue)
    (hpackets : s'.rdmaPacketMetaPipeOutQueue = s.rdmaPacketMetaPipeOutQueue) :
    MsnInv row s' (h.record s l) := by
  have hdone : (h.record s l).done = h.done := by
    unfold record
    split
    · rfl
    · rfl
    · exact absurd rfl hl
    · rfl
    · rfl
  have hnaks := ha.record_naks hl
  have hle := ha.answers_le
  refine ⟨?_, ?_, ?_, ?_⟩
  · rw [hinited, hptr, hcurrent, hresp, hdone, lostBefore_record s l hle]
    exact hm.current
  · intro j resp hj hrow
    rw [hresp] at hj
    have hlt := (List.getElem?_eq_some_iff.1 hj).1
    rw [hdone, lostBefore_record s l (by omega)]
    exact hm.answers j resp hj hrow
  · rw [hinited, hdone]
    exact hm.idle
  · intro i x packet hx hpacket hrow
    rw [hnaks] at hx
    rw [hpackets] at hpacket
    rw [nakNumber, hnaks]
    exact hm.packets i x packet hx hpacket hrow

theorem nakNumber_eq (row : BitVec 10) : h.nakNumber row h.naks.length =
    h.lostBefore row h.done := by
  have hnaks : h.naks.map (·.1) = (h.updates.take h.done).filter (·.lost) := ha.naks_map
  rw [nakNumber, take_length, lostBefore]
  have hcount : h.naks.countP (fun x => x.1.rowAddr = row) =
      (h.naks.map (·.1)).countP fun u => u.rowAddr = row := by
    rw [countP_map]
    rfl
  rw [hcount, hnaks, countP_filter]

theorem metaRule {r : AtomicRule} {entered : List (BitVec 24)} (hm : MsnInv row s h)
    (hi : RowInv row s h entered) (hs : s.step (.autoAckMeta r) = some s') :
    MsnInv row s' (h.record s (.autoAckMeta r)) := by
  obtain ⟨m, hrule, rfl⟩ := map_eq_some_iff.1 hs
  obtain ⟨-, heffect, -⟩ := ha.values.rule hrule
  cases heffect with
  | quiet hinited hptr _ hresp hcurrent =>
    exact hm.congr ha (by simp) hinited hptr hcurrent hresp rfl
  | init hinited hs' _ hresp hcurrent =>
    have hdone := hm.idle hinited
    have hnil := (ha.values.idle hinited).2.2.2
    refine ⟨fun hrow => ?_, fun j resp hj => ?_, fun _ => hdone, hm.packets⟩
    · rw [hs'.1, hs'.2] at hrow
      change (m.current row).ackMsn = BitVec.ofNat 16 (h.lostBefore row (h.done + _))
      rw [hcurrent, hresp]
      rcases Word.eq_or_lt_of_lt_add_one (hrow.imp_left beq_iff_eq.1) with rfl | hlt
      · rw [update_self, hnil, hdone]
        rfl
      · have hne : row ≠ s.autoAckMetaAtomicUpdateStorage.bramInitPtrReg := fun heq => by
          rw [heq] at hlt
          exact BitVec.lt_irrefl _ hlt
        rw [update_of_ne hne]
        exact hm.current (Or.inr hlt)
    · rw [hresp] at hj
      exact hm.answers j resp hj
  | merge req hinited hinited' hpending hresp hcurrent =>
    -- the next update is counted
    obtain ⟨u, hu, hurow, hulost⟩ := ha.next_counted hpending
    have hold := hm.current (Or.inl hinited)
    have hsucc := lostBefore_succ row hu
    refine ⟨fun _ => ?_, fun j resp hj hrow => ?_, fun hn => ?_, hm.packets⟩
    · change (m.current row).ackMsn = BitVec.ofNat 16 (h.lostBefore row (h.done + _))
      rw [hcurrent, hresp, length_append, length_singleton, ← Nat.add_assoc, hsucc]
      by_cases hrow : row = req.rowAddr
      · rw [← hrow, update_self]
        simp only [ackMetaUpdate, atomicUpdateFunction, hurow, hulost, ← hrow, hold]
        cases req.reqData
        · rfl
        · exact BitVec.ofNat_add _ _ |>.symm
      · rw [update_of_ne hrow, if_neg fun h => hrow (h.1.symm.trans hurow)]
        exact hold
    · rw [hresp] at hj
      by_cases hlt : j < s.autoAckMetaAtomicUpdateStorage.respPipeOutQueue.length
      · rw [getElem?_append_left hlt] at hj
        exact hm.answers j resp hj hrow
      · rw [getElem?_append_right (not_lt.1 hlt)] at hj
        rw [getElem?_singleton] at hj
        obtain ⟨hj, hanswer⟩ := Option.ite_none_right_eq_some.1 hj
        cases hanswer
        obtain rfl : j = s.autoAckMetaAtomicUpdateStorage.respPipeOutQueue.length := by omega
        rw [show req.rowAddr = row from hrow]
        exact hold
    · rw [hinited'] at hn
      cases hn
  | reset row' hrow' hinited hinited' _ hresp hcurrent =>
    refine ⟨fun _ => ?_, fun j resp hj => ?_, fun hn => ?_, hm.packets⟩
    · change (m.current row).ackMsn = BitVec.ofNat 16 (h.lostBefore row (h.done + _))
      rw [hcurrent, hresp]
      by_cases hrow : row = row'
      · -- nothing of the row entered before its reset was done
        rw [hrow, update_self, ← hrow, hi.lostBefore_eq_zero ha ?_]
        · rfl
        · exact Or.inr (Or.inr (Or.inr (hrow ▸ hrow')))
      · rw [update_of_ne hrow]
        exact hm.current (Or.inl hinited)
    · rw [hresp] at hj
      exact hm.answers j resp hj
    · rw [hinited'] at hn
      cases hn

theorem genPacket (hm : MsnInv row s h) (hn : NaksInv s h)
    (hs : s.step .genAutoAckEthPacket = some s') :
    MsnInv row s' (h.record s .genAutoAckEthPacket) := by
  obtain ⟨info, infos, e, es, hinfo, he, -, hstorage, -⟩ :=
    AutoAckGenerator.genAutoAckEthPacket_eq hs
  obtain ⟨u, req, hnaks, hresp, hctx, hrow⟩ := ha.record_naks_gen hinfo he
  have hqueue : s'.autoAckMetaAtomicUpdateStorage.respPipeOutQueue = infos := by
    rw [hstorage]
    exact congrArg tail hinfo
  have hinited : s.autoAckMetaAtomicUpdateStorage.bramInitedReg = true := by
    by_contra hn
    have hnil := (ha.values.idle (by simpa using hn)).2.2.2
    rw [hinfo] at hnil
    cases hnil
  refine ⟨fun _ => ?_, fun j resp hj hr => ?_, fun hnot => ?_, fun i x packet hx hpacket hr => ?_⟩
  · have hold := hm.current (Or.inl hinited)
    rw [hinfo, length_cons, ← Nat.add_assoc, Nat.add_right_comm] at hold
    rw [hqueue, hstorage]
    exact hold
  · rw [hqueue] at hj
    have hold := hm.answers (j + 1) resp (by rw [hinfo]; exact hj) hr
    rw [← Nat.add_assoc, Nat.add_right_comm] at hold
    exact hold
  · rw [hstorage] at hnot
    exact absurd (hinited.symm.trans hnot) (by simp)
  · have hlength : s.rdmaPacketMetaPipeOutQueue.length = h.naks.length := hn.packets_length
    have hold : ∀ y, h.naks[i]? = some x → s.rdmaPacketMetaPipeOutQueue[i]? = some packet →
        packet = nakPacketMeta x.2.qpc x.1.resp
          (BitVec.ofNat 16 (((h.naks ++ y).take i).countP fun x => x.1.rowAddr = row)) := by
      intro y hx hpacket
      rw [take_append_of_le_length (List.getElem?_eq_some_iff.1 hx).1.le]
      exact hm.packets i x packet hx hpacket hr
    rw [nakNumber, hnaks]
    rw [hnaks] at hx
    cases AutoAckGenerator.fires_of_step hs with
    | genNak hinfo' he' hreported =>
      obtain ⟨rfl, -⟩ := cons.inj (hinfo.symm.trans hinfo')
      obtain ⟨rfl, -⟩ := cons.inj (he.symm.trans he')
      rw [if_pos hreported] at hx ⊢
      by_cases hi : i < h.naks.length
      · rw [getElem?_append_left hi] at hx
        rw [getElem?_append_left (hlength.symm ▸ hi)] at hpacket
        exact hold _ hx hpacket
      · rw [getElem?_append_right (not_lt.1 hi), getElem?_singleton] at hx
        obtain ⟨hi0, rfl⟩ := ite_some_none_eq_some.1 hx
        obtain rfl : i = h.naks.length := by omega
        rw [getElem?_append_right hlength.le, hlength, Nat.sub_self] at hpacket
        cases hpacket
        have hmsn := hm.answers 0 info (by rw [hinfo]; rfl) (hrow.trans hr)
        rw [Nat.add_zero, ← nakNumber_eq ha] at hmsn
        rw [hresp, hctx, hmsn, nakNumber, take_length, take_left]
    | genNothing hinfo' _ hreported =>
      obtain ⟨rfl, -⟩ := cons.inj (hinfo.symm.trans hinfo')
      rw [hreported, if_neg Bool.false_ne_true, append_nil] at hx
      exact hold _ hx hpacket

/-- **Every step keeps the message numbers**, if the resets of the row come first. -/
theorem step {entered : List (BitVec 24)} (hm : MsnInv row s h)
    (hn : NaksInv s h) (hi : RowInv row s h entered) (hs : s.step l = some s') :
    MsnInv row s' (h.record s l) := by
  cases AutoAckGenerator.fires_of_step hs with
  | genNak | genNothing => exact hm.genPacket ha hn hs
  | autoAckMeta => exact hm.metaRule ha hi hs
  | _ => exact hm.congr ha nofun rfl rfl rfl rfl rfl

end MsnInv

theorem msnInv_init {s : AutoAckGenerator} (hs : s.Initial) (row : BitVec 10) :
    MsnInv row s {} := by
  refine ⟨fun hrow => ?_, fun j resp hj => ?_, fun _ => rfl, fun i x packet hx => ?_⟩
  · rw [hs.2.1] at hrow
    rcases hrow with hrow | hrow
    · cases hrow
    · exact absurd hrow BitVec.not_lt_zero
  · rw [hs.2.1] at hj
    cases hj
  · cases hx

/-! ## The order of negative acknowledgements -/

def AutoAckHistory.naksOf (h : AutoAckHistory) (row : BitVec 10) : List Update :=
  (h.naks.map (·.1)).filter fun u => u.rowAddr = row

section

variable {s s' : AutoAckGenerator} {h : AutoAckHistory} {row : BitVec 10} {l : AutoAckLabel}

theorem AutoAckHistory.naksOf_nakNumber {i : ℕ} {x : Update × AutoAckGeneratorReq}
    (hx : h.naks[i]? = some x) (hrow : x.1.rowAddr = row) :
    (h.naksOf row)[h.nakNumber row i]? = some x.1 := by
  have hsplit : h.naks = h.naks.take i ++ x :: h.naks.drop (i + 1) := by
    obtain ⟨hi, rfl⟩ := List.getElem?_eq_some_iff.1 hx
    rw [← drop_eq_getElem_cons hi, take_append_drop]
  have hlength : ((h.naks.take i).map (·.1)).countP (fun u => u.rowAddr = row) =
    h.nakNumber row i := by
    rw [countP_map]
    rfl
  rw [naksOf, hsplit, map_append, map_cons, filter_append,
    getElem?_append_right (by rw [← countP_eq_length_filter, hlength]),
    ← countP_eq_length_filter, hlength, Nat.sub_self,
    filter_cons_of_pos (by simpa using hrow)]
  rfl

theorem AutoAckInv.naksOf_prefix (ha : AutoAckInv s h) (row : BitVec 10) :
    h.naksOf row <+: h.lostOf row := by
  rw [lostOf_eq, ha.lost_eq, filter_append]
  exact prefix_append _ _

theorem AutoAckInv.naks_req (ha : AutoAckInv s h) {x : Update × AutoAckGeneratorReq}
    (hx : x ∈ h.naks) : x.2 ∈ h.forwarded ∧ getIndexQP x.2.qpn = x.1.rowAddr := by
  have hlooked : x ∈ h.looked := (List.mem_filter.1 hx).1
  refine ⟨mem_of_mem_take (of_mem_zip hlooked).2, ?_⟩
  obtain ⟨i, hi⟩ := List.mem_iff_getElem?.1 hlooked
  obtain ⟨hu, hreq⟩ := List.getElem?_zip_eq_some.1 hi
  have hupdates := congrArg (fun reqs => reqs[i]?) ha.updates
  simp only [ha.requests, getElem?_map, getElem?_take] at hu hreq hupdates
  obtain ⟨hlt, hu⟩ := Option.ite_none_right_eq_some.1 hu
  obtain ⟨-, hreq⟩ := Option.ite_none_right_eq_some.1 hreq
  rw [hu, if_pos (List.getElem?_eq_some_iff.1 hu).1, hreq] at hupdates
  have hqpn := congrArg (·.qpn) (Option.some.inj hupdates)
  exact congrArg getIndexQP hqpn.symm

theorem AutoAckInv.naksOf_mono (ha : AutoAckInv s h) (hs : s.step l = some s') (row : BitVec 10) :
    h.naksOf row <+: (h.record s l).naksOf row := by
  have hnaks : h.naks <+: (h.record s l).naks := by
    by_cases hl : l = .genAutoAckEthPacket
    · subst hl
      obtain ⟨info, infos, e, es, hinfo, he, -⟩ := AutoAckGenerator.genAutoAckEthPacket_eq hs
      obtain ⟨u, req, hnaks, -⟩ := ha.record_naks_gen hinfo he
      rw [hnaks]
      exact prefix_append _ _
    · rw [ha.record_naks hl]
  exact (hnaks.map _).filter _

end

namespace Update

variable {u : Update}

theorem Faithful.low_lt (hf : u.Faithful) (hl : u.lost = true) : u.low < u.low' := by
  have hlow' := hf.low'_eq
  have hpos := (lost_iff.1 hl).1
  omega

theorem Faithful.low'_nonneg (hf : u.Faithful) (hl : u.lost = true) : 0 ≤ u.low' := by
  by_cases hfull : u.MovesFullWindow
  · have hhighest := neg_one_le_highest u.received
    rw [hf.low'_eq, hfull.1, low, lowEnd]
    omega
  · obtain ⟨p, h₀, -, -, hp⟩ := (hf.lost_iff_loses hfull).1 hl
    omega

end Update

/-- Losses in the order of their windows. -/
structure Ordered (us : List Update) : Prop where
  faithful : ∀ u ∈ us, u.Faithful
  lost : ∀ u ∈ us, u.lost = true
  pairwise : us.Pairwise fun u v => u.low' ≤ v.low

namespace Ordered

variable {us : List Update} {u v : Update} {i j : ℕ}

theorem low'_le_low (ho : Ordered us) (hu : us[i]? = some u) (hv : us[j]? = some v) (hij : i < j) :
    u.low' ≤ v.low := by
  obtain ⟨hi, rfl⟩ := List.getElem?_eq_some_iff.1 hu
  obtain ⟨hj, rfl⟩ := List.getElem?_eq_some_iff.1 hv
  exact List.pairwise_iff_getElem.1 ho.pairwise i j hi hj hij

theorem low'_mono (ho : Ordered us) (hu : us[i]? = some u) (hv : us[j]? = some v) (hij : i ≤ j) :
    u.low' ≤ v.low' := by
  rcases hij.eq_or_lt with rfl | hij
  · obtain rfl := Option.some.inj (hu.symm.trans hv)
    exact le_rfl
  · exact (ho.low'_le_low hu hv hij).trans v.low_le_low'

theorem low'_pos (ho : Ordered us) (hv : us[j]? = some v) (hj : 0 < j) : 0 < v.low' := by
  obtain ⟨u, hu⟩ : ∃ u, us[0]? = some u :=
    ⟨_, getElem?_eq_getElem (hj.trans (List.getElem?_eq_some_iff.1 hv).1)⟩
  have hmemu := mem_of_getElem? hu
  have hmemv := mem_of_getElem? hv
  calc 0 ≤ u.low' := (ho.faithful u hmemu).low'_nonneg (ho.lost u hmemu)
    _ ≤ v.low := ho.low'_le_low hu hv hj
    _ < v.low' := (ho.faithful v hmemv).low_lt (ho.lost v hmemv)

theorem known_of_next (ho : Ordered us) (hu : us[i]? = some u) (hv : us[i + 1]? = some v)
    {w : Update} (hw : w ∈ us) : w.low' ≤ u.low' ∨ v.low ≤ w.low := by
  obtain ⟨j, hj⟩ := List.mem_iff_getElem?.1 hw
  rcases Nat.lt_or_ge i j with hij | hij
  · right
    rcases (Nat.succ_le_of_lt hij).eq_or_lt with rfl | hij
    · obtain rfl := Option.some.inj (hv.symm.trans hj)
      exact le_rfl
    · exact v.low_le_low'.trans (ho.low'_le_low hv hj hij)
  · exact Or.inl (ho.low'_mono hj hu hij)

end Ordered

theorem RowInv.ordered_lostOf {s : AutoAckGenerator} {h : AutoAckHistory} {row : BitVec 10}
    {entered : List (BitVec 24)} (hi : RowInv row s h entered) (ha : AutoAckInv s h) :
    Ordered (h.lostOf row) where
  faithful u hu := ha.faithful u (mem_of_mem_filter (mem_updatesOf hu))
  lost _ hu := (List.mem_filter.1 hu).2
  pairwise := hi.ordered

end OpenRdma.Rtl
