import Mathlib.Data.List.TakeWhile
import OpenRdma.Driver.Fragmentation
import OpenRdma.Driver.Retransmit

/-!
# What a range retransmission sends

The send queue holds work requests whose packets are numbered without gaps. A range retransmission
looks the requests up by their first number, so it starts at the first request that begins at or
after the low end of the range.

* `Contiguous s xs e`: the packets of `xs` are numbered from `s` to `e`.
-/

namespace OpenRdma.Driver

open List Option

/-! ## Packets numbered in sequence -/

/-- The packets are numbered from `s` on. -/
def Numbered : ℤ → List WrChunk → Prop
  | _, [] => True
  | s, p :: ps => p.psn = Psn.wrap s ∧ Numbered (s + 1) ps

theorem numbered_append {s : ℤ} {ps qs : List WrChunk} :
    Numbered s (ps ++ qs) ↔ Numbered s ps ∧ Numbered (s + ps.length) qs := by
  induction ps generalizing s with
  | nil => simp [Numbered]
  | cons p ps ih =>
    rw [cons_append, Numbered, ih, Numbered, and_assoc, length_cons, Nat.cast_succ, add_assoc,
      add_comm (1 : ℤ)]

theorem numbered_iff {s : ℤ} {ps : List WrChunk} :
    Numbered s ps ↔ ps.map WrChunk.psn = (List.range ps.length).map (Psn.wrap s + ·) := by
  induction ps generalizing s with
  | nil => simp [Numbered]
  | cons p ps ih =>
    have hmap : (range ps.length).map ((Psn.wrap s + ·) ∘ Nat.succ) =
        (range ps.length).map (Psn.wrap (s + 1) + ·) := by
      refine map_congr_left fun i _ => ?_
      change Psn.wrap s + (i + 1) = Psn.wrap (s + 1) + i
      rw [Psn.wrap_add, Psn.wrap_add, Nat.cast_succ, add_assoc, add_comm (1 : ℤ)]
    rw [Numbered, ih, length_cons, range_succ_eq_map, map_cons, map_cons,
      List.map_map, List.cons.injEq, Psn.add_zero, hmap]

theorem Numbered.exists_psn {s a : ℤ} {ps : List WrChunk} (h : Numbered s ps) (h₁ : s ≤ a)
    (h₂ : a < s + ps.length) : ∃ p ∈ ps, p.psn = Psn.wrap a := by
  induction ps generalizing s with
  | nil =>
    rw [length_nil] at h₂
    omega
  | cons p ps ih =>
    rw [length_cons] at h₂
    rcases h₁.eq_or_lt with rfl | h₁
    · exact ⟨p, mem_cons_self, h.1⟩
    · obtain ⟨q, hq, hqa⟩ := ih h.2 (by omega) (by omega)
      exact ⟨q, mem_cons_of_mem _ hq, hqa⟩

/-- The packet is in the range of sequence numbers from `psnLow` up to `psnHigh`. -/
def WrChunk.inRange (psnLow psnHigh : Psn) (p : WrChunk) : Bool :=
  (p.psn - psnLow).inner < (psnHigh - psnLow).inner

section Window

variable {s e lo hi : ℤ} (hwin : e - s < 2 ^ 23) (hlo : s ≤ lo) (hhi : hi ≤ e) (hle : lo ≤ hi)
variable {a : ℤ} {ps : List WrChunk}

include hwin hlo hhi hle

theorem inRange_iff {p : WrChunk} (hp : p.psn = Psn.wrap a) (h₁ : s ≤ a) (h₂ : a < e) :
    p.inRange (Psn.wrap lo) (Psn.wrap hi) = true ↔ lo ≤ a ∧ a < hi := by
  have hr := Psn.wrap_sub hle (by omega)
  unfold WrChunk.inRange
  rw [decide_eq_true_eq, hp]
  rcases lt_or_ge a lo with h | h
  · have hf := Psn.wrap_sub_of_lt h (by omega)
    omega
  · have hf := Psn.wrap_sub h (by omega)
    omega

theorem filter_inRange_eq_nil (hn : Numbered a ps) (h₁ : s ≤ a)
    (h₂ : a + ps.length ≤ e) (hout : a + ps.length ≤ lo ∨ hi ≤ a ∨ lo = hi) :
    ps.filter (WrChunk.inRange (Psn.wrap lo) (Psn.wrap hi)) = [] := by
  induction ps generalizing a with
  | nil => rfl
  | cons p ps ih =>
    rw [length_cons] at h₂ hout
    have hnot := (inRange_iff hwin hlo hhi hle hn.1 h₁ (by omega)).not.2 (by omega)
    rw [filter_cons_of_neg hnot]
    exact ih hn.2 (by omega) (by omega) (by omega)

theorem takeWhile_eq_filter (hn : Numbered a ps) (h₁ : lo ≤ a) (h₂ : a + ps.length ≤ e) :
    ps.takeWhile (fun x => x.psn < Psn.wrap hi) =
      ps.filter (WrChunk.inRange (Psn.wrap lo) (Psn.wrap hi)) := by
  induction ps generalizing a with
  | nil => rfl
  | cons p ps ih =>
    rw [length_cons] at h₂
    have hlt : p.psn < Psn.wrap hi ↔ a < hi := by
      rw [hn.1]
      exact Psn.wrap_lt_wrap (by omega) (by omega)
    have hin := inRange_iff hwin hlo hhi hle hn.1 (by omega) (by omega)
    by_cases ha : a < hi
    · rw [takeWhile_cons_of_pos (by simpa [hlt] using ha), filter_cons_of_pos
        (hin.2 ⟨h₁, ha⟩), ih hn.2 (by omega) (by omega)]
    · rw [takeWhile_cons_of_neg (by simpa [hlt] using ha)]
      refine (filter_inRange_eq_nil hwin hlo hhi hle (a := a) hn (by omega) ?_ (by omega)).symm
      rw [length_cons]
      omega

theorem filter_inRange_eq_self (hn : Numbered a ps) (h₁ : lo ≤ a) (h₂ : a + ps.length ≤ hi) :
    ps.filter (WrChunk.inRange (Psn.wrap lo) (Psn.wrap hi)) = ps := by
  induction ps generalizing a with
  | nil => rfl
  | cons p ps ih =>
    rw [length_cons] at h₂
    rw [filter_cons_of_pos ((inRange_iff hwin hlo hhi hle hn.1 (by omega) (by omega)).2
      ⟨h₁, by omega⟩), ih hn.2 (by omega) (by omega)]

theorem numbered_filter_inRange (hn : Numbered s ps) (hlen : s + ps.length = e) :
    Numbered lo (ps.filter (WrChunk.inRange (Psn.wrap lo) (Psn.wrap hi))) ∧
      ((ps.filter (WrChunk.inRange (Psn.wrap lo) (Psn.wrap hi))).length : ℤ) = hi - lo := by
  obtain ⟨as, bs, cs, rfl, ha, hb⟩ : ∃ as bs cs, ps = as ++ (bs ++ cs) ∧ s + as.length = lo ∧
      lo + bs.length = hi := by
    refine ⟨ps.take (lo - s).toNat, (ps.drop (lo - s).toNat).take (hi - lo).toNat,
      (ps.drop (lo - s).toNat).drop (hi - lo).toNat, ?_, ?_, ?_⟩
    · rw [take_append_drop, take_append_drop]
    · rw [length_take]
      omega
    · rw [length_take, length_drop]
      omega
  rw [length_append, length_append] at hlen
  rw [numbered_append, numbered_append, ha, hb] at hn
  rw [filter_append, filter_append,
    filter_inRange_eq_nil hwin hlo hhi hle hn.1 le_rfl (by omega) (Or.inl ha.le),
    filter_inRange_eq_self hwin hlo hhi hle hn.2.1 le_rfl (by omega),
    filter_inRange_eq_nil hwin hlo hhi hle hn.2.2 (by omega) (by omega) (Or.inr (Or.inl le_rfl)),
    nil_append, append_nil]
  exact ⟨hn.2.1, by omega⟩

end Window

/-! ## Queues without gaps -/

theorem wrPacketFragmenter_some {wr : SendWrRdma} {qp : QpParams} {psn : Psn} {ps : List WrChunk}
    (h : wrPacketFragmenter wr qp psn = some ps) :
    ∃ k, 8 ≤ k ∧ k ≤ 12 ∧ convertIbvMtuToU16 qp.pmtu = some (2 ^ k) ∧
      wr.raddr + wr.length < 2 ^ 64 ∧
      ps.map WrChunk.psn =
        (range (packetCount (2 ^ k) wr.raddr wr.length)).map (psn + ·) := by
  rcases hm : convertIbvMtuToU16 qp.pmtu with _ | P
  · rw [wrPacketFragmenter, hm] at h
    cases h
  obtain ⟨k, hk₁, hk₂, rfl⟩ := convertIbvMtuToU16_eq hm
  by_cases hfit : wr.raddr + wr.length < 2 ^ 64
  · rw [wrPacketFragmenter_eq hm (by omega) hfit] at h
    split_ifs at h
    rw [← Option.some.inj h]
    exact ⟨k, hk₁, hk₂, rfl, hfit, map_psn_packets psn⟩
  · rw [wrPacketFragmenter, hm, bind_some, chunkFragmenter, hm, bind_some,
      Fragmenter.new, Word.checkedAdd_of_le (by omega)] at h
    cases h

theorem SendQueueElem.numbered_packets {x : SendQueueElem} {s : ℤ} {ps : List WrChunk}
    (hs : x.psn = Psn.wrap s) (h : x.packets = some ps) : Numbered s ps ∧ 0 < ps.length := by
  obtain ⟨k, -, -, -, -, hmap⟩ := wrPacketFragmenter_some h
  have hlen := congrArg length hmap
  rw [length_map, length_map, length_range] at hlen
  refine ⟨numbered_iff.2 ?_, ?_⟩
  · rw [hmap, hlen, hs]
  · rw [hlen]
    exact numPieces_pos _ _

/-- The packets of the work requests `xs` are numbered from `s` to `e` without gaps. -/
def Contiguous : ℤ → List SendQueueElem → ℤ → Prop
  | s, [], e => s = e
  | s, x :: xs, e =>
    x.psn = Psn.wrap s ∧ ∃ ps, x.packets = some ps ∧ Contiguous (s + ps.length) xs e

namespace Contiguous

variable {s e : ℤ} {xs : List SendQueueElem}

theorem le (h : Contiguous s xs e) : s ≤ e := by
  induction xs generalizing s with
  | nil => exact le_of_eq h
  | cons x xs ih =>
    obtain ⟨-, ps, -, h⟩ := h
    have := ih h
    omega

theorem packets (h : Contiguous s xs e) : ∃ ps, packetsOf xs = some ps ∧ Numbered s ps ∧
    s + ps.length = e := by
  induction xs generalizing s with
  | nil => exact ⟨[], rfl, trivial, by simpa using (show s = e from h)⟩
  | cons x xs ih =>
    obtain ⟨hx, ps, hps, h⟩ := h
    obtain ⟨qs, hqs, hn, hlen⟩ := ih h
    refine ⟨ps ++ qs, ?_, ?_, ?_⟩
    · rw [packetsOf, hps, bind_some, hqs, map_some]
    · exact numbered_append.2 ⟨(x.numbered_packets hx hps).1, hn⟩
    · rw [length_append]
      omega

theorem start_mem (h : Contiguous s xs e) {x : SendQueueElem} (hx : x ∈ xs) :
    ∃ a, x.psn = Psn.wrap a ∧ s ≤ a ∧ a < e := by
  induction xs generalizing s with
  | nil => cases hx
  | cons y ys ih =>
    obtain ⟨hy, ps, hps, h⟩ := h
    have hpos := (y.numbered_packets hy hps).2
    rcases mem_cons.1 hx with rfl | hx
    · exact ⟨s, hy, le_rfl, by have := h.le; omega⟩
    · obtain ⟨a, ha, h₁, h₂⟩ := ih h hx
      exact ⟨a, ha, by omega, h₂⟩

theorem split (h : Contiguous s xs e) {t s₀ : ℤ} (hwin : e - s₀ < 2 ^ 23) (hs : s₀ ≤ s)
    (ht₁ : s₀ ≤ t) (ht₂ : t ≤ e) : ∃ m, Contiguous s (xs.takeWhile fun x => x.psn < Psn.wrap t) m ∧
      Contiguous m (xs.dropWhile fun x => x.psn < Psn.wrap t) e ∧ t ≤ m := by
  induction xs generalizing s with
  | nil => exact ⟨s, rfl, h, by rw [show s = e from h]; exact ht₂⟩
  | cons x xs ih =>
    obtain ⟨hx, ps, hps, h⟩ := h
    have hse := h.le
    have hlt : x.psn < Psn.wrap t ↔ s < t := by
      rw [hx]
      exact Psn.wrap_lt_wrap (by omega) (by omega)
    by_cases hst : s < t
    · obtain ⟨m, h₁, h₂, h₃⟩ := ih h (by omega)
      rw [takeWhile_cons_of_pos (by simpa [hlt] using hst),
        dropWhile_cons_of_pos (by simpa [hlt] using hst)]
      exact ⟨m, ⟨hx, ps, hps, h₁⟩, h₂, h₃⟩
    · rw [takeWhile_cons_of_neg (by simpa [hlt] using hst),
        dropWhile_cons_of_neg (by simpa [hlt] using hst)]
      exact ⟨s, rfl, ⟨hx, ps, hps, h⟩, by omega⟩

theorem cons_of_length {x : SendQueueElem} {n : ℕ} (hx : x.psn = Psn.wrap s)
    (hn : x.packets.map length = some n) (h : Contiguous (s + n) xs e) :
    Contiguous s (x :: xs) e := by
  obtain ⟨ps, hps, rfl⟩ := map_eq_some_iff.1 hn
  exact ⟨hx, ps, hps, h⟩

end Contiguous

/-! ## The range -/

theorem takeWhile_eq_append {α : Type*} {p q : α → Bool} {l : List α} (h : ∀ x ∈ l, p x = true →
    q x = true) : l.takeWhile q = l.takeWhile p ++ (l.dropWhile p).takeWhile q := by
  induction l with
  | nil => rfl
  | cons x l ih =>
    rw [forall_mem_cons] at h
    by_cases hp : p x = true
    · rw [takeWhile_cons_of_pos hp, dropWhile_cons_of_pos hp,
        takeWhile_cons_of_pos (h.1 hp), ih h.2, cons_append]
    · rw [takeWhile_cons_of_neg hp, dropWhile_cons_of_neg hp, nil_append]

theorem IbvSendQueue.range_eq (sq : IbvSendQueue) {lo hi : Psn} (h : ∀ x ∈ sq.inner, x.psn < lo →
    x.psn < hi) : sq.range lo hi = (sq.inner.dropWhile fun x => x.psn < lo).takeWhile fun x =>
    x.psn < hi := by
  have happ := takeWhile_eq_append (l := sq.inner) (p := fun x => x.psn < lo)
    (q := fun x => x.psn < hi) (by simpa using h)
  have hlen := congrArg length happ
  rw [length_append] at hlen
  unfold range
  dsimp only
  split_ifs with hlt
  · rw [drop_partitionPoint, ← take_partitionPoint]
    congr 1
    unfold partitionPoint at hlt ⊢
    omega
  · unfold partitionPoint at hlt
    exact (eq_nil_of_length_eq_zero (by omega)).symm

/-- The packets of the queue in the range, marked as retried. -/
def retransmitted (all : List WrChunk) (psnLow psnHigh : Psn) : List WrChunk :=
  (all.filter (WrChunk.inRange psnLow psnHigh)).map WrChunk.setIsRetry

/-- The worker answers a range by sending exactly the packets of the queue in the range, in the
order of their numbers, each once and marked as retried. -/
def SendsRange (sq : IbvSendQueue) (lo hi : ℤ) : Prop :=
  ∃ all sent, packetsOf sq.inner = some all ∧
    sq.process (.retransmitRange (Psn.wrap lo) (Psn.wrap hi)) = some (sq, sent) ∧
    sent = retransmitted all (Psn.wrap lo) (Psn.wrap hi) ∧
    sent.map WrChunk.psn = (range (hi - lo).toNat).map (Psn.wrap lo + ·) ∧
    ∀ p ∈ sent, p.isRetry = true

theorem packetsOf_append {xs ys : List SendQueueElem} {ps qs : List WrChunk}
    (hx : packetsOf xs = some ps) (hy : packetsOf ys = some qs) :
    packetsOf (xs ++ ys) = some (ps ++ qs) := by
  induction xs generalizing ps with
  | nil =>
    cases hx
    exact hy
  | cons x xs ih =>
    rw [packetsOf, bind_eq_some_iff] at hx
    obtain ⟨as, has, hx⟩ := hx
    obtain ⟨bs, hbs, rfl⟩ := map_eq_some_iff.1 hx
    rw [cons_append, packetsOf, has, bind_some, ih hbs, map_some, append_assoc]

section Range

variable {sq : IbvSendQueue} {s e lo hi m : ℤ} (hc : Contiguous s sq.inner e)
  (hwin : e - s < 2 ^ 23) (hlo : s ≤ lo) (hle : lo ≤ hi) (hhi : hi ≤ e)

include hc hwin hlo hle hhi

theorem lt_high_of_lt_low {x : SendQueueElem} (hx : x ∈ sq.inner) (h : x.psn < Psn.wrap lo) :
    x.psn < Psn.wrap hi := by
  obtain ⟨a, ha, h₁, h₂⟩ := hc.start_mem hx
  rw [ha, Psn.wrap_lt_wrap (by omega) (by omega)] at h ⊢
  omega

omit hc in
theorem eq_low_iff (hA : Contiguous s (sq.inner.takeWhile fun x => x.psn < Psn.wrap lo) m)
    (hB : Contiguous m (sq.inner.dropWhile fun x => x.psn < Psn.wrap lo) e) (hm : lo ≤ m) :
    (Psn.wrap lo = Psn.wrap hi ∨ ∃ x ∈ sq.inner, x.psn = Psn.wrap lo) ↔ lo = hi ∨ m = lo := by
  constructor
  · rintro (h | ⟨x, hx, hxp⟩)
    · exact Or.inl (Psn.wrap_inj h (by omega) (by omega))
    · rw [← takeWhile_append_dropWhile (p := fun x => decide (x.psn < Psn.wrap lo))
        (l := sq.inner)] at hx
      rcases mem_append.1 hx with hx | hx
      · have hlt : x.psn < Psn.wrap lo := by simpa using mem_takeWhile_imp hx
        rw [hxp, Psn.wrap_lt_wrap (by omega) (by omega)] at hlt
        omega
      · obtain ⟨a, ha, h₁, h₂⟩ := hB.start_mem hx
        have := Psn.wrap_inj (ha.symm.trans hxp) (by omega) (by omega)
        exact Or.inr (by omega)
  · rintro (rfl | rfl)
    · exact Or.inl rfl
    · rcases hd : sq.inner.dropWhile (fun x => x.psn < Psn.wrap m) with _ | ⟨y, ys⟩
      · rw [hd] at hB
        have hme : m = e := hB
        exact Or.inl (by rw [show m = hi by omega])
      · rw [hd] at hB
        refine Or.inr ⟨y, ?_, hB.1⟩
        have hmem : y ∈ sq.inner.dropWhile (fun x => x.psn < Psn.wrap m) := by
          rw [hd]
          exact mem_cons_self
        exact (dropWhile_sublist _).subset hmem

theorem process_retransmitRange (hA : Contiguous s (sq.inner.takeWhile fun x => x.psn < Psn.wrap lo)
    m) (hB : Contiguous m (sq.inner.dropWhile fun x => x.psn < Psn.wrap lo) e) (hm : lo ≤ m) :
    ∃ after, packetsOf (sq.inner.dropWhile fun x => x.psn < Psn.wrap lo) = some after ∧
      sq.process (.retransmitRange (Psn.wrap lo) (Psn.wrap hi)) =
        some (sq, retransmitted after (Psn.wrap lo) (Psn.wrap hi)) := by
  obtain ⟨m', hC, hD, hm'⟩ := hB.split hwin hA.le (hlo.trans hle) hhi
  obtain ⟨pc, hpc, hnc, hlc⟩ := hC.packets
  obtain ⟨pd, hpd, hnd, hld⟩ := hD.packets
  refine ⟨pc ++ pd, ?_, ?_⟩
  · rw [← packetsOf_append hpc hpd, takeWhile_append_dropWhile]
  · have hrange := sq.range_eq fun x hx => lt_high_of_lt_low hc hwin hlo hle hhi hx
    have hskip : pc.dropWhile (fun x => x.psn < Psn.wrap lo) = pc := by
      cases pc with
      | nil => rfl
      | cons p pc =>
        refine dropWhile_cons_of_neg ?_
        rw [hnc.1, decide_eq_true_eq]
        exact Psn.not_wrap_lt_wrap hm (by omega)
    rw [IbvSendQueue.process, hrange, hpc, map_some, hskip,
      takeWhile_eq_filter hwin hlo hhi hle hnc hm (by omega), retransmitted, filter_append,
      filter_inRange_eq_nil hwin hlo hhi hle hnd (by omega) (by omega) (Or.inr (Or.inl hm')),
      append_nil]

end Range

/-- **When a range is retransmitted in full**: it is empty or starts at the first packet of a queued
work request. -/
theorem sendsRange_iff {sq : IbvSendQueue} {s e lo hi : ℤ} (hc : Contiguous s sq.inner e)
    (hwin : e - s < 2 ^ 23) (hlo : s ≤ lo) (hle : lo ≤ hi) (hhi : hi ≤ e) :
    SendsRange sq lo hi ↔
      Psn.wrap lo = Psn.wrap hi ∨ ∃ x ∈ sq.inner, x.psn = Psn.wrap lo := by
  obtain ⟨m, hA, hB, hm⟩ := hc.split hwin le_rfl hlo (hle.trans hhi)
  have hme := hB.le
  obtain ⟨before, hbefore, hnb, hlb⟩ := hA.packets
  obtain ⟨after, hafter, hproc⟩ := process_retransmitRange hc hwin hlo hle hhi hA hB hm
  have hall : packetsOf sq.inner = some (before ++ after) := by
    rw [← packetsOf_append hbefore hafter, List.takeWhile_append_dropWhile]
  obtain ⟨all, hall', hnall, hlall⟩ := hc.packets
  rw [hall] at hall'
  cases hall'
  rw [eq_low_iff hwin hlo hle hhi hA hB hm]
  constructor
  · rintro ⟨_, sent, hall', hproc', hsent, -⟩
    rw [hall] at hall'
    cases hall'
    rw [hproc] at hproc'
    obtain ⟨-, rfl⟩ := Prod.mk.inj (Option.some.inj hproc')
    -- nothing of the range may lie before the first request found
    have hnil : before.filter (WrChunk.inRange (Psn.wrap lo) (Psn.wrap hi)) = [] := by
      have hlen := congrArg List.length hsent
      rw [retransmitted, retransmitted, List.length_map, List.length_map, List.filter_append,
        List.length_append] at hlen
      exact List.eq_nil_of_length_eq_zero (by omega)
    by_contra hcond
    obtain ⟨p, hp, hpsn⟩ := hnb.exists_psn hlo (by omega)
    have hin := (inRange_iff hwin hlo hhi hle hpsn hlo (by omega)).2 ⟨le_rfl, by omega⟩
    exact List.filter_eq_nil_iff.1 hnil p hp hin
  · intro hcond
    have hskip := filter_inRange_eq_nil hwin hlo hhi hle hnb le_rfl (by omega)
      (by omega : s + before.length ≤ lo ∨ hi ≤ s ∨ lo = hi)
    have hfilter := numbered_filter_inRange hwin hlo hhi hle hnall hlall
    rw [List.filter_append, hskip] at hfilter
    refine ⟨_, _, hall, hproc, ?_, ?_, ?_⟩
    · rw [retransmitted, retransmitted, List.filter_append, hskip, List.nil_append]
    · have hpsn := numbered_iff.1 hfilter.1
      rw [← Int.toNat_natCast (List.length _), hfilter.2] at hpsn
      rw [retransmitted, List.map_map, ← hpsn]
      rfl
    · intro p hp
      obtain ⟨q, -, rfl⟩ := List.mem_map.1 hp
      rfl

/-- A write of 512 bytes at a packet boundary, which is two packets, starting at `psn`. -/
def twoPacketElem (psn : Psn) : SendQueueElem where
  psn := psn
  wr := sampleWr .rdmaWrite 0x2000 512 sampleRaddr_lt (by decide)
  qpParam := sampleQp

/-- The second of two requests is retransmitted in full, across the wrap. -/
theorem sendsRange_second_request :
    SendsRange { inner := [twoPacketElem 0xfffffd, twoPacketElem 0xffffff] } 0xffffff
    0x1000001 := by
  have hc : Contiguous 0xfffffd [twoPacketElem 0xfffffd, twoPacketElem 0xffffff] 0x1000001 := by
    refine .cons_of_length (n := 2) (by decide +kernel) (by decide +kernel) ?_
    exact .cons_of_length (n := 2) (by decide +kernel) (by decide +kernel) rfl
  refine (sendsRange_iff hc (by decide) (by decide) (by decide) (by decide)).2 (Or.inr ?_)
  exact ⟨twoPacketElem 0xffffff, by simp, by decide +kernel⟩

/-- A range that starts at the second packet of a request of two packets is not retransmitted at
all. -/
theorem range_inside_request_lost :
    (default : IbvSendQueue).process (.newWr (twoPacketElem 0)) =
        some ({ inner := [twoPacketElem 0] }, []) ∧
      Contiguous 0 [twoPacketElem 0] 2 ∧
      IbvSendQueue.process { inner := [twoPacketElem 0] } (.retransmitRange 1 2) =
        some ({ inner := [twoPacketElem 0] }, []) ∧
      ¬ SendsRange { inner := [twoPacketElem 0] } 1 2 := by
  have hproc : IbvSendQueue.process { inner := [twoPacketElem 0] }
      (.retransmitRange (Psn.wrap 1) (Psn.wrap 2)) = some ({ inner := [twoPacketElem 0] }, []) := by
    decide +kernel
  refine ⟨by decide +kernel, .cons_of_length (n := 2) (by decide +kernel) (by decide +kernel) rfl,
    hproc, ?_⟩
  rintro ⟨all, sent, -, hsent, -, hpsn, -⟩
  obtain ⟨-, rfl⟩ := Prod.mk.inj (Option.some.inj hsent)
  exact absurd (congrArg length hpsn) (by decide)

end OpenRdma.Driver
