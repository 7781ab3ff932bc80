import OpenRdma.Driver.Retransmission
import OpenRdma.Driver.SendSide

/-!
# The retransmit queue over whole runs

The retransmit worker keeps the requests taken by the write worker, pushes and trims them as its
tasks say, and sends them again. Its tasks come from both sides of the queue pair: a base of the
receive side reaches it like a base of the send side.
-/

namespace OpenRdma.Driver

open Channel SendQueueContext List Option

variable {qp : QpAttr}

/-! ## Requests without gaps -/

/-- The sequence numbers some requests reserved. -/
def total (ys : List Accepted) : ℤ := (ys.map fun y => (y.count : ℤ)).sum

@[simp] theorem total_nil : total [] = 0 := rfl

@[simp] theorem total_cons (y : Accepted) (ys : List Accepted) :
    total (y :: ys) = y.count + total ys :=
  sum_cons

@[simp] theorem total_append (xs ys : List Accepted) : total (xs ++ ys) = total xs + total ys := by
  simp [total]

theorem total_nonneg (ys : List Accepted) : 0 ≤ total ys := by
  induction ys with
  | nil => exact le_rfl
  | cons y ys ih =>
    rw [total_cons]
    omega

/-- The requests reserved one range after the other, from `s` on. -/
def Consecutive : ℤ → List Accepted → Prop
  | _, [] => True
  | s, y :: ys => y.start = s ∧ Consecutive (s + y.count) ys

theorem consecutive_append {s : ℤ} {xs ys : List Accepted} :
    Consecutive s (xs ++ ys) ↔ Consecutive s xs ∧ Consecutive (s + total xs) ys := by
  induction xs generalizing s with
  | nil => simp [Consecutive]
  | cons x xs ih =>
    rw [cons_append, Consecutive, ih, Consecutive, and_assoc, total_cons, add_assoc]

namespace Consecutive

variable {s a : ℤ} {ys : List Accepted} {y : Accepted}

theorem le_start (h : Consecutive s ys) (hy : y ∈ ys) : s ≤ y.start := by
  induction ys generalizing s with
  | nil => cases hy
  | cons x xs ih =>
    rcases mem_cons.1 hy with rfl | hy
    · exact h.1.ge
    · have := ih h.2 hy
      omega

theorem fin_le (h : Consecutive s ys) (hy : y ∈ ys) : y.fin ≤ s + total ys := by
  induction ys generalizing s with
  | nil => cases hy
  | cons x xs ih =>
    have hpos := total_nonneg xs
    rw [total_cons]
    rcases mem_cons.1 hy with rfl | hy
    · rw [Accepted.fin, h.1]
      omega
    · have := ih h.2 hy
      omega

theorem trim (h : Consecutive s ys) (ha : a ≤ s + total ys) :
    (ys.takeWhile (·.start < a) = [] ∧ a ≤ s) ∨
      ∃ xs y zs, ys = xs ++ y :: zs ∧ (ys.takeWhile (·.start < a)).length = xs.length + 1 ∧
        s + total xs < a ∧ a ≤ s + total xs + y.count := by
  induction ys generalizing s with
  | nil => exact Or.inl ⟨rfl, by simpa using ha⟩
  | cons y ys ih =>
    rw [total_cons] at ha
    by_cases hy : y.start < a
    · right
      have hlt := h.1 ▸ hy
      rw [takeWhile_cons_of_pos (by simpa using hy)]
      rcases ih h.2 (by omega) with ⟨hnil, hle⟩ | ⟨xs, z, zs, rfl, hlen, h₁, h₂⟩
      · exact ⟨[], y, ys, rfl, by rw [hnil]; rfl, by simpa using hlt, by simpa using hle⟩
      · refine ⟨y :: xs, z, zs, rfl, ?_, ?_, ?_⟩
        · rw [length_cons, hlen, length_cons]
        · rw [total_cons]
          omega
        · rw [total_cons]
          omega
    · refine Or.inl ⟨takeWhile_cons_of_neg (by simpa using hy), ?_⟩
      have := h.1
      omega

end Consecutive

variable {ys : List Accepted} {ps all : List WrChunk}

/-! ## Trimming -/

/-- **Trimming the queue**: the requests that go end before the base, and what is left starts less
than one request before the base. -/
theorem popUntil_cases {sq : IbvSendQueue} {s a : ℤ}
    (hq : sq.inner = ys.map (Accepted.elem qp)) (hc : Consecutive s ys) (ha : a ≤ s + total ys)
    (h₁ : a - s < 2 ^ 23) (h₂ : s + total ys - a ≤ 2 ^ 23) :
    ((sq.popUntil (Psn.wrap a)).inner = ys.map (Accepted.elem qp) ∧ a ≤ s) ∨
      ∃ xs y zs, ys = xs ++ y :: zs ∧
        (sq.popUntil (Psn.wrap a)).inner = (y :: zs).map (Accepted.elem qp) ∧
        s + total xs < a ∧ a ≤ s + total xs + y.count := by
  have hcmp : ∀ y ∈ ys, decide ((y.elem qp).psn < Psn.wrap a) = decide (y.start < a) := by
    intro y hy
    have hs := hc.le_start hy
    have hf := hc.fin_le hy
    unfold Accepted.fin at hf
    exact decide_eq_decide.2 (Psn.wrap_lt_wrap (by omega) (by omega))
  have hpoint : partitionPoint (fun x : SendQueueElem => x.psn < Psn.wrap a) sq.inner =
      (ys.takeWhile (·.start < a)).length := by
    rw [hq, partitionPoint_map hcmp, partitionPoint]
  unfold IbvSendQueue.popUntil
  dsimp only
  rw [hpoint, hq]
  rcases hc.trim ha with ⟨hnil, hle⟩ | ⟨xs, y, zs, rfl, hlen, h₁, h₂⟩
  · exact Or.inl ⟨by rw [hnil]; rfl, hle⟩
  · refine Or.inr ⟨xs, y, zs, rfl, ?_, h₁, h₂⟩
    rw [hlen, Nat.add_sub_cancel, map_append, drop_left' (length_map _)]

/-! ## Sending everything again -/

/-- The request can be cut into packets, at least as many as it reserved numbers. -/
def Accepted.Resendable (qp : QpAttr) (y : Accepted) : Prop :=
  ∃ ps, (y.elem qp).packets = some ps ∧ y.count ≤ ps.length

theorem Numbered.mem_dropWhile {s Q : ℤ} (hn : Numbered s ps) (hs : s - Q ≤ 2 ^ 23)
    {j : ℕ} {p : WrChunk} (hp : ps[j]? = some p) (hj : Q ≤ s + j) :
    p ∈ ps.dropWhile fun x => x.psn < Psn.wrap Q := by
  induction ps generalizing s j with
  | nil => simp at hp
  | cons x xs ih =>
    by_cases hx : x.psn < Psn.wrap Q
    · -- `x` is skipped, so its number is before the base
      have hlt : s < Q := by
        by_contra hge
        exact Psn.not_wrap_lt_wrap (not_lt.1 hge) hs (hn.1 ▸ hx)
      rw [dropWhile_cons_of_pos (by simpa using hx)]
      cases j with
      | zero =>
        omega
      | succ j =>
        refine ih hn.2 (by omega) hp ?_
        omega
    · rw [dropWhile_cons_of_neg (by simpa using hx)]
      exact mem_of_getElem? hp

theorem packetsOf_cons {x : SendQueueElem} {xs : List SendQueueElem}
    (h : packetsOf (x :: xs) = some all) : ∃ ps rest, x.packets = some ps ∧
    packetsOf xs = some rest ∧ all = ps ++ rest := by
  obtain ⟨ps, hps, h⟩ := bind_eq_some_iff.1 h
  obtain ⟨rest, hrest, rfl⟩ := map_eq_some_iff.1 h
  exact ⟨ps, rest, hps, hrest, rfl⟩

theorem exists_packetsOf (hr : ∀ y ∈ ys, y.Resendable qp) :
    ∃ all, packetsOf (ys.map (Accepted.elem qp)) = some all := by
  induction ys with
  | nil => exact ⟨[], rfl⟩
  | cons y ys ih =>
    rw [forall_mem_cons] at hr
    obtain ⟨ps, hps, -⟩ := hr.1
    obtain ⟨rest, hrest⟩ := ih hr.2
    exact ⟨ps ++ rest, by rw [map_cons, packetsOf, hps, bind_some, hrest, map_some]⟩

theorem packets_subset {xs : List SendQueueElem} {x : SendQueueElem}
    (h : packetsOf xs = some all) (hx : x ∈ xs) (hps : x.packets = some ps) : ps ⊆ all := by
  induction xs generalizing all with
  | nil => cases hx
  | cons z zs ih =>
    obtain ⟨qs, rest, hqs, hrest, rfl⟩ := packetsOf_cons h
    rcases mem_cons.1 hx with rfl | hx
    · obtain rfl := some.inj (hqs.symm.trans hps)
      exact subset_append_left _ _
    · exact fun p hp => mem_append_right _ (ih hrest hx hp)

/-- **Sending everything again** sends every packet at the base or after it, of every request. -/
theorem mem_dropWhile_packetsOf {s Q : ℤ}
    (hr : ∀ y ∈ ys, y.Resendable qp) (hc : Consecutive s ys) (hs : s - Q ≤ 2 ^ 23)
    (hall : packetsOf (ys.map (Accepted.elem qp)) = some all) {y : Accepted} (hy : y ∈ ys)
    (hps : (y.elem qp).packets = some ps) {j : ℕ} {p : WrChunk} (hp : ps[j]? = some p) (hj : Q ≤
    y.start + j) : p ∈ all.dropWhile fun x => x.psn < Psn.wrap Q := by
  induction ys generalizing s all with
  | nil => cases hy
  | cons x xs ih =>
    rw [forall_mem_cons] at hr
    obtain ⟨⟨qs', hqs', hcount⟩, hr⟩ := hr
    obtain ⟨qs, rest, hqs, hrest, rfl⟩ := packetsOf_cons hall
    obtain rfl := some.inj (hqs.symm.trans hqs')
    have hn : Numbered s qs := (SendQueueElem.numbered_packets (congrArg Psn.wrap hc.1) hqs).1
    rw [dropWhile_append]
    rcases mem_cons.1 hy with rfl | hy
    · obtain rfl := some.inj (hqs.symm.trans hps)
      have hmem := hn.mem_dropWhile hs hp (hc.1 ▸ hj)
      rw [if_neg (by simpa [List.isEmpty_iff] using List.ne_nil_of_mem hmem)]
      exact mem_append_left _ hmem
    · split_ifs with hnil
      · -- the packets of `x` are all skipped, so the next request starts at the base or before it
        refine ih hr hc.2 ?_ hrest hy
        by_contra hlt
        have hlast := getElem?_eq_getElem (show x.count - 1 < qs.length by omega)
        have hmem := hn.mem_dropWhile hs hlast (by omega)
        rw [List.isEmpty_iff.1 hnil] at hmem
        cases hmem
      · exact mem_append_right _ (packets_subset hrest (mem_map_of_mem hy) hps
          (mem_of_getElem? hp))

/-! ## The queue and the tasks in flight -/

/-- What a task tells the retransmit worker about the requests pushed and the largest base so
far. -/
def QueueView (qp : QpAttr) (v : List Accepted × ℤ) :
    PacketRetransmitTask → List Accepted × ℤ → Prop
  | .newWr x, v' => ∃ y, x = y.elem qp ∧ v' = (v.1 ++ [y], v.2)
  | .ack psn, v' =>
    ∃ a, psn = Psn.wrap a ∧ a ≤ total v.1 ∧ total v.1 - a ≤ 2 ^ 23 ∧ a < v.2 + 2 ^ 22 ∧
      v' = (v.1, max v.2 a)
  | _, v' => v' = v

/-- The requests pushed by the tasks in flight. -/
def pushed : List PacketRetransmitTask → List SendQueueElem
  | [] => []
  | .newWr x :: ch => x :: pushed ch
  | _ :: ch => pushed ch

theorem QueueView.exists_pending {v v' : List Accepted × ℤ} {ch : List PacketRetransmitTask}
    (h : InFlight (QueueView qp) v ch v') :
    (∃ pending, v.1 ++ pending = v'.1 ∧ pushed ch = pending.map (Accepted.elem qp)) ∧
    v.2 ≤ v'.2 := by
  induction ch generalizing v with
  | nil =>
    obtain rfl : v = v' := h
    exact ⟨⟨[], append_nil _, rfl⟩, le_rfl⟩
  | cons t ch ih =>
    obtain ⟨u, hu, h⟩ := h
    obtain ⟨⟨pending, hp, hpushed⟩, hle⟩ := ih h
    cases t with
    | newWr x =>
      obtain ⟨y, rfl, rfl⟩ := hu
      refine ⟨⟨y :: pending, ?_, ?_⟩, hle⟩
      · rw [← hp, append_assoc]
        rfl
      · rw [pushed, hpushed]
        rfl
    | ack psn =>
      obtain ⟨a, -, -, -, -, rfl⟩ := hu
      exact ⟨⟨pending, hp, hpushed⟩, (le_max_left _ _).trans hle⟩
    | retransmitRange low high =>
      obtain rfl : u = v := hu
      exact ⟨⟨pending, hp, hpushed⟩, hle⟩
    | retransmitAll =>
      obtain rfl : u = v := hu
      exact ⟨⟨pending, hp, hpushed⟩, hle⟩

/-- The retransmit queue: of the requests pushed so far it holds all but some that end before the
largest base `M`, it starts less than `2 ^ 22` before `M`, and its own base `Q` is not ahead of
`M`. -/
structure QueueInv (qp : QpAttr) (sq : IbvSendQueue) (ch : List PacketRetransmitTask)
    (h : SendHistory) (removed rest : List Accepted) (M Q : ℤ) : Prop where
  view : InFlight (QueueView qp) (removed ++ rest, M) ch (h.accepted, h.base)
  inner : sq.inner = rest.map (Accepted.elem qp)
  base : sq.basePsn = Psn.wrap Q
  removed_le : total removed ≤ M
  lt_removed : M - total removed < 2 ^ 22
  le_base : total removed - Q ≤ 2 ^ 23
  base_le : Q ≤ M

/-- The requests taken: their ranges follow each other up to the next number, and each is smaller
than half the window and can be sent again. -/
structure AcceptedInv (qp : QpAttr) (h : SendHistory) : Prop where
  consecutive : Consecutive 0 h.accepted
  total_eq : total h.accepted = h.next
  resendable : ∀ y ∈ h.accepted, y.Resendable qp ∧ (y.count : ℤ) < 2 ^ 22

namespace QueueInv

variable {sq : IbvSendQueue} {ch : List PacketRetransmitTask} {h : SendHistory}
  {removed rest : List Accepted} {M Q : ℤ}

theorem of_accepted (hq : QueueInv qp sq ch h removed rest M Q) (ha : AcceptedInv qp h) :
    Consecutive (total removed) rest ∧ ∀ y ∈ removed ++ rest, y.Resendable qp ∧
    (y.count : ℤ) < 2 ^ 22 := by
  obtain ⟨pending, hpending, -⟩ := (QueueView.exists_pending hq.view).1
  dsimp only at hpending
  have hc := ha.consecutive
  rw [← hpending, consecutive_append, consecutive_append] at hc
  refine ⟨by simpa using hc.1.2, fun y hy => ha.resendable y ?_⟩
  rw [← hpending]
  exact mem_append_left _ hy

theorem newWr {x : SendQueueElem} (hq : QueueInv qp sq (.newWr x :: ch) h removed rest M Q) :
    ∃ y, QueueInv qp (sq.push x) ch h removed (rest ++ [y]) M Q := by
  obtain ⟨v, ⟨y, rfl, rfl⟩, hview⟩ := hq.view
  refine ⟨y, { hq with view := ?_, inner := ?_ }⟩
  · rwa [append_assoc] at hview
  · rw [IbvSendQueue.push, hq.inner, map_append]
    rfl

theorem ack {psn : Psn} (hq : QueueInv qp sq (.ack psn :: ch) h removed rest M Q)
    (ha : AcceptedInv qp h) : ∃ removed' rest' M' Q',
    QueueInv qp (sq.popUntil psn) ch h removed' rest' M' Q' := by
  obtain ⟨hc, hgood⟩ := hq.of_accepted ha
  obtain ⟨v, ⟨a, rfl, hle, hwin, hlt, rfl⟩, hview⟩ := hq.view
  have h₁ := hq.removed_le
  have h₂ := hq.lt_removed
  have hrest := total_nonneg rest
  rw [total_append] at hle hwin
  rcases popUntil_cases hq.inner hc hle (by omega) (by omega) with
    ⟨hinner, has⟩ | ⟨xs, y, zs, rfl, hinner, hlo, hhi⟩
  · exact ⟨removed, rest, max M a, a, hview, hinner, rfl, by omega, by omega, by omega, by omega⟩
  · have hy := (hgood y (by simp)).2
    refine ⟨removed ++ xs, y :: zs, max M a, a, ?_, hinner, rfl, ?_, ?_, ?_, by omega⟩
    · rwa [append_assoc]
    all_goals
      have := total_nonneg xs
      rw [total_append]
      omega

theorem send (hq : QueueInv qp sq ch h removed rest M Q) {h' : SendHistory}
    {ts : List PacketRetransmitTask} (hts : InFlight (QueueView qp) (h.accepted, h.base) ts
    (h'.accepted, h'.base)) : QueueInv qp sq (ch ++ ts) h' removed rest M Q :=
  { hq with view := hq.view.append hts }

end QueueInv

variable {s : Workers} {h : SendHistory} {wr : SendWrRdma}

/-! ## What is sent to the worker -/

/-- The base of the receive side is not ahead of the base of the send side, and less than half a
circle behind the next number to send. -/
def Workers.RecvBaseBehind (s : Workers) (recvBase : Psn) : Prop :=
  (s.ctx.psn - recvBase).inner ≤ 2 ^ 23 ∧
    (s.handler.send.psnTracker.basePsn - recvBase).inner ≤ (s.ctx.psn - recvBase).inner

instance (s : Workers) (p : Psn) : Decidable (s.RecvBaseBehind p) :=
  inferInstanceAs (Decidable (_ ∧ _))

theorem Workers.RecvBaseBehind.exists_lift {W : ℤ} (hW : W < 2 ^ 22)
    {p : Psn} (hp : s.RecvBaseBehind p) (hc : s.Core W h) :
    ∃ a, p = Psn.wrap a ∧ a ≤ h.base ∧ h.next - a ≤ 2 ^ 23 := by
  have hwin := hc.next_sub_base_le
  obtain ⟨h₁, h₂⟩ := hp
  rw [hc.psn, hc.sound.base] at h₂
  rw [hc.psn] at h₁
  have hlift := Psn.lift_lt h.next p
  have hlift' := Psn.le_lift h.next p
  refine ⟨Psn.lift h.next p, (Psn.wrap_lift _ _).symm, ?_, by omega⟩
  rw [← Psn.wrap_lift h.next p] at h₁ h₂
  generalize Psn.lift h.next p = a at *
  by_contra hlt
  rcases lt_or_ge h.next a with ha | ha
  · have := Psn.wrap_sub_of_lt ha (by omega)
    omega
  · have hb := Psn.wrap_sub_of_lt (not_le.1 hlt) (by omega)
    omega

theorem psnCount_le_packetCount {P addr length : ℕ} (hP : 0 < P) :
    psnCount P addr length ≤ packetCount P addr length := by
  rw [packetCount_eq hP, psnCount]
  have hmod := Nat.mod_lt addr hP
  split_ifs with h₁ h₂ h₃ h₄
  · exact le_rfl
  · rw [divCeil_eq_one (by omega) h₁]
  · omega
  · rw [h₃, Nat.zero_add]
  · omega
  · omega

theorem reserved_le_packetCount {n P : ℕ}
    (hpmtu : convertIbvMtuToU16 qp.pmtu = some P) (hP : 0 < P) (hfit : wr.raddr + wr.length <
      2 ^ 64)
    (hn : reservedPsns wr qp.pmtu = some n) : n ≤ packetCount P wr.raddr wr.length := by
  unfold reservedPsns at hn
  split_ifs at hn
  · cases hn
    unfold packetCount numPieces
    split_ifs <;> omega
  · rw [numPsn_eq hpmtu hfit wr.length_lt, some.injEq] at hn
    exact hn ▸ psnCount_le_packetCount hP

theorem resendable_of_fit {n msn : ℕ} {start : ℤ}
    (hpmtu : (convertIbvMtuToU16 qp.pmtu).isSome) (hfit : AddressesFit wr)
    (hn : reservedPsns wr qp.pmtu = some n) : Accepted.Resendable qp ⟨msn, start, n, wr⟩ := by
  obtain ⟨P, hP⟩ := isSome_iff_exists.1 hpmtu
  obtain ⟨k, hk₁, hk₂, rfl⟩ := convertIbvMtuToU16_eq hP
  have hpos := Nat.two_pow_pos k
  have hpow : 2 ^ k ≤ wrChunkSize := Nat.le_of_dvd (by decide) (two_pow_dvd_wrChunkSize hk₂)
  have hcuts := hfit.cutsFit dvd_rfl hpos hpow
  have hr := hfit.1
  have hP' : convertIbvMtuToU16 (qp.params (Msn.wrap msn)).pmtu = some (2 ^ k) := hP
  obtain ⟨ps, hps⟩ : ∃ ps, wrPacketFragmenter wr (qp.params (Msn.wrap msn)) (Psn.wrap start) =
    some ps :=
    ⟨_, by rw [wrPacketFragmenter_eq hP' (by omega) (by omega), if_pos hcuts]⟩
  refine ⟨ps, hps, ?_⟩
  obtain ⟨k', -, -, hk', -, hmap⟩ := wrPacketFragmenter_some hps
  have hlen := congrArg length hmap
  rw [length_map, length_map, length_range, ← some.inj (hP'.symm.trans hk')] at hlen
  rw [hlen]
  exact reserved_le_packetCount hP hpos (by omega) hn

/-! ## Runs -/

/-- The steps of a run in which the queue is safe: the peer acknowledges only what was sent,
requests leave less than `2 ^ 22` numbers outstanding and can be cut into packets, and a base of the
receive side that a report of the local card sends to the retransmit worker is behind the base of
the send side. -/
def RetransmitOk (qp : QpAttr) (w : Workers × SendHistory) (l : Label) : Prop :=
  CoreOk (2 ^ 22 - 1) qp w l ∧
    match l with
    | .report m => m.isLocalHw → ∀ p ∈ m.recvAck w.1.handler, w.1.RecvBaseBehind p
    | .runRdmaWrite =>
      ∀ wr ∈ w.1.nextRequest, (convertIbvMtuToU16 qp.pmtu).isSome ∧ AddressesFit wr
    | _ => True

instance (qp : QpAttr) (w : Workers × SendHistory) : (l : Label) → Decidable (RetransmitOk qp w l)
  | .report _ | .runRdmaWrite | .post _ | .postRecv _ | .timeout | .runRetransmit
      | .runCompletion => by
    dsimp only [RetransmitOk]
    infer_instance

structure QueueSafe (qp : QpAttr) (s : Workers) (h : SendHistory) : Prop where
  core : s.Core (2 ^ 22 - 1) h
  accepted : AcceptedInv qp h
  queue : ∃ removed rest M Q, QueueInv qp s.sq s.retransmitCh h removed rest M Q

theorem inFlight_report {h' : SendHistory} {m : ReportMeta}
    {r : MetaHandler × MetaOutput} (hr : s.handler.handleMeta m = some r)
    (hok : RetransmitOk qp (s, h) (.report m)) (hc : s.Core (2 ^ 22 - 1) h)
    (htotal : total h.accepted = h.next) (hh' : h' =
      h.record qp s (s.afterReport r.1 r.2) (.report m))
    (hc' : (s.afterReport r.1 r.2).Core (2 ^ 22 - 1) h') :
    InFlight (QueueView qp) (h.accepted, h.base) r.2.packetRetransmit (h'.accepted, h'.base) := by
  have hspec := MetaHandler.handleMeta_spec hr
  have hacc : h'.accepted = h.accepted := by rw [hh']; rfl
  have hnext : h'.next = h.next := by rw [hh']; rfl
  have hbase : h'.base = advance h.base s.handler.send.psnTracker.basePsn
      (s.handler.send.psnTracker.applyAll (m.sendOps s.handler)).1.basePsn := by
    rw [hh', ← hspec.send]
    rfl
  have hle : h.base ≤ h'.base := hbase ▸ le_advance _ _ _
  have h₂ := hc.next_sub_base_le
  have h₃ := hc'.base_le_next
  have hsend : InFlight (QueueView qp) (h.accepted, h.base)
      ((m.sendAck s.handler).map PacketRetransmitTask.ack).toList (h'.accepted, h'.base) := by
    rw [hacc]
    cases hack : m.sendAck s.handler with
    | none =>
      rw [hbase, PsnTracker.applyAll_of_none hack, advance_self]
      exact InFlight.refl _
    | some p =>
      have hp : p = Psn.wrap h'.base := by
        rw [← hc'.sound.base, ← PsnTracker.applyAll_of_some hack, ← hspec.send]
        rfl
      refine InFlight.single ⟨h'.base, hp, ?_, ?_, ?_, ?_⟩
      · dsimp only
        omega
      · dsimp only
        omega
      · omega
      · rw [max_eq_right hle]
  have hrecv : InFlight (QueueView qp) (h'.accepted, h'.base)
      (if m.isLocalHw then ((m.recvAck s.handler).map PacketRetransmitTask.ack).toList else [])
      (h'.accepted, h'.base) := by
    refine InFlight.of_forall fun t ht => ?_
    split_ifs at ht with hlocal
    · obtain ⟨p, hp, rfl⟩ := mem_map.1 (mem_toList.1 ht)
      obtain ⟨a, rfl, ha, hwin⟩ := (hok.2 hlocal p hp).exists_lift (by norm_num) hc
      refine ⟨a, rfl, ?_, ?_, ?_, ?_⟩
      · rw [hacc, htotal]
        omega
      · rw [hacc, htotal]
        omega
      · omega
      · rw [max_eq_left (by omega)]
    · cases ht
  have hrange : InFlight (QueueView qp) (h'.accepted, h'.base) m.range (h'.accepted, h'.base) := by
    refine InFlight.of_forall fun t ht => ?_
    cases m <;> simp only [ReportMeta.range, mem_singleton, not_mem_nil] at ht <;>
      (rw [ht]; rfl)
  rw [hspec.packetRetransmit]
  exact (hsend.append hrecv).append hrange

theorem AcceptedInv.take (ha : AcceptedInv qp h) {n : ℕ}
    (hr : Accepted.Resendable qp ⟨h.accepted.length, h.next, n, wr⟩) (hn : (n : ℤ) < 2 ^ 22) :
    AcceptedInv qp (h.take wr n) where
  consecutive := by
    refine consecutive_append.2 ⟨ha.consecutive, ?_, trivial⟩
    rw [ha.total_eq, zero_add]
  total_eq := by
    rw [SendHistory.take, total_append, ha.total_eq, total_cons, total_nil, add_zero]
  resendable := by
    intro y hy
    rcases mem_append.1 hy with hy | hy
    · exact ha.resendable y hy
    · rw [mem_singleton.1 hy]
      exact ⟨hr, hn⟩

/-- **Every step keeps the retransmit queue safe.** -/
theorem QueueSafe.step {w w' : Workers × SendHistory} {l : Label} (hq : QueueSafe qp w.1 w.2)
    (hok : RetransmitOk qp w l) (hs : sendStep qp w l = some w') : QueueSafe qp w'.1 w'.2 := by
  have hcore := hq.core.step (by norm_num) hok.1.roomOk hs
  obtain ⟨s, h⟩ := w
  obtain ⟨removed, rest, M, Q, hinv⟩ := hq.queue
  cases sendFires_of_step hok.1.roomOk hs with
  | idle => exact hq
  | post | postRecv | runCompletion => exact ⟨hcore, hq.accepted, removed, rest, M, Q, hinv⟩
  | report hr =>
    refine ⟨hcore, ⟨hq.accepted.consecutive, hq.accepted.total_eq, hq.accepted.resendable⟩, removed,
      rest, M, Q, hinv.send ?_⟩
    exact inFlight_report hr hok hq.core hq.accepted.total_eq rfl hcore
  | timeout => exact ⟨hcore, hq.accepted, removed, rest, M, Q, hinv.send (InFlight.single rfl)⟩
  | ack | newComplete => exact ⟨hcore, hq.accepted, removed, rest, M, Q,
      hinv.send (InFlight.refl _)⟩
  | refuse =>
    exact ⟨hcore, ⟨hq.accepted.consecutive, hq.accepted.total_eq, hq.accepted.resendable⟩, removed,
      rest, M, Q, hinv.send (InFlight.refl _)⟩
  | @take wr ch n r hch ht =>
    have hnext : s.nextRequest = some wr := by simp [Workers.nextRequest, hch]
    obtain ⟨hpmtu, hfit⟩ := hok.2 wr hnext
    have hn := (hok.1 wr hnext).2 n ht.reserved
    refine ⟨hcore, hq.accepted.take (resendable_of_fit hpmtu hfit ht.reserved) (by omega), removed,
      rest, M, Q, hinv.send ?_⟩
    rw [ht.retransmit, hq.core.psn, hq.core.msn]
    exact InFlight.single ⟨_, rfl, rfl⟩
  | @runRetransmit task ch r hch hr =>
    rw [hch] at hinv
    cases task with
    | newWr x =>
      cases hr
      obtain ⟨y, hinv⟩ := hinv.newWr
      exact ⟨hcore, hq.accepted, removed, rest ++ [y], M, Q, hinv⟩
    | ack psn =>
      cases hr
      obtain ⟨removed', rest', M', Q', hinv⟩ := hinv.ack hq.accepted
      exact ⟨hcore, hq.accepted, removed', rest', M', Q', hinv⟩
    | retransmitRange psnLow psnHigh =>
      obtain ⟨packets, -, rfl⟩ := map_eq_some_iff.1 hr
      obtain ⟨v, rfl, hview⟩ := hinv.view
      exact ⟨hcore, hq.accepted, removed, rest, M, Q, { hinv with view := hview }⟩
    | retransmitAll =>
      obtain ⟨packets, -, rfl⟩ := map_eq_some_iff.1 hr
      obtain ⟨v, rfl, hview⟩ := hinv.view
      exact ⟨hcore, hq.accepted, removed, rest, M, Q, { hinv with view := hview }⟩

theorem queueSafe_init : QueueSafe qp {} {} where
  core := sendCore_init _ (by norm_num)
  accepted := ⟨trivial, rfl, fun y hy => absurd hy not_mem_nil⟩
  queue := ⟨[], [], 0, 0, rfl, rfl, rfl, le_rfl, by simp, by simp, le_rfl⟩

/-- **The retransmit queue loses nothing**: a request that was taken is pushed to the queue, and
leaves it only when the peer acknowledged all its numbers; and sending everything again sends every
packet of every queued request whose number is not before the base of the send side. -/
def KeepsUnacked (qp : QpAttr) (s : Workers) (h : SendHistory) : Prop :=
  ∃ removed rest pending, h.accepted = removed ++ rest ++ pending ∧
    s.sq.inner = rest.map (Accepted.elem qp) ∧
    pushed s.retransmitCh = pending.map (Accepted.elem qp) ∧
    (∀ y ∈ removed, ∀ a, y.start ≤ a → a < y.fin → a ∈ h.acked) ∧
    ∃ sent, s.sq.process .retransmitAll = some (s.sq, sent) ∧
      ∀ y ∈ rest, ∃ ps, (y.elem qp).packets = some ps ∧ ∀ (j : ℕ) (p : WrChunk), ps[j]? = some p →
        h.base ≤ y.start + j → p.setIsRetry ∈ sent

theorem QueueSafe.keepsUnacked (hq : QueueSafe qp s h) : KeepsUnacked qp s h := by
  obtain ⟨removed, rest, M, Q, hinv⟩ := hq.queue
  obtain ⟨hc, hgood⟩ := hinv.of_accepted hq.accepted
  obtain ⟨⟨pending, hpending, hpushed⟩, hM⟩ := QueueView.exists_pending hinv.view
  dsimp only at hpending hM
  have hc₀ := hq.accepted.consecutive
  rw [← hpending, consecutive_append, consecutive_append] at hc₀
  have hremoved := hinv.removed_le
  have hQ := hinv.base_le
  refine ⟨removed, rest, pending, hpending.symm, hinv.inner, hpushed, fun y hy a h₁ h₂ => ?_, ?_⟩
  · have h₃ := hc₀.1.1.le_start hy
    have h₄ := hc₀.1.1.fin_le hy
    exact hq.core.sound.below a (by omega) (by omega)
  · have hr : ∀ y ∈ rest, y.Resendable qp := fun y hy => (hgood y (mem_append_right _ hy)).1
    obtain ⟨all, hall⟩ := exists_packetsOf hr
    refine ⟨_, by rw [IbvSendQueue.process, hinv.inner, hall, map_some], fun y hy => ?_⟩
    obtain ⟨ps, hps, -⟩ := hr y hy
    refine ⟨ps, hps, fun j p hp hj => mem_map_of_mem ?_⟩
    rw [hinv.base]
    exact mem_dropWhile_packetsOf hr hc hinv.le_base hall hy hps hp (by omega)

/-- **In every run whose steps are safe the retransmit queue loses nothing.** -/
theorem run_keepsUnacked {ls : List Label} {w : Workers × SendHistory}
    (h : Run (sendStep qp) (RetransmitOk qp) ({}, {}) ls w) : KeepsUnacked qp w.1 w.2 :=
  (h.invariant (I := fun _ w => QueueSafe qp w.1 w.2) queueSafe_init
    fun _ _ _ _ hq hok hs => hq.step hok hs).keepsUnacked

/-- Three packets are taken and pushed. -/
def threePackets : List Label :=
  [.post samplePacket, .post samplePacket, .post samplePacket, .runRdmaWrite, .runRdmaWrite,
    .runRdmaWrite, .runRetransmit, .runRetransmit, .runRetransmit]

/-- The peer acknowledges two packets and one packet arrived: the first request goes, the last two
are sent again. -/
theorem run_keepsUnacked_both_sides :
    ∃ w, Run (sendStep sampleAttr) (RetransmitOk sampleAttr) ({}, {})
        (threePackets ++ [.report (.ackRemoteDriver 2), .report (.ackLocalHw 1 0), .runRetransmit,
          .runRetransmit, .timeout, .runRetransmit]) w ∧
      w.1.sq.inner.map SendQueueElem.psn = [1, 2] ∧ KeepsUnacked sampleAttr w.1 w.2 :=
  ⟨_, .of_isSome (by decide +kernel), by decide +kernel, run_keepsUnacked (.of_isSome _)⟩

/-- Two packets arrived and the peer acknowledged nothing: the base of the receive side makes the
worker drop the first of three requests. -/
theorem run_drops_unacked :
    ∃ w, Run (sendStep sampleAttr) (CoreOk (2 ^ 22 - 1) sampleAttr) ({}, {})
        (threePackets ++ [.report (.ackLocalHw 2 0), .runRetransmit]) w ∧
      ¬ KeepsUnacked sampleAttr w.1 w.2 := by
  have h : (exec (sendStep sampleAttr) (CoreOk (2 ^ 22 - 1) sampleAttr) ({}, {})
      (threePackets ++ [.report (.ackLocalHw 2 0), .runRetransmit])).map
        (fun w => (w.2.accepted.map Accepted.count, w.1.sq.inner.length,
          (pushed w.1.retransmitCh).length, w.2.acks)) = some ([1, 1, 1], 2, 0, []) := by
    decide +kernel
  obtain ⟨w, hw, hfacts⟩ := map_eq_some_iff.1 h
  simp only [Prod.mk.injEq] at hfacts
  obtain ⟨hcounts, hinner, hpushed, hacks⟩ := hfacts
  refine ⟨w, Run.of_exec hw, ?_⟩
  rintro ⟨removed, rest, pending, hacc, hrest, hpending, hacked, -⟩
  rw [hrest, length_map] at hinner
  rw [hpending, length_map] at hpushed
  have hlen := congrArg length hcounts
  rw [hacc] at hlen
  obtain ⟨y, hy⟩ : ∃ y, y ∈ removed := exists_mem_of_length_pos (by simp at hlen; omega)
  have hcount : y.count = 1 := by
    have : y.count ∈ w.2.accepted.map Accepted.count :=
      mem_map_of_mem (by rw [hacc]; simp [hy])
    rw [hcounts] at this
    simpa using this
  have := hacked y hy y.start le_rfl (by rw [Accepted.fin]; omega)
  rw [SendHistory.acked, hacks, ackedIn_nil] at this
  exact this

end OpenRdma.Driver
