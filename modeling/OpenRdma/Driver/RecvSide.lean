import OpenRdma.Driver.Posting
import OpenRdma.Driver.System
import OpenRdma.Driver.Traffic
import OpenRdma.Foundations.Channel
import OpenRdma.Foundations.Run

/-!
# The receive side of a queue pair

The receive side with its history: the packets of the peer's messages that arrived, the reports of
their headers, what the reports acknowledged, and the base of the tracker. The base the completion
worker works with lags behind the base of the tracker by the tasks in flight (`RecvSees`). What
every run keeps in which the reports describe packets that arrived and the last packet of a message
is reported before the base passes it is `RecvSafe` (`RecvSafe.step`).
-/

namespace OpenRdma.Driver

open Channel EventMeta List MessageTracker QueuePairMessageTracker

/-! ## History -/

/-- What can happen next: a packet arrives, the card reports the header of a packet, or anything
else. -/
inductive RecvLabel
  | arrive (a : ℕ)
  | header (i j : ℕ) (isRetry : Bool)
  | other (l : Label)
  deriving DecidableEq

/-- The step of the workers. The arrival of a packet is none. -/
def RecvLabel.label (tr : Traffic) : RecvLabel → Option Label
  | .arrive _ => none
  | .header i j isRetry => some (.report (tr.header i j isRetry))
  | .other l => some l

/-- The history of the receive side: the sequence numbers that arrived, the packets whose headers
were reported, the messages whose events were registered, the calls on the tracker, and its base. -/
structure RecvHistory where
  arrived : List ℕ := []
  headers : List (ℕ × ℕ) := []
  registered : List ℕ := []
  acks : List (ℤ × AckOp) := []
  base : ℤ := 0
  deriving DecidableEq

namespace RecvHistory

def report (h : RecvHistory) (s s' : Workers) (m : ReportMeta) : RecvHistory :=
  { h with
    acks := h.acks ++ calls s.handler.recv.psnTracker h.base (m.recvOps s.handler)
    base := advance h.base s.handler.recv.psnTracker.basePsn s'.handler.recv.psnTracker.basePsn }

def record (tr : Traffic) (h : RecvHistory) (s s' : Workers) : RecvLabel → RecvHistory
  | .arrive a => { h with arrived := a :: h.arrived }
  | .header i j isRetry =>
    { h.report s s' (tr.header i j isRetry) with
      headers := h.headers ++ [(i, j)]
      registered := h.registered ++ if tr.Registers i j then [i] else [] }
  | .other (.report m) => h.report s s' m
  | .other _ => h

end RecvHistory

/-- A step of the workers that records the history of the receive side. -/
def recvStep (tr : Traffic) (qp : QpAttr) (w : Workers × RecvHistory) (l : RecvLabel) :
    Option (Workers × RecvHistory) :=
  match l.label tr with
  | none => some (w.1, w.2.record tr w.1 w.1 l)
  | some l' => (w.1.step qp l').map fun s' => (s', w.2.record tr w.1 s' l)

/-! ## What reports may say -/

/-- Everything the call acknowledges at base `B`, from the start of the connection on, has `P`. -/
def AckOp.Within (B : ℤ) (P : ℕ → Prop) : AckOp → Prop
  | .one psn => 0 ≤ Psn.lift B psn → P (Psn.lift B psn).toNat
  | .before psn => ∀ a < (Psn.lift B psn).toNat, P a
  | .range psnLow psnHigh => ∀ a < (Psn.lift B psnHigh).toNat, Psn.lift B psnLow ≤ (a : ℤ) → P a
  | .bitmap nowPsn bm => ∀ x < 128, bm.getLsbD x = true → 0 ≤ Psn.lift B nowPsn + (x : ℕ) →
      P (Psn.lift B nowPsn + (x : ℕ)).toNat

instance (B : ℤ) (P : ℕ → Prop) [DecidablePred P] : (op : AckOp) → Decidable (op.Within B P)
  | .one _ | .before _ | .range .. | .bitmap .. => by
    dsimp only [AckOp.Within]
    infer_instance

theorem AckOp.within_iff {B : ℤ} {P : ℕ → Prop} {op : AckOp} :
    op.Within B P ↔ ∀ a : ℕ, (a : ℤ) ∈ op.acks B → P a := by
  cases op with
  | one p =>
    refine ⟨fun h a ha => ?_, fun h h0 => h _ (Set.mem_singleton_iff.2 (Int.toNat_of_nonneg h0))⟩
    have ha := Set.mem_singleton_iff.1 ha
    have := h (by omega)
    rwa [← ha] at this
  | before p =>
    refine ⟨fun h a ha => h a ?_, fun h a ha => h a ?_⟩
    · have : (a : ℤ) < Psn.lift B p := ha
      omega
    · change (a : ℤ) < Psn.lift B p
      omega
  | range p q =>
    refine ⟨fun h a ha => h a ?_ ha.1, fun h a ha hp => h a ⟨hp, ?_⟩⟩
    · have := ha.2
      omega
    · omega
  | bitmap p bm =>
    refine ⟨?_, fun h x _ hx h0 => h _ ⟨x, hx, Int.toNat_of_nonneg h0⟩⟩
    rintro h a ⟨x, hx, ha⟩
    have := h x (BitVec.lt_of_getLsbD hx) hx (by omega)
    rwa [← ha] at this

/-- The report is about a header. -/
def ReportMeta.isHeader : ReportMeta → Bool
  | .headerWrite _ | .headerRead _ => true
  | _ => false

/-- The packet with the number `a` arrived, and if it ends a message whose header `must` come first
then the header was reported. -/
def RecvHistory.Known (tr : Traffic) (must : ℕ → Bool) (h : RecvHistory) (a : ℕ) : Prop :=
  a ∈ h.arrived ∧ ∀ i ≤ a, must i → a + 1 = tr.fin i → i ∈ h.registered

instance (tr : Traffic) (must : ℕ → Bool) (h : RecvHistory) (a : ℕ) :
    Decidable (h.Known tr must a) :=
  inferInstanceAs (Decidable (_ ∧ ∀ i ≤ a, must i → _ → _))

/-- The steps of a run in which packets arrive within the window and reports are about packets that
arrived. The reports of the local card acknowledge the end of a message whose header `must` come
first only after the header. -/
def Describes (tr : Traffic) (must : ℕ → Bool) (w : Workers × RecvHistory) : RecvLabel → Prop
  | .arrive a => (a : ℤ) < w.2.base + 2 ^ 23
  | .header i j _ =>
    j < (tr i).count ∧ tr.start i + j ∈ w.2.arrived ∧ w.2.base ≤ (tr.start i + j : ℕ) + 2 ^ 23
  | .other (.report m) =>
    m.isHeader = false ∧
      ∀ x ∈ calls w.1.handler.recv.psnTracker w.2.base (m.recvOps w.1.handler),
        x.2.Within x.1 (w.2.Known tr must)
  | .other _ => True

/-- A packet that ends a message is reported before the base passes it, and less than half a circle
of messages after the oldest message the base has not passed. -/
def EndsInTime (tr : Traffic) (h : RecvHistory) : RecvLabel → Prop
  | .header i j _ => tr.Registers i j → h.base ≤ (tr.start i + j : ℕ) ∧
      (2 ^ 15 ≤ i → (tr.fin (i - 2 ^ 15) : ℤ) ≤ h.base)
  | _ => True

/-- The steps of a run in which the receive side is safe. -/
def RecvOk (tr : Traffic) (must : ℕ → Bool) (w : Workers × RecvHistory) (l : RecvLabel) : Prop :=
  Describes tr must w l ∧ EndsInTime tr w.2 l

instance (tr : Traffic) (must : ℕ → Bool) (w : Workers × RecvHistory) (l : RecvLabel) :
    Decidable (Describes tr must w l) := by
  unfold Describes
  split <;> infer_instance

instance (tr : Traffic) (h : RecvHistory) (l : RecvLabel) : Decidable (EndsInTime tr h l) := by
  unfold EndsInTime
  split <;> infer_instance

instance (tr : Traffic) (must : ℕ → Bool) (w : Workers × RecvHistory) (l : RecvLabel) :
    Decidable (RecvOk tr must w l) :=
  inferInstanceAs (Decidable (_ ∧ _))

/-! ## The tracker -/

/-- The tracker is sound, and what it treats as acknowledged arrived within the window. -/
structure RecvCore (tr : Traffic) (must : ℕ → Bool) (t : PsnTracker) (h : RecvHistory) : Prop where
  sound : Sound t (ackedIn h.acks) h.base
  acked : ∀ a : ℕ, (a : ℤ) ∈ ackedIn h.acks → h.Known tr must a
  window : ∀ a ∈ h.arrived, (a : ℤ) < h.base + 2 ^ 23

namespace RecvCore

variable {tr : Traffic} {must : ℕ → Bool} {t : PsnTracker} {h : RecvHistory}

theorem arrived_of_lt (hc : RecvCore tr must t h) {a : ℕ} (ha : (a : ℤ) < h.base) : a ∈ h.arrived :=
  (hc.acked a (hc.sound.below a (by omega) ha)).1

theorem registered_of_le (hc : RecvCore tr must t h) {i : ℕ} (hi : must i)
    (hle : (tr.fin i : ℤ) ≤ h.base) : i ∈ h.registered := by
  have hlt := tr.lt_fin i
  refine (hc.acked (tr.fin i - 1) (hc.sound.below _ (by omega) (by omega))).2 i (by omega) hi ?_
  omega

theorem report (hc : RecvCore tr must t h) {ops : List AckOp} {h' : RecvHistory}
    (hops : ∀ x ∈ calls t h.base ops, x.2.Within x.1 (h'.Known tr must))
    (harrived : h'.arrived = h.arrived) (hreg : h.registered ⊆ h'.registered)
    (hacks : h'.acks = h.acks ++ calls t h.base ops)
    (hbase : h'.base = advance h.base t.basePsn (t.applyAll ops).1.basePsn) :
    RecvCore tr must (t.applyAll ops).1 h' ∧ h.base ≤ h'.base ∧ h'.base ≤ h.base + 2 ^ 23 := by
  have hle : h.base ≤ h'.base := hbase ▸ le_advance _ _ _
  have hacked : ∀ a : ℕ, (a : ℤ) ∈ ackedIn h'.acks → h'.Known tr must a := by
    intro a ha
    rw [hacks, ackedIn_append] at ha
    rcases ha with ha | ⟨x, hx, ha⟩
    · obtain ⟨h₁, h₂⟩ := hc.acked a ha
      exact ⟨harrived ▸ h₁, fun i hi hm he => hreg (h₂ i hi hm he)⟩
    · exact AckOp.within_iff.1 (hops x hx) a ha
  have h0 := hc.sound.nonneg
  have hlt : ∀ a ∈ ackedIn h'.acks, a < h.base + 2 ^ 23 := by
    intro a ha
    rcases lt_or_ge a 0 with hneg | hpos
    · omega
    · have := hc.window a.toNat (harrived ▸ (hacked a.toNat (by rwa [Int.toNat_of_nonneg hpos])).1)
      omega
  have hmono : ackedIn h.acks ⊆ ackedIn h'.acks := by
    rw [hacks, ackedIn_append]
    exact Set.subset_union_left
  have hsound := (hc.sound.mono hmono).applyAll hlt fun x hx =>
    acks_subset_ackedIn (hacks ▸ mem_append_right _ hx)
  rw [← hbase] at hsound
  refine ⟨⟨hsound, hacked, fun a ha => ?_⟩, hle, hsound.base_le (by omega) hlt⟩
  have := hc.window a (harrived ▸ ha)
  omega

end RecvCore

/-! ## What the completion worker sees -/

/-- What a task tells the completion worker about the receive side: the base of the tracker and the
messages registered so far. -/
def RecvSees (tr : Traffic) (must : ℕ → Bool) (v : ℤ × List ℕ) : CompletionTask → ℤ × List ℕ → Prop
  | .register (.recv e), v' => ∃ i, e = tr.recvEvent i ∧ v' = (v.1, v.2 ++ [i]) ∧
      v.1 < tr.fin i ∧ tr.fin i ≤ v.1 + 2 ^ 23 ∧ (2 ^ 15 ≤ i → (tr.fin (i - 2 ^ 15) : ℤ) ≤ v.1)
  | .ackRecv p, v' => p = Psn.wrap v'.1 ∧ v.1 ≤ v'.1 ∧ v'.1 ≤ v.1 + 2 ^ 23 ∧ v'.2 = v.2 ∧
      ∀ i, must i → (tr.fin i : ℤ) ≤ v'.1 → i ∈ v.2
  | _, v' => v' = v

theorem exists_split {wait : List ℕ} (hs : wait.Pairwise (· < ·)) (i : ℕ) :
    ∃ R S, wait = R ++ S ∧ (∀ k ∈ R, k < i) ∧ ∀ k ∈ S, i ≤ k := by
  induction wait with
  | nil => exact ⟨[], [], rfl, by simp, by simp⟩
  | cons x wait ih =>
    rw [pairwise_cons] at hs
    rcases lt_or_ge x i with hx | hx
    · obtain ⟨R, S, rfl, hR, hS⟩ := ih hs.2
      exact ⟨x :: R, S, rfl, forall_mem_cons.2 ⟨hx, hR⟩, hS⟩
    · exact ⟨[], x :: wait, rfl, by simp, forall_mem_cons.2 ⟨hx,
        fun k hk => hx.trans (hs.1 k hk).le⟩⟩

namespace QueuePairMessageTracker

/-- The receive half of the tracker: the messages `popped` end at the base `T` or before it and were
polled, except for read responses, which the completed reads used up or which wait to be used; the
messages `wait` are queued in order. -/
structure RecvInv (tr : Traffic) (t : QueuePairMessageTracker)
    (polled : List (RecvEvent × Option Completion)) (sent : List (SendEvent × Completion))
    (popped wait : List ℕ) (T : ℤ) : Prop where
  inner_eq : t.recv.inner = wait.map tr.recvEvent
  basePsn : t.recv.basePsn = Psn.wrap T
  popped_sorted : popped.Pairwise (· < ·)
  wait_sorted : wait.Pairwise (· < ·)
  popped_le : ∀ i ∈ popped, (tr.fin i : ℤ) ≤ T
  lt_wait : ∀ i ∈ wait, T < tr.fin i ∧ tr.fin i ≤ T + 2 ^ 23 ∧
    (2 ^ 15 ≤ i → (tr.fin (i - 2 ^ 15) : ℤ) ≤ T)
  recv_eq : t.merge.recv = []
  polled_eq : polled.map Prod.fst =
    (popped.filter fun i => !(tr i).kind.isReadResp).map tr.recvEvent
  completion : ∀ y ∈ polled, CompletesAs y.1.op y.2
  resp : ∃ used, (popped.filter fun i => (tr i).kind.isReadResp).map tr.recvEvent =
    used ++ t.merge.recvReadResp ∧ used.length = sent.countP (·.1.op = .readSignaled)

namespace RecvInv

variable {tr : Traffic} {t t' : QueuePairMessageTracker}
  {polled ys : List (RecvEvent × Option Completion)} {sent xs : List (SendEvent × Completion)}
  {popped wait : List ℕ} {T : ℤ}

section

variable (h : t.RecvInv tr polled sent popped wait T)
include h

theorem near {i k : ℕ} (hT : T < tr.fin i) (hi : 2 ^ 15 ≤ i → (tr.fin (i - 2 ^ 15) : ℤ) ≤ T)
    (hk : k ∈ wait) : (tr.ranked k).Near (tr.ranked i) := by
  obtain ⟨hTk, -, hlow⟩ := h.lt_wait k hk
  have hmono : ∀ {x y : ℕ}, T < tr.fin x → (2 ^ 15 ≤ y → (tr.fin (y - 2 ^ 15) : ℤ) ≤ T) →
      y < x + 2 ^ 15 := by
    intro x y hx hy
    by_contra hle
    have := tr.fin_strictMono.monotone (show x ≤ y - 2 ^ 15 by omega)
    omega
  have h₁ := hmono hTk hi
  have h₂ := hmono hT hlow
  constructor
  · change (i : ℤ) - k < 2 ^ 15
    omega
  · change (k : ℤ) - i < 2 ^ 15
    omega

theorem register {must : ℕ → Bool} {e : RecvEvent}
    {v : ℤ × List ℕ} {reg : List ℕ} (hreg : ∀ i, i ∈ reg ↔ i ∈ popped ∨ i ∈ wait)
    (hsees : RecvSees tr must (T, reg) (.register (.recv e)) v) :
    ∃ wait', v.1 = T ∧ (∀ i, i ∈ v.2 ↔ i ∈ popped ∨ i ∈ wait') ∧
      (t.append (.recv e)).RecvInv tr polled sent popped wait' T := by
  obtain ⟨i, rfl, rfl, hT, hwin, hlow⟩ := hsees
  obtain ⟨R, S, rfl, hR, hS⟩ := exists_split h.wait_sorted i
  have hinner : t.recv.inner = (R.map tr.ranked ++ S.map tr.ranked).map Ranked.event := by
    rw [← map_append, map_map, h.inner_eq]
    rfl
  have hbelow : ∀ r ∈ R.map tr.ranked, r.Near (tr.ranked i) ∧ r.msn < (tr.ranked i).msn := by
    intro r hr
    obtain ⟨k, hk, rfl⟩ := mem_map.1 hr
    exact ⟨h.near hT hlow (mem_append_left _ hk), Int.ofNat_lt.2 (hR k hk)⟩
  have habove : ∀ r ∈ S.map tr.ranked, r.Near (tr.ranked i) ∧ (tr.ranked i).msn ≤ r.msn := by
    intro r hr
    obtain ⟨k, hk, rfl⟩ := mem_map.1 hr
    exact ⟨h.near hT hlow (mem_append_right _ hk), Int.ofNat_le.2 (hS k hk)⟩
  by_cases hmem : ∃ S', S = i :: S'
  · -- the message is queued already
    obtain ⟨S', rfl⟩ := hmem
    refine ⟨R ++ i :: S', rfl, fun k => ?_, ?_⟩
    · simp only [mem_append, hreg, mem_cons]
      tauto
    · have hold := append_old (t := t.recv) (x := tr.ranked i) hinner hbelow habove rfl
      refine { h with inner_eq := ?_, basePsn := ?_ }
      · rw [← h.inner_eq, hinner]
        exact hold
      · exact (append_basePsn _ _).trans h.basePsn
  · have hS' : ∀ k ∈ S, i < k := by
      intro k hk
      refine lt_of_le_of_ne (hS k hk) ?_
      rintro rfl
      cases S with
      | nil => cases hk
      | cons x S =>
        have hs := (pairwise_append.1 h.wait_sorted).2.1
        rw [pairwise_cons] at hs
        rcases mem_cons.1 hk with rfl | hk
        · exact hmem ⟨S, rfl⟩
        · have := hS x mem_cons_self
          have := hs.1 i hk
          omega
    refine ⟨R ++ i :: S, rfl, fun k => ?_, ?_⟩
    · simp only [mem_append, hreg, mem_cons]
      tauto
    · have hnew := append_new (t := t.recv) (x := tr.ranked i) hinner hbelow
        fun r hr => by
          obtain ⟨k, hk, rfl⟩ := mem_map.1 hr
          exact ⟨(habove _ hr).1, Int.ofNat_lt.2 (hS' k hk)⟩
      refine { h with inner_eq := ?_, basePsn := ?_, wait_sorted := ?_, lt_wait := ?_ }
      · have : R.map tr.ranked ++ tr.ranked i :: S.map tr.ranked = (R ++ i :: S).map tr.ranked := by
          rw [map_append, map_cons]
        rw [this, map_map] at hnew
        exact hnew
      · exact (append_basePsn _ _).trans h.basePsn
      · obtain ⟨h₁, h₂, h₃⟩ := pairwise_append.1 h.wait_sorted
        refine pairwise_append.2 ⟨h₁, pairwise_cons.2 ⟨hS', h₂⟩, fun x hx y hy => ?_⟩
        rcases mem_cons.1 hy with rfl | hy
        · exact hR x hx
        · exact h₃ x hx y hy
      · intro k hk
        rcases mem_append.1 hk with hk | hk
        · exact h.lt_wait k (mem_append_left _ hk)
        · rcases mem_cons.1 hk with rfl | hk
          · exact ⟨hT, hwin, hlow⟩
          · exact h.lt_wait k (mem_append_right _ hk)

theorem congr (hrecv : t'.recv = t.recv)
    (hmerge : t'.merge.recv = t.merge.recv) (hresp : t'.merge.recvReadResp = t.merge.recvReadResp) :
    t'.RecvInv tr polled sent popped wait T :=
  { h with
    inner_eq := hrecv ▸ h.inner_eq
    basePsn := hrecv ▸ h.basePsn
    recv_eq := hmerge.trans h.recv_eq
    resp := hresp ▸ h.resp }

theorem pollSend (hp : t.PolledSend xs t') : t'.RecvInv tr polled (sent ++ xs) popped wait T := by
  obtain ⟨used, hused, hlen⟩ := h.resp
  obtain ⟨used', hused', hlen'⟩ := hp.resp
  have hframe := hp.frame
  refine { h with inner_eq := ?_, basePsn := ?_, recv_eq := ?_, resp := ?_ }
  · rw [hframe]
    exact h.inner_eq
  · rw [hframe]
    exact h.basePsn
  · rw [hframe]
    exact h.recv_eq
  · refine ⟨used ++ used', by rw [hused, hused', append_assoc], ?_⟩
    rw [length_append, hlen, hlen', countP_append]

end

theorem filter_recvEvent (tr : Traffic) (now : List ℕ) :
    (now.map tr.recvEvent).filter (fun e => decide (e.op = .readResp)) =
        (now.filter fun i => (tr i).kind.isReadResp).map tr.recvEvent ∧
      (now.map tr.recvEvent).filter (fun e => !decide (e.op = .readResp)) =
        (now.filter fun i => !(tr i).kind.isReadResp).map tr.recvEvent := by
  have hop : ∀ i, decide ((tr.recvEvent i).op = .readResp) = (tr i).kind.isReadResp := by
    intro i
    unfold Traffic.recvEvent
    cases (tr i).kind <;> rfl
  constructor
  · rw [filter_map]
    exact congrArg _ (filter_congr fun i _ => hop i)
  · rw [filter_map]
    exact congrArg _ (filter_congr fun i _ => congrArg _ (hop i))

theorem ackRecv (h : t.RecvInv tr polled sent popped wait T) {b : ℤ} (hTb : T ≤ b)
    (hb : b ≤ T + 2 ^ 23) (hp : (t.ackRecv (Psn.wrap b)).PolledSend xs t')
    {t'' : QueuePairMessageTracker} (hr : t'.PolledRecv ys t'') :
    t''.RecvInv tr (polled ++ ys) (sent ++ xs)
      (popped ++ wait.takeWhile fun i => (tr.fin i : ℤ) ≤ b)
      (wait.dropWhile fun i => (tr.fin i : ℤ) ≤ b) b := by
  obtain ⟨now, hnow⟩ : ∃ now, now = wait.takeWhile fun i => (tr.fin i : ℤ) ≤ b := ⟨_, rfl⟩
  obtain ⟨later, hlater⟩ : ∃ later, later = wait.dropWhile fun i => (tr.fin i : ℤ) ≤ b := ⟨_, rfl⟩
  have hwait : wait = now ++ later := by rw [hnow, hlater, takeWhile_append_dropWhile]
  have hdrain : drain (Psn.wrap b) t.recv.inner =
      (now.map tr.recvEvent, later.map tr.recvEvent) := by
    have := drain_eq (b := b) (wait.map tr.ranked) fun r hr => by
      obtain ⟨k, hk, rfl⟩ := mem_map.1 hr
      have := h.lt_wait k hk
      change b - (tr.fin k : ℤ) < 2 ^ 23 ∧ (tr.fin k : ℤ) - b ≤ 2 ^ 23
      omega
    rw [map_map, takeWhile_map, dropWhile_map, map_map, map_map] at this
    rw [h.inner_eq, hnow, hlater]
    exact this
  have heq : t.ackRecv (Psn.wrap b) =
      { t with
        recv := ⟨later.map tr.recvEvent, Psn.wrap b⟩
        merge := { t.merge with
          recv := (now.filter fun i => !(tr i).kind.isReadResp).map tr.recvEvent
          recvReadResp := t.merge.recvReadResp ++
            (now.filter fun i => (tr i).kind.isReadResp).map tr.recvEvent } } := by
    unfold QueuePairMessageTracker.ackRecv
    rw [hdrain]
    dsimp only
    rw [MergeQueue.foldl_pushRecv, h.recv_eq, nil_append, (filter_recvEvent tr now).1,
      (filter_recvEvent tr now).2]
  obtain ⟨hs₁, hs₂, hs₃⟩ := pairwise_append.1 (hwait ▸ h.wait_sorted)
  have hsent := hp.frame
  have hrecv := hr.frame
  have hnow_le : ∀ i ∈ now, (tr.fin i : ℤ) ≤ b := fun i hi =>
    of_decide_eq_true (mem_takeWhile_imp (p := fun i => decide ((tr.fin i : ℤ) ≤ b)) (hnow ▸ hi))
  rw [← hnow, ← hlater]
  refine ⟨?_, ?_, ?_, hs₂, ?_, ?_, ?_, ?_, ?_, ?_⟩
  · rw [hrecv, hsent, heq]
  · rw [hrecv, hsent, heq]
  · refine pairwise_append.2 ⟨h.popped_sorted, hs₁, fun i hi k hk => ?_⟩
    have h₁ := h.popped_le i hi
    have h₂ := (h.lt_wait k (by rw [hwait]; exact mem_append_left _ hk)).1
    exact tr.fin_strictMono.lt_iff_lt.1 (by omega)
  · intro i hi
    rcases mem_append.1 hi with hi | hi
    · exact (h.popped_le i hi).trans hTb
    · exact hnow_le i hi
  · intro i hi
    have hmem : i ∈ wait := by
      rw [hwait]
      exact mem_append_right _ hi
    obtain ⟨-, hw, hlow⟩ := h.lt_wait i hmem
    refine ⟨?_, by omega, fun hge => (hlow hge).trans hTb⟩
    have hsorted : (wait.map tr.ranked).Pairwise (·.fin ≤ ·.fin) :=
      pairwise_map.2 (h.wait_sorted.imp fun hxy =>
        Int.ofNat_le.2 (tr.fin_strictMono.monotone hxy.le))
    refine Ranked.lt_of_mem_dropWhile hsorted (r := tr.ranked i) ?_
    rw [dropWhile_map]
    exact mem_map_of_mem (hlater ▸ hi)
  · rw [hrecv]
  · rw [map_append, h.polled_eq, ← hr.recv, hsent, heq, filter_append, map_append]
  · intro y hy
    rcases mem_append.1 hy with hy | hy
    · exact h.completion y hy
    · exact hr.completion y hy
  · obtain ⟨used, hused, hlen⟩ := h.resp
    obtain ⟨used', hused', hlen'⟩ := hp.resp
    refine ⟨used ++ used', ?_, by rw [length_append, hlen, hlen', countP_append]⟩
    rw [heq] at hused'
    dsimp only at hused'
    rw [filter_append, map_append, hused, append_assoc, hused', hrecv, append_assoc]

end RecvInv

end QueuePairMessageTracker

/-! ## Runs -/

/-- The receive half of the completion worker. -/
structure RecvView (tr : Traffic) (must : ℕ → Bool) (s : Workers) (h : RecvHistory)
    (popped wait reg : List ℕ) (T : ℤ) : Prop where
  inv : s.tracker.RecvInv tr s.recvPolled s.sendPolled popped wait T
  mem : ∀ i, i ∈ reg ↔ i ∈ popped ∨ i ∈ wait
  must_mem : ∀ i, must i → (tr.fin i : ℤ) ≤ T → i ∈ popped
  sees : InFlight (RecvSees tr must) (T, reg) s.completionCh (h.base, h.registered)

structure RecvSafe (tr : Traffic) (must : ℕ → Bool) (s : Workers) (h : RecvHistory) : Prop where
  core : RecvCore tr must s.handler.recv.psnTracker h
  view : ∃ popped wait reg T, RecvView tr must s h popped wait reg T

namespace RecvView

variable {tr : Traffic} {must : ℕ → Bool} {s : Workers} {h : RecvHistory} {popped wait reg : List ℕ}
  {T : ℤ}

theorem send (hv : RecvView tr must s h popped wait reg T) {s' : Workers} {h' : RecvHistory}
    {ts : List CompletionTask} (ht : s'.tracker = s.tracker) (hr : s'.recvPolled = s.recvPolled)
    (hs : s'.sendPolled = s.sendPolled) (hch : s'.completionCh = s.completionCh ++ ts)
    (hts : InFlight (RecvSees tr must) (h.base, h.registered) ts (h'.base, h'.registered)) :
    RecvView tr must s' h' popped wait reg T := by
  refine ⟨?_, hv.mem, hv.must_mem, ?_⟩
  · rw [ht, hr, hs]
    exact hv.inv
  · rw [hch]
    exact hv.sees.append hts

theorem runCompletion {qp : QpAttr} (hv : RecvView tr must s h popped wait reg T)
    {task : CompletionTask} {ch : List CompletionTask} {r : QueuePairMessageTracker ×
      CompletionOutput}
    (hch : s.completionCh = task :: ch) (hr : s.tracker.process qp task = some r) :
    ∃ popped' wait' reg' T', RecvView tr must (s.afterCompletion ch r.1 r.2) h popped' wait'
    reg' T' := by
  have hsees := hv.sees
  rw [hch] at hsees
  obtain ⟨v, htask, hsees⟩ := hsees
  cases task with
  | register event =>
    cases hr
    have hnil : s.recvPolled ++ ({} : CompletionOutput).recv = s.recvPolled ∧
        s.sendPolled ++ ({} : CompletionOutput).send = s.sendPolled :=
      ⟨append_nil _, append_nil _⟩
    cases event with
    | send e =>
      obtain rfl : v = _ := htask
      refine ⟨popped, wait, reg, T, ?_, hv.mem, hv.must_mem, hsees⟩
      rw [Workers.afterCompletion, hnil.1, hnil.2]
      exact hv.inv.congr rfl rfl rfl
    | recv e =>
      obtain ⟨wait', hT, hmem, hinv⟩ := hv.inv.register hv.mem htask
      refine ⟨popped, wait', v.2, T, ?_, hmem, hv.must_mem, by rw [← hT]; exact hsees⟩
      rw [Workers.afterCompletion, hnil.1, hnil.2]
      exact hinv
    | postRecv e =>
      obtain rfl : v = _ := htask
      refine ⟨popped, wait, reg, T, ?_, hv.mem, hv.must_mem, hsees⟩
      rw [Workers.afterCompletion, hnil.1, hnil.2]
      exact hv.inv.congr rfl rfl rfl
  | ackSend p =>
    obtain rfl : v = _ := htask
    obtain ⟨xs, u, hp, rfl⟩ := process_ackSend hr
    have hinv : (s.tracker.ackSend p).RecvInv tr s.recvPolled s.sendPolled popped wait T := by
      refine hv.inv.congr rfl ?_ ?_ <;>
      · unfold ackSend
        dsimp only
        rw [MergeQueue.foldl_pushSend]
    refine ⟨popped, wait, reg, T, ?_, hv.mem, hv.must_mem, hsees⟩
    rw [Workers.afterCompletion, append_nil]
    exact hinv.pollSend hp
  | ackRecv p =>
    obtain ⟨b, reg'⟩ := v
    obtain ⟨rfl, hTb, hb, hreg, hmust⟩ := htask
    obtain rfl : reg' = reg := hreg
    obtain ⟨xs, t', ys, u, hp, hrecv, rfl⟩ := process_ackRecv hr
    have hwait : ∀ i, i ∈ wait ↔ i ∈ wait.takeWhile (fun i => (tr.fin i : ℤ) ≤ b) ∨
        i ∈ wait.dropWhile fun i => (tr.fin i : ℤ) ≤ b := by
      intro i
      rw [← mem_append, takeWhile_append_dropWhile]
    have hinv := hv.inv.ackRecv hTb hb hp hrecv
    refine ⟨_, _, reg', b, hinv, fun i => ?_, fun i hi hle => ?_, hsees⟩
    · rw [hv.mem, hwait, mem_append, or_assoc]
    · rcases (hv.mem i).1 (hmust i hi hle) with hmem | hmem
      · exact mem_append_left _ hmem
      · rcases (hwait i).1 hmem with hmem | hmem
        · exact mem_append_right _ hmem
        · have := (hinv.lt_wait i hmem).1
          omega

end RecvView

namespace RecvSafe

variable {tr : Traffic} {must : ℕ → Bool} {s : Workers} {h : RecvHistory}

theorem report (hs : RecvSafe tr must s h) {m : ReportMeta} {r : MetaHandler × MetaOutput}
    (hr : s.handler.handleMeta m = some r) {h' : RecvHistory} (harrived : h'.arrived = h.arrived)
    (hreg : h.registered ⊆ h'.registered)
    (hacks : h'.acks = h.acks ++ calls s.handler.recv.psnTracker h.base (m.recvOps s.handler))
    (hbase : h'.base = advance h.base s.handler.recv.psnTracker.basePsn r.1.recv.psnTracker.basePsn)
    (hops : ∀ x ∈ calls s.handler.recv.psnTracker h.base (m.recvOps s.handler),
      x.2.Within x.1 (h'.Known tr must)) (hevent :
      InFlight (RecvSees tr must) (h.base, h.registered) (m.event.map fun e =>
      CompletionTask.register (.recv e)).toList (h.base, h'.registered)) :
    RecvSafe tr must (s.afterReport r.1 r.2) h' := by
  have hspec := MetaHandler.handleMeta_spec hr
  obtain ⟨popped, wait, reg, T, hv⟩ := hs.view
  obtain ⟨hcore, hle, hwin⟩ := hs.core.report hops harrived hreg hacks (by rw [hbase, hspec.recv])
  rw [← hspec.recv] at hcore
  refine ⟨hcore, popped, wait, reg, T, hv.send rfl rfl rfl rfl ?_⟩
  rw [hspec.completion]
  refine (hevent.append ?_).append (InFlight.of_forall fun t ht => ?_)
  · cases hack : m.recvAck s.handler with
    | none =>
      rw [hbase, hspec.recv, PsnTracker.applyAll_of_none hack, advance_self]
      exact InFlight.refl _
    | some p =>
      have hp : p = Psn.wrap h'.base := by
        rw [← hcore.sound.base, hspec.recv, PsnTracker.applyAll_of_some hack]
      exact InFlight.single ⟨hp, hle, hwin, rfl, fun i hi hfin => hcore.registered_of_le hi hfin⟩
  · obtain ⟨p, -, rfl⟩ := Option.mem_map.1 (Option.mem_toList.1 ht)
    rfl

theorem known_header (hc : RecvCore tr must s.handler.recv.psnTracker h) {i j : ℕ} {isRetry : Bool}
    (hok : Describes tr must (s, h) (.header i j isRetry)) {h' : RecvHistory}
    (harrived : h'.arrived = h.arrived) (hreg : tr.Registers i j → i ∈ h'.registered) :
    ∀ x ∈ calls s.handler.recv.psnTracker h.base ((tr.header i j isRetry).recvOps s.handler),
      x.2.Within x.1 (h'.Known tr must) := by
  obtain ⟨hj, harr, hback⟩ := hok
  rw [Traffic.recvOps_header]
  split_ifs with hacks
  · intro x hx
    obtain rfl := mem_singleton.1 hx
    have hlt := hc.window _ harr
    have hlift := Psn.lift_wrap (a := (tr.start i + j : ℕ)) (b := h.base)
      (by dsimp only at hback; omega) (by omega)
    change (0 ≤ Psn.lift h.base _ → h'.Known tr must (Psn.lift h.base _).toNat)
    rw [hlift]
    intro _
    refine ⟨harrived ▸ harr, fun k _ _ hk => ?_⟩
    -- the packet ends only its own message
    have hik : k = i := by
      have hfin := tr.fin_eq i
      rcases lt_trichotomy k i with hlt | rfl | hgt
      · have := tr.fin_strictMono.monotone (Nat.le_sub_one_of_lt hlt)
        have : tr.fin (i - 1) = tr.start i := by
          rw [Traffic.fin, Nat.sub_add_cancel (by omega)]
        omega
      · rfl
      · have := tr.fin_strictMono hgt
        omega
    subst hik
    refine hreg ⟨?_, hacks⟩
    have := tr.fin_eq k
    omega
  · intro x hx
    cases hx

end RecvSafe

/-- **Every step keeps the receive side safe.** -/
theorem RecvSafe.step {tr : Traffic} {must : ℕ → Bool} {qp : QpAttr} {w w' : Workers × RecvHistory}
    {l : RecvLabel} (hs : RecvSafe tr must w.1 w.2) (hok : RecvOk tr must w l)
    (hstep : recvStep tr qp w l = some w') : RecvSafe tr must w'.1 w'.2 := by
  obtain ⟨s, h⟩ := w
  obtain ⟨popped, wait, reg, T, hv⟩ := hs.view
  cases l with
  | arrive a =>
    cases hstep
    refine ⟨⟨hs.core.sound, fun b hb => ?_, fun b hb => ?_⟩, popped, wait, reg, T,
      hv.send rfl rfl rfl (append_nil _).symm (InFlight.refl _)⟩
    · obtain ⟨h₁, h₂⟩ := hs.core.acked b hb
      exact ⟨mem_cons_of_mem _ h₁, h₂⟩
    · rcases mem_cons.1 hb with rfl | hb
      · exact hok.1
      · exact hs.core.window b hb
  | header i j isRetry =>
    obtain ⟨s', hs', rfl⟩ := Option.map_eq_some_iff.1 hstep
    obtain ⟨r, hr, rfl⟩ := Option.map_eq_some_iff.1 hs'
    refine hs.report hr rfl (subset_append_left _ _) rfl rfl
      (RecvSafe.known_header hs.core hok.1 rfl fun hreg => ?_) ?_
    · change i ∈ h.registered ++ if tr.Registers i j then [i] else []
      rw [if_pos hreg]
      simp
    · obtain ⟨⟨hj, harr, -⟩, hlast⟩ := hok
      rw [tr.event_header hj]
      change InFlight _ _ _ (h.base, h.registered ++ if tr.Registers i j then [i] else [])
      split_ifs with hreg
      · obtain ⟨hbase, hmsn⟩ := hlast hreg
        have hfin : tr.fin i = tr.start i + j + 1 := by
          rw [tr.fin_eq, ← hreg.1, Nat.add_assoc]
        have hwin := hs.core.window _ harr
        dsimp only at hbase hwin
        refine InFlight.single ⟨i, rfl, rfl, ?_, ?_, hmsn⟩
        · dsimp only
          omega
        · dsimp only
          omega
      · rw [append_nil]
        exact InFlight.refl _
  | other l =>
    obtain ⟨s', hs', rfl⟩ := Option.map_eq_some_iff.1 hstep
    cases Workers.fires_of_step hs' with
    | @report m r hr =>
      obtain ⟨hheader, hops⟩ := hok.1
      refine hs.report hr rfl (List.Subset.refl _) rfl rfl hops ?_
      have hevent : m.event = none := by
        cases m <;> first | rfl | cases hheader
      rw [hevent]
      exact InFlight.refl _
    | post | timeout | runRetransmit =>
      exact ⟨hs.core, popped, wait, reg, T, hv.send rfl rfl rfl (append_nil _).symm
        (InFlight.refl _)⟩
    | postRecv wrId => exact ⟨hs.core, popped, wait, reg, T,
        hv.send rfl rfl rfl rfl (InFlight.single rfl)⟩
    | noRdmaWrite | noRetransmit | noCompletion => exact hs
    | runRdmaWrite _ hr =>
      refine ⟨hs.core, popped, wait, reg, T, hv.send rfl rfl rfl rfl (InFlight.of_forall fun t ht =>
        ?_)⟩
      obtain ⟨e, rfl⟩ := SendQueueContext.process_completion hr t ht
      rfl
    | runCompletion hch hr =>
      obtain ⟨popped', wait', reg', T', hv'⟩ := hv.runCompletion hch hr
      exact ⟨hs.core, popped', wait', reg', T', hv'⟩

theorem recvSafe_init (tr : Traffic) (must : ℕ → Bool) : RecvSafe tr must {} {} where
  core := by
    refine ⟨?_, fun a ha => ?_, by simp⟩
    · have := sound_default
      rwa [← ackedIn_nil] at this
    · rw [ackedIn_nil] at ha
      cases ha
  view := by
    refine ⟨[], [], [], 0, ⟨rfl, rfl, List.Pairwise.nil, List.Pairwise.nil, by simp, by simp, rfl,
      rfl, by simp, [], rfl, rfl⟩, by simp, fun i _ hle => ?_, rfl⟩
    have := tr.lt_fin i
    omega

end OpenRdma.Driver
