import OpenRdma.Driver.AckTracking
import OpenRdma.Driver.MetaReport

/-!
# What a report does

A report makes a list of calls on the tracker of one side (`ReportMeta.sendOps`,
`ReportMeta.recvOps`), and the tasks the handler sends depend on it only through the base the calls
report (`MetaHandler.handleMeta_spec`). The calls of a report keep a tracker sound
(`Sound.applyAll`), with the unbounded base moved forward by the distance its wire value moved
(`advance`).
-/

namespace OpenRdma.Driver

open ReportMeta PsnTracker

/-! ## Several calls -/

namespace PsnTracker

variable (t : PsnTracker)

/-- Calls one after the other, with the last base a call reported. -/
def applyAll (t : PsnTracker) : List AckOp → PsnTracker × Option Psn
  | [] => (t, none)
  | op :: ops => (((t.apply op).1.applyAll ops).1,
      ((t.apply op).1.applyAll ops).2.or (t.apply op).2)

/-- The base is reported exactly when it is set. -/
def Reports (p : Psn) (r : PsnTracker × Option Psn) : Prop := r.1.basePsn = r.2.getD p

theorem tryAdvance_reports : Reports t.basePsn t.tryAdvance := by
  unfold tryAdvance
  dsimp only
  split_ifs <;> rfl

theorem ackBefore_reports (p : Psn) : Reports t.basePsn (t.ackBefore p) := by
  rcases lt_or_ge (t.rstart p) 0 with h | h
  · rw [ackBefore_of_neg h]
    rfl
  · rw [ackBefore_of_nonneg h]
    rfl

/-- **A call reports the base exactly when it sets it.** -/
theorem apply_reports (op : AckOp) : Reports t.basePsn (t.apply op) := by
  cases op with
  | one p =>
    change Reports t.basePsn (t.ackOne p)
    rcases lt_or_ge (t.rstart p) 0 with h | h
    · rw [ackOne_of_neg h]
      rfl
    · rw [ackOne_of_nonneg h]
      exact tryAdvance_reports _
  | before p => exact t.ackBefore_reports p
  | range p q =>
    change Reports t.basePsn (t.ackRange p q)
    by_cases hle : p ≤ t.basePsn
    · rw [ackRange_of_le hle]
      exact t.ackBefore_reports q
    · by_cases h : t.rstart p < 0 ∨ t.rstart q < 0
      · rw [ackRange_of_neg hle h]
        rfl
      · rw [ackRange_of_nonneg hle (by omega) (by omega)]
        rfl
  | bitmap p bm =>
    exact tryAdvance_reports _

theorem applyAll_singleton (op : AckOp) : t.applyAll [op] = t.apply op := by
  rw [applyAll, applyAll, Option.none_or]

theorem applyAll_reports (ops : List AckOp) : Reports t.basePsn (t.applyAll ops) := by
  induction ops generalizing t with
  | nil => rfl
  | cons op ops ih =>
    have h₁ := t.apply_reports op
    have h₂ := ih (t.apply op).1
    unfold Reports at h₁ h₂ ⊢
    rw [applyAll, h₂, h₁]
    cases ((t.apply op).1.applyAll ops).2 with
    | none => rfl
    | some => rfl

theorem applyAll_of_none {t : PsnTracker} {ops : List AckOp} (h : (t.applyAll ops).2 = none) :
    (t.applyAll ops).1.basePsn = t.basePsn := by
  have := t.applyAll_reports ops
  rwa [Reports, h] at this

theorem applyAll_of_some {t : PsnTracker} {ops : List AckOp} {p : Psn}
    (h : (t.applyAll ops).2 = some p) : (t.applyAll ops).1.basePsn = p := by
  have := t.applyAll_reports ops
  rwa [Reports, h] at this

end PsnTracker

/-- The unbounded base `B` after its wire value moved forward from `p` to `q`. -/
def advance (B : ℤ) (p q : Psn) : ℤ := B + (q - p).inner

theorem le_advance (B : ℤ) (p q : Psn) : B ≤ advance B p q := by
  unfold advance
  omega

theorem advance_wrap {B B' : ℤ} (h₁ : B ≤ B') (h₂ : B' ≤ B + 2 ^ 23) :
    advance B (Psn.wrap B) (Psn.wrap B') = B' := by
  have := Psn.wrap_sub h₁ (by omega)
  unfold advance
  omega

theorem advance_self (B : ℤ) (p : Psn) : advance B p p = B := by
  rw [advance, Psn.sub_inner, Circular.fwd, Nat.add_sub_cancel, Nat.mod_self,
    Nat.cast_zero, add_zero]

/-- The calls of a report, each with the unbounded base it is made at. -/
def calls (t : PsnTracker) (B : ℤ) : List AckOp → List (ℤ × AckOp)
  | [] => []
  | op :: ops => (B, op) :: calls (t.apply op).1 (advance B t.basePsn (t.apply op).1.basePsn) ops

/-- What some calls acknowledge, each read at the base it is made at. -/
def ackedIn (xs : List (ℤ × AckOp)) : Set ℤ := {a | ∃ x ∈ xs, a ∈ x.2.acks x.1}

theorem ackedIn_nil : ackedIn [] = ∅ := Set.eq_empty_of_forall_notMem fun _ ⟨_, hx, _⟩ => by
  cases hx

theorem ackedIn_append (xs ys : List (ℤ × AckOp)) :
    ackedIn (xs ++ ys) = ackedIn xs ∪ ackedIn ys := by
  ext a
  simp only [ackedIn, List.mem_append, Set.mem_ofPred_eq, Set.mem_union, or_and_right, exists_or]

theorem ackedIn_cons (x : ℤ × AckOp) (xs : List (ℤ × AckOp)) :
    ackedIn (x :: xs) = x.2.acks x.1 ∪ ackedIn xs := by
  ext a
  simp only [ackedIn, List.mem_cons, Set.mem_ofPred_eq, Set.mem_union, exists_eq_or_imp]

theorem acks_subset_ackedIn {xs : List (ℤ × AckOp)} {x : ℤ × AckOp} (hx : x ∈ xs) :
    x.2.acks x.1 ⊆ ackedIn xs :=
  fun _ ha => ⟨x, hx, ha⟩

/-- Everything the call acknowledges at base `B` is before `e`. -/
def AckOp.Below (B e : ℤ) : AckOp → Prop
  | .one psn => Psn.lift B psn < e
  | .before psn => Psn.lift B psn ≤ e
  | .range psnLow psnHigh => Psn.lift B psnLow < Psn.lift B psnHigh → Psn.lift B psnHigh ≤ e
  | .bitmap nowPsn bm => ∀ x < 128, bm.getLsbD x = true → Psn.lift B nowPsn + (x : ℕ) < e

instance (B e : ℤ) : (op : AckOp) → Decidable (op.Below B e)
  | .one _ | .before _ | .range .. | .bitmap .. => by
    dsimp only [AckOp.Below]
    infer_instance

theorem AckOp.below_iff {B e : ℤ} {op : AckOp} : op.Below B e ↔ ∀ a ∈ op.acks B, a < e := by
  cases op with
  | one p =>
    simp only [Below, acks, Set.mem_singleton_iff, forall_eq]
  | before p =>
    refine ⟨fun h a ha => lt_of_lt_of_le ha h, fun h => ?_⟩
    have := h (Psn.lift B p - 1) (show Psn.lift B p - 1 < Psn.lift B p by omega)
    unfold Below
    omega
  | range p q =>
    refine ⟨fun h a ha => lt_of_lt_of_le ha.2 (h (lt_of_le_of_lt ha.1 ha.2)), fun h hlt => ?_⟩
    have := h (Psn.lift B q - 1) ⟨by omega, by omega⟩
    omega
  | bitmap p bm =>
    refine ⟨?_, fun h x _ hx => h _ ⟨x, hx, rfl⟩⟩
    rintro h a ⟨x, hx, rfl⟩
    exact h x (BitVec.lt_of_getLsbD hx) hx

namespace Sound

variable {t t' : PsnTracker} {U : Set ℤ} {B B' : ℤ}

theorem base_le (h : Sound t U B) {e : ℤ} (he : 0 ≤ e) (hU : ∀ a ∈ U, a < e) : B ≤ e := by
  by_contra hlt
  have := hU (B - 1) (h.below (B - 1) (by omega) (by omega))
  omega

theorem advance_eq (h : Sound t U B) (h' : Sound t' U B') (hle : B ≤ B')
    (hU : ∀ a ∈ U, a < B + 2 ^ 23) : advance B t.basePsn t'.basePsn = B' := by
  have h0 := h.nonneg
  rw [h.base, h'.base]
  exact advance_wrap hle (h'.base_le (by omega) hU)

/-- **The calls of a report keep a tracker sound** for a set that holds what they acknowledge. -/
theorem applyAll (h : Sound t U B) (hU : ∀ a ∈ U, a < B + 2 ^ 23) {ops : List AckOp}
    (hops : ∀ x ∈ calls t B ops, x.2.acks x.1 ⊆ U) :
    Sound (t.applyAll ops).1 U (advance B t.basePsn (t.applyAll ops).1.basePsn) := by
  induction ops generalizing t B with
  | nil =>
    rw [applyAll, h.advance_eq h le_rfl hU]
    exact h
  | cons op ops ih =>
    rw [calls, List.forall_mem_cons] at hops
    obtain ⟨B₁, hle, h₁⟩ := h.apply op
    rw [Set.union_eq_self_of_subset_right hops.1] at h₁
    have hB₁ := h.advance_eq h₁ hle hU
    rw [hB₁] at hops
    have h₂ := ih h₁ (fun a ha => (hU a ha).trans_le (by omega)) hops.2
    rw [applyAll, h.advance_eq h₂ (hle.trans (le_advance _ _ _)) hU]
    exact h₂

end Sound

/-- Each of the calls names no number past the wrap and sets no base that is already
acknowledged. -/
def PsnTracker.Exact (t : PsnTracker) : List AckOp → Prop
  | [] => True
  | op :: ops => (op.InWindow t ∧ op.NoWrap t ∧ op.Fresh t) ∧ (t.apply op).1.Exact ops

instance PsnTracker.decidableExact (t : PsnTracker) : (ops : List AckOp) → Decidable (t.Exact ops)
  | [] => inferInstanceAs (Decidable True)
  | op :: ops =>
    have := (t.apply op).1.decidableExact ops
    inferInstanceAs (Decidable (_ ∧ (t.apply op).1.Exact ops))

namespace Tracks

variable {t t' : PsnTracker} {U V : Set ℤ} {B B' : ℤ}

theorem base_mono (h : Sound t U B) (h' : Tracks t' V B') (hUV : U ⊆ V) : B ≤ B' := by
  by_contra hlt
  exact h'.isFrontier.notMem (hUV (h.below B' h'.nonneg (by omega)))

/-- **The calls of a report keep a tracker exact**, where each of them does. -/
theorem applyAll (h : Tracks t U B) {ops : List AckOp} (hex : t.Exact ops)
    (hU : ∀ a ∈ U ∪ ackedIn (calls t B ops), a < B + 2 ^ 23) :
    Tracks (t.applyAll ops).1 (U ∪ ackedIn (calls t B ops))
      (advance B t.basePsn (t.applyAll ops).1.basePsn) := by
  induction ops generalizing t U B with
  | nil =>
    rw [calls, ackedIn_nil, Set.union_empty, applyAll, advance_self]
    exact h
  | cons op ops ih =>
    rw [calls, ackedIn_cons, ← Set.union_assoc] at hU ⊢
    obtain ⟨⟨hin, hw, hf⟩, hex⟩ := hex
    obtain ⟨B₁, h₁⟩ := h.apply hin hw hf
    have hle := base_mono h.toSound h₁ Set.subset_union_left
    have hB₁ := (h.toSound.mono Set.subset_union_left).advance_eq h₁.toSound hle
      fun a ha => hU a (Or.inl ha)
    rw [hB₁] at hU ⊢
    have h₂ := ih h₁ hex fun a ha => (hU a ha).trans_le (by omega)
    have hadv := (h.toSound.mono fun a ha => Or.inl (Or.inl ha)).advance_eq h₂.toSound
      (hle.trans (le_advance _ _ _)) hU
    rw [applyAll, hadv]
    exact h₂

end Tracks

/-! ## The calls and tasks of a report -/

namespace ReportMeta

/-- The calls a report makes on the tracker of the send side. -/
def sendOps (h : MetaHandler) : ReportMeta → List AckOp
  | .ackRemoteDriver psnNow => [.before psnNow]
  | .nakRemoteHw msn psnNow nowBitmap psnPre preBitmap =>
    (if msn = h.send.msnPre.wrappingAdd 1 then [.range h.send.psnPre psnPre] else []) ++
      [.bitmap psnPre preBitmap, .bitmap psnNow nowBitmap]
  | .nakRemoteDriver _ psnPre => [.before psnPre]
  | _ => []

/-- The calls a report makes on the tracker of the receive side. -/
def recvOps (h : MetaHandler) : ReportMeta → List AckOp
  | .headerWrite x => [.one x.psn]
  | .headerRead x => if x.ackReq then [.one x.psn] else []
  | .ackLocalHw psnNow nowBitmap => [.range h.recv.psnPre psnNow, .bitmap psnNow nowBitmap]
  | .nakLocalHw psnNow nowBitmap psnPre preBitmap =>
    [.range h.recv.psnPre psnPre, .bitmap psnPre preBitmap, .bitmap psnNow nowBitmap]
  | _ => []

/-- The base of the send side, where a report sets it. -/
def sendAck (h : MetaHandler) (m : ReportMeta) : Option Psn :=
  (h.send.psnTracker.applyAll (m.sendOps h)).2

/-- The base of the receive side, where a report sets it. -/
def recvAck (h : MetaHandler) (m : ReportMeta) : Option Psn :=
  (h.recv.psnTracker.applyAll (m.recvOps h)).2

def event : ReportMeta → Option RecvEvent
  | .headerWrite x =>
    if x.pos.isEnd then some ⟨recvEventOp x.headerType x.imm, ⟨x.msn, x.psn + 1⟩, x.ackReq⟩
      else none
  | .headerRead x => if x.ackReq then some ⟨.recvRead, ⟨x.msn, x.psn + 1⟩, true⟩ else none
  | _ => none

/-- The answer to a read request. -/
def answer : ReportMeta → List RdmaWriteTask
  | .headerRead x => [.write (MetaHandler.readRespWr x)]
  | _ => []

/-- A report of the local card about what arrived, whose base goes to the retransmit worker too. -/
def isLocalHw : ReportMeta → Bool
  | .ackLocalHw .. | .nakLocalHw .. => true
  | _ => false

/-- The range a report makes the retransmit worker send again. -/
def range : ReportMeta → List PacketRetransmitTask
  | .nakRemoteHw _ psnNow _ psnPre _ => [.retransmitRange psnPre (psnNow + 128)]
  | .nakRemoteDriver psnNow psnPre => [.retransmitRange psnPre psnNow]
  | _ => []

end ReportMeta

/-- What handling the report `m` does to the trackers and sends to the workers. -/
structure MetaHandler.Handled (h : MetaHandler) (m : ReportMeta) (h' : MetaHandler)
    (out : MetaOutput) : Prop where
  send : h'.send.psnTracker = (h.send.psnTracker.applyAll (m.sendOps h)).1
  recv : h'.recv.psnTracker = (h.recv.psnTracker.applyAll (m.recvOps h)).1
  completion : out.completion = (m.event.map fun e => .register (.recv e)).toList ++
    ((m.recvAck h).map .ackRecv).toList ++ ((m.sendAck h).map .ackSend).toList
  rdmaWrite : out.rdmaWrite = m.answer ++ ((m.sendAck h).map .ack).toList
  packetRetransmit : out.packetRetransmit = ((m.sendAck h).map .ack).toList ++
    (if m.isLocalHw then ((m.recvAck h).map .ack).toList else []) ++ m.range

namespace MetaHandler

variable {h : MetaHandler}
variable {m : ReportMeta}

theorem handled_headerWrite (x : HeaderWriteMeta) :
    h.Handled (.headerWrite x) (h.handleHeaderWrite x).1 (h.handleHeaderWrite x).2 := by
  have happ := h.recv.psnTracker.applyAll_singleton (.one x.psn)
  have hack : recvAck h (.headerWrite x) = (h.recv.psnTracker.ackOne x.psn).2 :=
    congrArg Prod.snd happ
  refine ⟨rfl, (congrArg Prod.fst happ).symm, ?_, rfl, rfl⟩
  rw [hack]
  simp only [handleHeaderWrite, LocalAckTracker.ackOne, event, sendAck, sendOps, applyAll]
  split_ifs <;> simp

theorem handled_headerRead (x : HeaderReadMeta) :
    h.Handled (.headerRead x) (h.handleHeaderRead x).1 (h.handleHeaderRead x).2 := by
  have happ := h.recv.psnTracker.applyAll_singleton (.one x.psn)
  cases hreq : x.ackReq with
  | false =>
    constructor <;> simp [handleHeaderRead, hreq, sendAck, sendOps,
      recvAck, recvOps, event, answer, range, applyAll]
  | true =>
    have hack : recvAck h (.headerRead x) = (h.recv.psnTracker.ackOne x.psn).2 := by
      rw [recvAck, recvOps, if_pos hreq]
      rfl
    constructor
    · rfl
    · rw [recvOps, handleHeaderRead, hreq]
      rfl
    · rw [hack]
      simp [handleHeaderRead, hreq, LocalAckTracker.ackOne, event, sendAck, sendOps, applyAll]
    · rfl
    · rfl

theorem handled_receiverUpdates {acked : LocalAckTracker × Option Psn}
    (hm : m.isLocalHw) (hrecv : (h.recv.psnTracker.applyAll (m.recvOps h)).1 = acked.1.psnTracker)
    (hack : (h.recv.psnTracker.applyAll (m.recvOps h)).2 = acked.2) :
    h.Handled m { h with recv := acked.1 } ((acked.2.map receiverUpdates).getD {}) := by
  have hrecvAck : m.recvAck h = acked.2 := hack
  have hsend : m.sendOps h = [] ∧ m.event = none ∧ m.answer = [] ∧ m.range = [] := by
    cases m <;> cases hm <;> exact ⟨rfl, rfl, rfl, rfl⟩
  obtain ⟨hops, hevent, hanswer, hrange⟩ := hsend
  have hsendAck : m.sendAck h = none := by
    rw [sendAck, hops]
    rfl
  refine ⟨by rw [hops]; rfl, hrecv.symm, ?_, ?_, ?_⟩
  · rw [hrecvAck, hsendAck, hevent]
    cases acked.2 <;> rfl
  · rw [hsendAck, hanswer]
    cases acked.2 <;> rfl
  · rw [hrecvAck, hsendAck, hrange, hm]
    cases acked.2 <;> rfl

theorem handled_senderUpdates {acked : RemoteAckTracker × Option Psn} {out : MetaOutput}
    (hm : m.recvOps h = [] ∧ m.event = none ∧ m.answer = [] ∧ m.isLocalHw = false)
    (hsend : (h.send.psnTracker.applyAll (m.sendOps h)).1 = acked.1.psnTracker)
    (hack : (h.send.psnTracker.applyAll (m.sendOps h)).2 = acked.2)
    (hout : out = { (acked.2.map senderUpdates).getD {} with
      packetRetransmit := ((acked.2.map senderUpdates).getD {}).packetRetransmit ++ m.range }) :
    h.Handled m { h with send := acked.1 } out := by
  obtain ⟨hops, hevent, hanswer, hlocal⟩ := hm
  have hsendAck : m.sendAck h = acked.2 := hack
  have hrecvAck : m.recvAck h = none := by
    rw [recvAck, hops]
    rfl
  subst hout
  refine ⟨hsend.symm, by rw [hops]; rfl, ?_, ?_, ?_⟩
  · rw [hrecvAck, hsendAck, hevent]
    cases acked.2 <;> rfl
  · rw [hsendAck, hanswer]
    cases acked.2 <;> rfl
  · rw [hsendAck, hlocal]
    cases acked.2 <;> simp [senderUpdates]

theorem Handled.withAckTimer {r : MetaHandler × MetaOutput} (hr : h.Handled m r.1 r.2) :
    h.Handled m (MetaHandler.withAckTimer r).1 (MetaHandler.withAckTimer r).2 where
  send := hr.send
  recv := hr.recv
  completion := hr.completion
  rdmaWrite := hr.rdmaWrite
  packetRetransmit := hr.packetRetransmit

/-- **What a report does**, whichever it is: the calls on the two trackers, the event it registers,
and the bases it sends to the workers. -/
theorem handleMeta_spec {r : MetaHandler × MetaOutput} (hr : h.handleMeta m = some r) :
    h.Handled m r.1 r.2 := by
  cases m with
  | headerWrite x =>
    cases hr
    exact (handled_headerWrite x).withAckTimer
  | headerRead x =>
    cases hr
    exact (handled_headerRead x).withAckTimer
  | ackLocalHw psnNow nowBitmap =>
    cases hr
    refine Handled.withAckTimer (handled_receiverUpdates rfl ?_ ?_) <;>
    · rfl
  | ackRemoteDriver psnNow =>
    cases hr
    refine Handled.withAckTimer (handled_senderUpdates ⟨rfl, rfl, rfl, rfl⟩ ?_ ?_ ?_)
    · rfl
    · rfl
    · simp only [range, List.append_nil]
      rfl
  | nakLocalHw psnNow nowBitmap psnPre preBitmap =>
    cases hr
    refine Handled.withAckTimer (handled_receiverUpdates rfl ?_ ?_) <;>
    · rfl
  | nakRemoteHw msn psnNow nowBitmap psnPre preBitmap =>
    cases hr
    refine Handled.withAckTimer (handled_senderUpdates ⟨rfl, rfl, rfl, rfl⟩ ?_ ?_ rfl) <;>
    · simp only [sendOps, RemoteAckTracker.nakBitmap]
      split_ifs <;>
        simp only [List.cons_append, Option.or_none] <;> rfl
  | nakRemoteDriver psnNow psnPre =>
    cases hr
    refine Handled.withAckTimer (handled_senderUpdates ⟨rfl, rfl, rfl, rfl⟩ rfl ?_ rfl)
    rfl
  | cnp => cases hr

end MetaHandler

end OpenRdma.Driver
