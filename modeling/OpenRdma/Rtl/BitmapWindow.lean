import Mathlib.Algebra.Order.Group.Int
import OpenRdma.Foundations.Circular
import OpenRdma.Foundations.Rust
import OpenRdma.Rtl.BitmapStorage

/-!
# What a window means

A window with highest stride `L` represents a set of unbounded sequence numbers: bit `i` is that of
`16 * L + i - 112` (`WindowOf`). An update is read as the number nearest to the window, by strides
(`nearPsn`). Merging it adds it to the set and moves the window to its stride if that is ahead
(`WindowOf.update`). So a window is that of the numbers received, as long as each is less than half
a circle of strides ahead (`WindowExact`).
-/

namespace OpenRdma.Rtl

open Function BitVec BitmapWindowStorage List

/-! ## The set of a window -/

/-- The window with highest stride `L` has a bit set exactly for its numbers in `R`, and no number
of `R` is ahead of it. -/
structure WindowOf (L : ℤ) (R : Set ℤ) (e : BitmapWindowStorageEntry) : Prop where
  leftBound : e.leftBound = BitVec.ofInt 20 L
  bit : ∀ i < 128, e.data.getLsbD i ↔ 16 * L + i - 112 ∈ R
  top : ∀ p ∈ R, p < 16 * (L + 1)

/-- The number a sequence number stands for next to a window with highest stride `L`. -/
def nearPsn (L : ℤ) (psn : BitVec 24) : ℤ :=
  16 * (L + (psn.extractLsb' 4 20 - BitVec.ofInt 20 L).toInt) + psn.toNat % 16

theorem windowOf_resetValue : WindowOf (-1) {p | p < 0} resetValue where
  leftBound := rfl
  bit i hi := by
    rw [show resetValue.data = allOnes 128 from rfl, getLsbD_allOnes, decide_eq_true hi]
    simp only [Set.mem_ofPred_eq, true_iff]
    omega
  top p hp := by
    simp only [Set.mem_ofPred_eq] at hp
    omega

theorem nearPsn_ofInt {L a : ℤ} (h₁ : -2 ^ 19 ≤ a / 16 - L) (h₂ : a / 16 - L < 2 ^ 19) :
    nearPsn L (BitVec.ofInt 24 a) = a := by
  have hmod : ((BitVec.ofInt 24 a).toNat : ℤ) = a % 2 ^ 24 := by
    rw [BitVec.toNat_ofInt]
    omega
  have hdelta : ((BitVec.ofInt 24 a).extractLsb' 4 20 - BitVec.ofInt 20 L).toInt = a / 16 - L := by
    rw [BitVec.toInt_eq_toNat_cond, BitVec.toNat_sub, BitVec.extractLsb'_toNat, BitVec.toNat_ofInt]
    split_ifs <;> omega
  rw [nearPsn]
  omega

variable {L : ℤ} {R : Set ℤ} {old : BitmapWindowStorageEntry} {req : BitmapWindowStorageUpdateReq}
variable {received : List ℤ}

theorem leftBound_oneHotEntry (L : ℤ) :
    (oneHotEntry req).leftBound = BitVec.ofInt 20 (nearPsn L req.psn / 16) := by
  have hdiv : nearPsn L req.psn / 16 = L + (req.psn.extractLsb' 4 20 -
    BitVec.ofInt 20 L).toInt := by
    rw [nearPsn]
    omega
  rw [hdiv, BitVec.ofInt_add, BitVec.ofInt_toInt, BitVec.add_comm, BitVec.sub_add_cancel]
  rfl

theorem WindowOf.strideDelta_eq (h : WindowOf L R old) (req : BitmapWindowStorageUpdateReq) :
    strideDelta old (oneHotEntry req) = nearPsn L req.psn / 16 - L := by
  have hdelta : strideDelta old (oneHotEntry req) =
      (req.psn.extractLsb' 4 20 - BitVec.ofInt 20 L).toInt := by
    rw [strideDelta, boundaryDelta, h.leftBound]
    rfl
  rw [nearPsn]
  omega

/-- **Merging an update adds it to the set**, whether it moves the window, falls into it or is
stale. -/
theorem WindowOf.update (h : WindowOf L R old) (req : BitmapWindowStorageUpdateReq) :
    WindowOf (max L (nearPsn L req.psn / 16)) (insert (nearPsn L req.psn) R)
      ((writeBackEntry old (oneHotEntry req)).getD old) := by
  obtain ⟨a, ha⟩ : ∃ a, a = nearPsn L req.psn := ⟨_, rfl⟩
  have hd : strideDelta old (oneHotEntry req) = a / 16 - L := by rw [ha]; exact h.strideDelta_eq req
  have hmod : a % 16 = req.psn.toNat % 16 := by
    rw [ha, nearPsn]
    omega
  rw [← ha]
  unfold writeBackEntry
  by_cases hs : skipMergeStale old (oneHotEntry req)
  · -- a stale number is behind the window
    have hle := skipMergeStale_iff.1 hs
    rw [if_pos hs, Option.getD_none, max_eq_left (by omega)]
    refine ⟨h.leftBound, fun i hi => ?_, fun p hp => ?_⟩
    · rw [h.bit i hi]
      refine ⟨Or.inr, fun hp => hp.resolve_left ?_⟩
      omega
    · rcases hp with rfl | hp
      · omega
      · exact h.top p hp
  · have hlt : -8 < strideDelta old (oneHotEntry req) := by
      rw [skipMergeStale_iff] at hs
      omega
    rw [if_neg hs, Option.getD_some]
    refine ⟨?_, fun i hi => ?_, fun p hp => ?_⟩
    · -- the boundary is the one ahead
      by_cases hw : isShiftWindow old (oneHotEntry req)
      · have hpos := isShiftWindow_iff.1 hw
        rw [max_eq_right (by omega), ha, ← leftBound_oneHotEntry L]
        exact if_pos hw
      · have hnonpos : strideDelta old (oneHotEntry req) ≤ 0 :=
          not_lt.1 fun h => hw (isShiftWindow_iff.2 h)
        rw [max_eq_left (by omega), ← h.leftBound]
        exact if_neg hw
    · rw [getLsbD_mergedEntry hlt hi, Bool.or_eq_true, getLsbD_oneHotEntry, decide_eq_true_eq, hd]
      refine or_congr (by omega) ?_
      by_cases hin : i + 16 * (a / 16 - L).toNat < 128
      · rw [h.bit _ hin]
        rw [show 16 * L + ((i + 16 * (a / 16 - L).toNat : ℕ) : ℤ) - 112 =
          16 * max L (a / 16) + i - 112 by omega]
      · rw [getLsbD_of_ge old.data _ (by omega)]
        refine iff_of_false Bool.false_ne_true fun hp => ?_
        have := h.top _ hp
        omega
    · rcases hp with rfl | hp
      · omega
      · have := h.top p hp
        omega

/-! ## The numbers received -/

/-- The highest number received; those before 0 count as received. -/
def highest (received : List ℤ) : ℤ := received.foldl max (-1)

/-- The number a sequence number stands for: the one nearest to the highest so far. The first is
counted from 0. -/
def readPsn (received : List ℤ) (psn : BitVec 24) : ℤ :=
  Circular.lift (2 ^ 24) (if received = [] then 0 else highest received) psn.toNat

/-- The numbers a list of sequence numbers stands for. -/
def readPsns (psns : List (BitVec 24)) : List ℤ :=
  psns.foldl (fun received psn => received ++ [readPsn received psn]) []

/-- The next number is less than half a circle of strides ahead of the highest. -/
def InReach (received : List ℤ) (psn : BitVec 24) : Prop :=
  readPsn received psn / 16 - highest received / 16 < 2 ^ 19

instance (received : List ℤ) (psn : BitVec 24) : Decidable (InReach received psn) :=
  inferInstanceAs (Decidable (_ < _))

theorem readPsns_concat (psns : List (BitVec 24)) (psn : BitVec 24) :
    readPsns (psns ++ [psn]) = readPsns psns ++ [readPsn (readPsns psns) psn] := by
  rw [readPsns, foldl_append]
  rfl

theorem highest_concat (received : List ℤ) (a : ℤ) :
    highest (received ++ [a]) = max (highest received) a := by
  rw [highest, foldl_append]
  rfl

theorem ofInt_readPsn (received : List ℤ) (psn : BitVec 24) :
    BitVec.ofInt 24 (readPsn received psn) = psn := by
  refine eq_of_toNat_eq ?_
  exact Circular.wrap_lift (by decide) _ psn.isLt

/-- The number the storage takes a sequence number for: the one whose stride is nearest to the
highest. -/
def countPsn (received : List ℤ) (psn : BitVec 24) : ℤ := nearPsn (highest received / 16) psn

/-- The numbers the storage takes a list of sequence numbers for. -/
def countPsns (psns : List (BitVec 24)) : List ℤ :=
  psns.foldl (fun received psn => received ++ [countPsn received psn]) []

theorem countPsns_concat (psns : List (BitVec 24)) (psn : BitVec 24) :
    countPsns (psns ++ [psn]) = countPsns psns ++ [countPsn (countPsns psns) psn] := by
  rw [countPsns, foldl_append]
  rfl

theorem InReach.countPsn_eq {psn : BitVec 24} (h : InReach received psn) :
    countPsn received psn = readPsn received psn := by
  have hle : -2 ^ 19 ≤ readPsn received psn / 16 - highest received / 16 := by
    have := Circular.le_lift (M := 2 ^ 24) (if received = [] then 0 else highest received) psn.toNat
    change _ - readPsn received psn ≤ _ at this
    split_ifs at this with hnil
    · rw [hnil, show highest [] = -1 from rfl]
      rw [hnil] at this
      omega
    · omega
  have hnear := nearPsn_ofInt hle h
  rwa [ofInt_readPsn] at hnear

/-- **The window is that of the numbers received**: it ends with the stride of the highest, and the
bit of a number is set exactly if it was received or is one of the 128 before 0. -/
structure WindowExact (received : List ℤ) (e : BitmapWindowStorageEntry) : Prop where
  leftBound : e.leftBound = BitVec.ofInt 20 (highest received / 16)
  bit : ∀ i : ℕ, i < 128 → ∀ p : ℤ, p = 16 * (highest received / 16) + i - 112 →
    (e.data.getLsbD i ↔ p ∈ received ∨ -128 ≤ p ∧ p < 0)

/-- The set of the numbers received, with all before 0. -/
def receivedSet (received : List ℤ) : Set ℤ := {p | p < 0 ∨ p ∈ received}

theorem neg_one_le_highest (received : List ℤ) : -1 ≤ highest received := by
  induction received using reverseRecOn with
  | nil => exact le_rfl
  | append_singleton received a ih =>
    rw [highest_concat]
    exact ih.trans (le_max_left _ _)

theorem WindowOf.windowExact {e : BitmapWindowStorageEntry}
    (h : WindowOf (highest received / 16) (receivedSet received) e) : WindowExact received e := by
  refine ⟨h.leftBound, fun i hi p hp => ?_⟩
  have hhighest := neg_one_le_highest received
  rw [h.bit i hi, ← hp]
  constructor
  · rintro (hneg | hmem)
    · exact Or.inr ⟨by omega, hneg⟩
    · exact Or.inl hmem
  · rintro (hmem | ⟨-, hneg⟩)
    · exact Or.inr hmem
    · exact Or.inl hneg

theorem receivedSet_concat (received : List ℤ) (a : ℤ) :
    receivedSet (received ++ [a]) = insert a (receivedSet received) := by
  ext p
  simp only [receivedSet, Set.mem_ofPred_eq, Set.mem_insert_iff, mem_append, mem_singleton]
  tauto

theorem highest_concat_div (received : List ℤ) (a : ℤ) :
    highest (received ++ [a]) / 16 = max (highest received / 16) (a / 16) := by
  rw [highest_concat]
  rcases le_total (highest received) a with hle | hle
  · rw [max_eq_right hle, max_eq_right (by omega)]
  · rw [max_eq_left hle, max_eq_left (by omega)]

theorem WindowOf.receive (h : WindowOf (highest received / 16) (receivedSet received) old) :
    WindowOf (highest (received ++ [countPsn received req.psn]) / 16)
      (receivedSet (received ++ [countPsn received req.psn]))
      ((writeBackEntry old (oneHotEntry req)).getD old) := by
  rw [receivedSet_concat, highest_concat_div]
  exact h.update req

/-! ## Runs of the storage -/

/-- The window of a row, with the one to be written back. -/
def BitmapWindowStorage.stored (s : BitmapWindowStorage) (row : BitVec 10) :
    BitmapWindowStorageEntry :=
  ((s.stageTwoToThreePipelineQueue.find? fun e => e.rowAddr == row).map (·.newEntry)).getD
    (s.storage row)

/-- The steps of a run in which every number merged is in reach. -/
def MergesInReach (w : BitmapWindowStorage × BitmapHistory) : BitmapLabel → Prop
  | .getBramQueryRespAndMergeThem => ∀ e ∈ w.1.stageOneToTwoPipelineQueue.head?, e.isReset = false →
      ∀ req ∈ w.2.requests[w.2.responses.length]?,
      InReach (readPsns (w.2.handled e.rowAddr)) req.psn
  | _ => True

instance (w : BitmapWindowStorage × BitmapHistory) (l : BitmapLabel) :
    Decidable (MergesInReach w l) := by
  unfold MergesInReach
  split <;> infer_instance

/-- The windows of the rows that are initialized are those of the numbers merged. -/
structure WindowsInv (s : BitmapWindowStorage) (h : BitmapHistory) : Prop where
  phase : PhaseInv s
  order : OrderInv s h
  window : ∀ row, s.bramInitedReg = true ∨ row < s.bramInitPtrReg →
    WindowOf (highest (countPsns (h.handled row)) / 16) (receivedSet (countPsns (h.handled row)))
      (s.stored row)
  fresh : s.bramInitedReg = false → ∀ row, h.handled row = []
  resets : ∀ e ∈ s.stageOneToTwoPipelineQueue, e.isReset = true → e.newEntry = resetValue

theorem windowOf_nil : WindowOf (highest [] / 16) (receivedSet []) resetValue := by
  have hset : receivedSet [] = {p | p < 0} := by simp [receivedSet]
  rw [hset]
  exact windowOf_resetValue

section

variable {s s' : BitmapWindowStorage} {h : BitmapHistory}
  {w w' : BitmapWindowStorage × BitmapHistory}
variable {e : BitmapWindowStorageStageOneToTwoPipelineEntry}
  {es : List BitmapWindowStorageStageOneToTwoPipelineEntry} {l : BitmapLabel}

theorem stored_of_nil (h₂ : s.stageTwoToThreePipelineQueue = []) : s.stored = s.storage := by
  funext row
  rw [stored, h₂]
  rfl

theorem stored_of_option (row : BitVec 10) {o : Option BitmapWindowStorageEntry}
    (h₂ : s.stageTwoToThreePipelineQueue = o.toList.map fun e => ⟨row, e⟩) :
    s.stored = Function.update s.storage row (o.getD (s.storage row)) := by
  funext row'
  rw [stored, h₂]
  cases o with
  | none => rw [Option.getD_none, update_eq_self]; rfl
  | some e =>
    rw [Option.toList_some, map_singleton, find?_singleton]
    by_cases hrow : row = row'
    · rw [if_pos (by simpa using hrow), hrow, update_self]
      rfl
    · rw [if_neg (by simpa using hrow), update_of_ne (Ne.symm hrow)]
      rfl

theorem OrderInv.next_request (ho : OrderInv s h)
    (he : s.stageOneToTwoPipelineQueue = e :: es) (hr : e.isReset = false) :
    ∃ req, h.requests[h.responses.length]? = some req ∧ e = queryEntry req := by
  obtain ⟨answered, inFlight, hreq, hans, hone⟩ := ho.order
  rw [he, List.filter_cons_of_pos (by simp [hr])] at hone
  obtain ⟨req, inFlight, rfl, rfl, -⟩ := List.map_eq_cons_iff.1 hone.symm
  refine ⟨req, ?_, rfl⟩
  rw [hreq, List.append_assoc, ← hans.length_eq, List.getElem?_append_right le_rfl, Nat.sub_self]
  rfl

section

variable (hi : WindowsInv s h)
include hi

theorem WindowsInv.congr (hs : s.step l = some s')
    (hinited : s'.bramInitedReg = s.bramInitedReg) (hptr : s'.bramInitPtrReg = s.bramInitPtrReg)
    (hstored : s'.stored = s.stored) (hhandled : (h.record s l).handled = h.handled)
    (hresets : ∀ e ∈ s'.stageOneToTwoPipelineQueue, e.isReset = true → e.newEntry = resetValue) :
    WindowsInv s' (h.record s l) := by
  refine ⟨hi.phase.step hs, hi.order.step hs, fun row hrow => ?_, fun hn row => ?_, hresets⟩
  · rw [hstored, hhandled]
    rw [hinited, hptr] at hrow
    exact hi.window row hrow
  · rw [hhandled]
    exact hi.fresh (hinited ▸ hn) row

theorem WindowsInv.bramInit (hs : s.bramInit = some s') : WindowsInv s' h := by
  have hphase := hi.phase.step (l := .bramInit) hs
  have horder := hi.order.step (l := .bramInit) hs
  cases fires_of_step (l := .bramInit) hs with
  | bramInit hn =>
    have hb : s.bitmapUpdateBusyReg = false := by
      rw [← Bool.not_eq_true]
      exact fun hb => by simp [hi.phase.inited hb] at hn
    obtain ⟨-, -, h₂⟩ := hi.phase.idle_of_not_busy hb
    refine ⟨hphase, horder, fun row hrow => ?_, fun _ => hi.fresh hn, hi.resets⟩
    have hle := Word.eq_or_lt_of_lt_add_one (hrow.imp_left beq_iff_eq.1)
    have hstored := stored_of_nil (s := { s with
      bramInitedReg := s.bramInitPtrReg == allOnes 10
      storage := update s.storage s.bramInitPtrReg resetValue
      bramInitPtrReg := s.bramInitPtrReg + 1 }) h₂
    rw [hstored]
    dsimp only
    rcases hle with rfl | hlt
    · rw [hi.fresh hn, update_self]
      exact windowOf_nil
    · have hne : row ≠ s.bramInitPtrReg := fun heq => by
        rw [heq] at hlt
        exact BitVec.lt_irrefl _ hlt
      rw [update_of_ne hne, ← stored_of_nil h₂]
      exact hi.window row (Or.inr hlt)

theorem WindowsInv.next_update (hinit : s.bramInitedReg = true)
    (he : s.stageOneToTwoPipelineQueue = e :: es) (hr : e.isReset = false) :
    ∃ req, h.requests[h.responses.length]? = some req ∧ e = queryEntry req ∧
      s.stageTwoToThreePipelineQueue = [] ∧ s.readRespPipeOut = [s.storage (getIndexQP req.qpn)] ∧
      WindowOf (highest (countPsns (h.handled (getIndexQP req.qpn))) / 16)
        (receivedSet (countPsns (h.handled (getIndexQP req.qpn))))
        (s.storage (getIndexQP req.qpn)) := by
  obtain ⟨-, rfl, h₂, hread⟩ := hi.phase.queried_of_cons he
  obtain ⟨req, hreq, rfl⟩ := hi.order.next_request he hr
  refine ⟨req, hreq, rfl, h₂, hread, ?_⟩
  rw [← stored_of_nil h₂]
  exact hi.window _ (Or.inl hinit)

theorem WindowsInv.merge (hs : s.getBramQueryRespAndMergeThem = some s') :
    WindowsInv s' (h.record s .getBramQueryRespAndMergeThem) := by
  have hphase := hi.phase.step (l := .getBramQueryRespAndMergeThem) hs
  have horder := hi.order.step (l := .getBramQueryRespAndMergeThem) hs
  cases fires_merge hs with
  | @mergeReset e es hinit he hr =>
    obtain ⟨-, rfl, h₂, -⟩ := hi.phase.queried_of_cons he
    have hreset := hi.resets e (by rw [he]; exact mem_cons_self) hr
    refine ⟨hphase, horder, fun row _ => ?_, fun hn => absurd (hinit.symm.trans hn) (by decide),
      fun e he => by cases he⟩
    have hrow := hi.window row (Or.inl hinit)
    rw [stored_of_nil h₂] at hrow
    rw [stored_of_option e.rowAddr (o := some e.newEntry) (by rw [h₂]; rfl)]
    simp only [BitmapHistory.record, he, hr, if_true, hreset]
    by_cases heq : row = e.rowAddr
    · rw [heq, update_self, update_self]
      exact windowOf_nil
    · rw [update_of_ne heq, update_of_ne heq]
      exact hrow
  | mergeUpdate hinit he hr ho =>
    obtain ⟨-, rfl, h₂, -⟩ := hi.phase.queried_of_cons he
    obtain ⟨req, hreq, rfl, -, hread, hwindow⟩ := hi.next_update hinit he hr
    rw [ho] at hread
    cases hread
    refine ⟨hphase, horder, fun row _ => ?_, fun hn => absurd (hinit.symm.trans hn) (by decide),
      fun e he => by cases he⟩
    have hrow := hi.window row (Or.inl hinit)
    rw [stored_of_nil h₂] at hrow
    rw [stored_of_option (getIndexQP req.qpn) (by rw [h₂]; rfl)]
    simp only [BitmapHistory.record, he, hr, Bool.false_eq_true, if_false, hreq, Option.map_some,
      Option.toList_some]
    by_cases heq : row = getIndexQP req.qpn
    · subst heq
      rw [show (queryEntry req).rowAddr = getIndexQP req.qpn from rfl, update_self,
        update_self, countPsns_concat]
      exact hwindow.receive
    · rw [show (queryEntry req).rowAddr = getIndexQP req.qpn from rfl, update_of_ne heq,
        update_of_ne heq]
      exact hrow

/-- **Every step keeps the windows those of the numbers merged.** -/
theorem WindowsInv.step (hs' : s.step l = some s') : WindowsInv s' (h.record s l) := by
  have hcongr := fun h₁ h₂ h₃ h₄ h₅ => hi.congr hs' h₁ h₂ h₃ h₄ h₅
  cases fires_of_step hs' with
  | bramInit => exact hi.bramInit hs'
  | queryReset _ hb =>
    refine hcongr rfl rfl rfl rfl fun e he _ => ?_
    rw [(hi.phase.idle_of_not_busy hb).1] at he
    rw [mem_singleton.1 he]
  | queryUpdate _ hb =>
    refine hcongr rfl rfl rfl rfl fun e he hr => ?_
    rw [(hi.phase.idle_of_not_busy hb).1] at he
    rw [mem_singleton.1 he] at hr
    cases hr
  | mergeReset | mergeUpdate => exact hi.merge hs'
  | @doBramWriteBack e es _ hb he =>
    obtain rfl : es = [] := by
      rcases hi.phase.phase with ⟨-, -, -, h₂⟩ | ⟨e', -, -, -, h₂⟩ | ⟨e', -, -, -, h₂⟩ | ⟨-, -, -,
        h₂⟩
      all_goals
        rw [he] at h₂
        cases h₂
      rfl
    refine hcongr rfl rfl ?_ rfl hi.resets
    exact (stored_of_option e.rowAddr (o := some e.newEntry) he).symm
  | update | reset | readOnly | handleReadOnlyReq | handleReadOnlyResp | takeResp
      | takeReadOnlyResp =>
    exact hcongr rfl rfl rfl rfl hi.resets

end

/-- **The windows are those of the numbers received**, and a stale update changes none. -/
structure Exact (w : BitmapWindowStorage × BitmapHistory) : Prop where
  window : w.1.bramInitedReg = true → ∀ row,
    WindowExact (readPsns (w.2.handled row)) (w.1.stored row)
  stale : ∀ w' e req, bitmapStep w .getBramQueryRespAndMergeThem = some w' →
    w.1.stageOneToTwoPipelineQueue.head? = some e → e.isReset = false →
    w.2.requests[w.2.responses.length]? = some req →
    readPsn (readPsns (w.2.handled e.rowAddr)) req.psn / 16 + 8 ≤
      highest (readPsns (w.2.handled e.rowAddr)) / 16 →
    w'.1.stored = w.1.stored

/-- The storage took every number for itself. -/
def Counted (h : BitmapHistory) : Prop := ∀ row, countPsns (h.handled row) =
    readPsns (h.handled row)

theorem Counted.step (hc : Counted h) (hi : WindowsInv s h)
    (hok : MergesInReach (s, h) l) (hs : s.step l = some s') : Counted (h.record s l) := by
  cases fires_of_step hs with
  | @mergeReset e es _ he hr =>
    intro row
    simp only [BitmapHistory.record, he, hr, if_true]
    by_cases heq : row = e.rowAddr
    · rw [heq, update_self]
      rfl
    · rw [update_of_ne heq]
      exact hc row
  | mergeUpdate hinit he hr =>
    intro row
    obtain ⟨req, hreq, rfl, -⟩ := hi.next_update hinit he hr
    have hreach := hok _ (by rw [he]; rfl) hr req hreq
    simp only [BitmapHistory.record, he, hr, Bool.false_eq_true, if_false, hreq, Option.map_some,
      Option.toList_some]
    by_cases heq : row = (queryEntry req).rowAddr
    · rw [heq, update_self, countPsns_concat, readPsns_concat, hc, hreach.countPsn_eq]
    · rw [update_of_ne heq]
      exact hc row
  | _ => exact hc

theorem WindowsInv.stored_of_stale (hi : WindowsInv s h)
    (hs : s.getBramQueryRespAndMergeThem = some s') (he : s.stageOneToTwoPipelineQueue = e :: es)
    (hr : e.isReset = false) {req : BitmapWindowStorageUpdateReq}
    (hreq : h.requests[h.responses.length]? = some req)
    (hstale : countPsn (countPsns (h.handled e.rowAddr)) req.psn / 16 + 8 ≤
      highest (countPsns (h.handled e.rowAddr)) / 16) : s'.stored = s.stored := by
  cases fires_merge hs with
  | mergeReset _ he' hr' =>
    obtain ⟨rfl, rfl⟩ := cons.inj (he.symm.trans he')
    rw [hr] at hr'
    cases hr'
  | mergeUpdate hinit he' _ ho =>
    obtain ⟨rfl, rfl⟩ := cons.inj (he.symm.trans he')
    obtain ⟨req', hreq', rfl, h₂, hread, hwindow⟩ := hi.next_update hinit he hr
    obtain rfl := Option.some.inj (hreq.symm.trans hreq')
    rw [ho] at hread
    cases hread
    have hdelta := hwindow.strideDelta_eq req
    have hskip : skipMergeStale (s.storage (getIndexQP req.qpn)) (oneHotEntry req) := by
      have hcount : countPsn (countPsns (h.handled (getIndexQP req.qpn))) req.psn / 16 + 8 ≤
        highest (countPsns (h.handled (getIndexQP req.qpn))) / 16 := hstale
      rw [countPsn] at hcount
      exact skipMergeStale_iff.2 (by omega)
    rw [stored_of_nil h₂]
    simp only [h₂, writeBackEntry, queryEntry, hskip]
    rfl

theorem WindowsInv.exact (hi : WindowsInv w.1 w.2) (hc : Counted w.2) : Exact w := by
  refine ⟨fun hinit row => ?_, ?_⟩
  · rw [← hc]
    exact (hi.window row (Or.inl hinit)).windowExact
  · intro w' e req hstep he hr hreq hstale
    obtain ⟨s', hs', rfl⟩ := Option.map_eq_some_iff.1 hstep
    obtain ⟨es, he⟩ := head?_eq_some_iff.1 he
    have hreach : InReach (readPsns (w.2.handled e.rowAddr)) req.psn := by
      unfold InReach
      omega
    rw [← hreach.countPsn_eq, ← hc] at hstale
    exact hi.stored_of_stale hs' he hr hreq hstale

theorem windowsInv_init {s₀ : BitmapWindowStorage} (hs₀ : s₀.Initial) : WindowsInv s₀ {} := by
  rw [hs₀]
  refine ⟨phaseInv_init rfl, ⟨⟨[], [], rfl, .nil, rfl⟩, rfl⟩, fun row hrow => ?_, fun _ _ => rfl,
    fun e he => by cases he⟩
  rcases hrow with h | h
  · cases h
  · exact absurd h (Nat.not_lt_zero _)

/-- **In every run in which every number merged is less than half a circle of strides ahead of the
highest, the windows are those of the numbers received.** -/
theorem run_exact {s₀ : BitmapWindowStorage} {ls : List BitmapLabel} (hs₀ : s₀.Initial)
    (hrun : Run bitmapStep MergesInReach (s₀, {}) ls w) : Exact w := by
  have hinv : WindowsInv w.1 w.2 ∧ Counted w.2 := by
    refine hrun.invariant (I := fun _ w => WindowsInv w.1 w.2 ∧ Counted w.2)
      ⟨windowsInv_init hs₀, fun _ => rfl⟩ ?_
    rintro - w l w' ⟨hi, hc⟩ hok hs
    obtain ⟨s', hs', rfl⟩ := Option.map_eq_some_iff.1 hs
    exact ⟨hi.step hs', hc.step hi hok hs'⟩
  exact hinv.1.exact hinv.2

end

/-- A number of the first stride, one that moves the window by whole strides, and one behind it. -/
theorem run_exact_three_updates :
    ∃ w, Run bitmapStep MergesInReach (powerUp, {})
        (clearMemory ++ passUpdate 3 ++ passUpdate 40 ++ passUpdate 21) w ∧
      readPsns (w.2.handled 0) = [3, 40, 21] ∧ (w.1.stored 0).leftBound = 2 ∧ Exact w :=
  ⟨_, .of_isSome (by decide +kernel), by decide +kernel, by decide +kernel,
    run_exact powerUp_initial (.of_isSome _)⟩

/-- The number 2 ^ 23 after 15 is less than half a circle ahead, but its stride is exactly half a
circle of strides ahead: it is taken as stale, and the window stays at stride 0. -/
theorem run_half_circle_taken_as_stale :
    ∃ w, Run bitmapStep (fun _ _ => True) (powerUp, {}) (clearMemory ++ passUpdate 15 ++
        [.update ⟨0, 0x800000⟩, .sendBramQueryReqAndGenOneHotBitmap, .getBramQueryRespAndMergeThem])
        w ∧
      readPsns (w.2.handled 0) = [15, 2 ^ 23] ∧ (w.1.stored 0).leftBound = 0 ∧ ¬ Exact w := by
  refine ⟨_, .of_isSome (by decide +kernel), by decide +kernel, by decide +kernel, fun hexact => ?_⟩
  exact absurd (hexact.window (by decide +kernel) 0).leftBound (by decide +kernel)

end OpenRdma.Rtl
