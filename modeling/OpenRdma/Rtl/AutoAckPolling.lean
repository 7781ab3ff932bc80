import OpenRdma.Rtl.AutoAckRow

/-!
# What the polling reads

The polling reads a window from memory, so it misses an update that is merged and not written back.
The window read is that of the numbers in memory (`MemoryInv`), and at most one window is being read
(`ReadsInv`).
-/

namespace OpenRdma.Rtl

open List Function BitmapWindowStorage

/-- The numbers of the windows in memory, and of the window the polling read last. -/
structure PollHistory where
  written : BitVec 10 → List ℤ := fun _ => []
  polling : List ℤ := []

/-- The numbers of the windows in memory after a step of the bitmap storage. -/
def recordWritten (b : BitmapWindowStorage) (h : BitmapHistory) (written : BitVec 10 → List ℤ) :
    BitmapLabel → BitVec 10 → List ℤ
  | .doBramWriteBack =>
    match b.stageTwoToThreePipelineQueue with
    | [] => written
    | e :: _ => Function.update written e.rowAddr (countPsns (h.handled e.rowAddr))
  | _ => written

def PollHistory.record (p : PollHistory) (s : AutoAckGenerator) (h : AutoAckHistory)
    (l : AutoAckLabel) : PollHistory where
  written := (s.bitmapLabel l).elim p.written (recordWritten s.bitmapStorage h.bitmap p.written)
  polling :=
    if l = .bitmapStorage .handleReadOnlyReq then
      (s.bitmapStorage.readOnlyReqPipeInQueue.head?.map p.written).getD p.polling
    else p.polling

/-! ## The windows in memory -/

/-- The windows in memory of the rows that are initialized. -/
structure MemoryInv (b : BitmapWindowStorage) (written : BitVec 10 → List ℤ) : Prop where
  window : ∀ row, b.bramInitedReg = true ∨ row < b.bramInitPtrReg →
    WindowOf (highest (written row) / 16) (receivedSet (written row)) (b.storage row)
  fresh : b.bramInitedReg = false → ∀ row, written row = []

theorem memoryInv_init {b : BitmapWindowStorage} (hb : b.Initial) : MemoryInv b fun _ => [] := by
  rw [hb]
  refine ⟨fun row hrow => ?_, fun _ _ => rfl⟩
  rcases hrow with h | h
  · cases h
  · exact absurd h (Nat.not_lt_zero _)

/-- **Every step of the bitmap storage keeps the windows in memory.** -/
theorem MemoryInv.step {b b' : BitmapWindowStorage} {h : BitmapHistory}
    {written : BitVec 10 → List ℤ} {l : BitmapLabel} (hm : MemoryInv b written)
    (hi : WindowsInv b h) (hs : b.step l = some b') :
    MemoryInv b' (recordWritten b h written l) := by
  cases fires_of_step hs with
  | bramInit hn =>
    refine ⟨fun row hrow => ?_, fun _ => hm.fresh hn⟩
    rcases Word.eq_or_lt_of_lt_add_one (hrow.imp_left beq_iff_eq.1) with rfl | hlt
    · change WindowOf (highest (written _) / 16) (receivedSet (written _))
        (update b.storage b.bramInitPtrReg _ _)
      rw [hm.fresh hn, update_self]
      exact windowOf_nil
    · have hne : row ≠ b.bramInitPtrReg := fun heq => by
        rw [heq] at hlt
        exact BitVec.lt_irrefl _ hlt
      change WindowOf _ _ (update b.storage b.bramInitPtrReg _ _)
      rw [update_of_ne hne]
      exact hm.window row (Or.inr hlt)
  | @doBramWriteBack e es hinit _ he =>
    -- the window written back is that of the numbers merged
    refine ⟨fun row hrow => ?_, fun hn => absurd (hinit.symm.trans hn) (by decide)⟩
    dsimp only [recordWritten]
    rw [he]
    dsimp only
    by_cases heq : row = e.rowAddr
    · subst heq
      rw [update_self, update_self]
      have hwindow := hi.window e.rowAddr (Or.inl hinit)
      rwa [stored, he, find?_cons_of_pos (by simp)] at hwindow
    · rw [update_of_ne heq, update_of_ne heq]
      exact hm.window row (Or.inl hinit)
  | update | reset | readOnly | queryReset | queryUpdate | mergeReset | mergeUpdate
      | handleReadOnlyReq
  | handleReadOnlyResp | takeResp | takeReadOnlyResp => exact ⟨hm.window, hm.fresh⟩

section

variable {s s' : AutoAckGenerator} {h : AutoAckHistory} {p : PollHistory} {l : AutoAckLabel}

theorem MemoryInv.autoAck (hm : MemoryInv s.bitmapStorage p.written)
    (hi : WindowsInv s.bitmapStorage h.bitmap) (hs : s.step l = some s') :
    MemoryInv s'.bitmapStorage (p.record s h l).written := by
  have hstep := AutoAckGenerator.bitmapStorage_step hs
  rw [PollHistory.record]
  cases hl : s.bitmapLabel l with
  | none =>
    rw [hl] at hstep
    rw [hstep]
    exact hm
  | some bl =>
    rw [hl] at hstep
    exact hm.step hi hstep

theorem AutoAckHistory.updates_prefix (h : AutoAckHistory) (s : AutoAckGenerator)
    (l : AutoAckLabel) : h.updates <+: (h.record s l).updates := by
  unfold record
  split
  · exact prefix_append _ _
  all_goals exact prefix_rfl

theorem RowInv.handled_mono {row : BitVec 10} {entered entered' : List (BitVec 24)}
    (hi : RowInv row s h entered) (hi' : RowInv row s' (h.record s l) entered') :
    h.bitmap.handled row <+: (h.record s l).bitmap.handled row := by
  rw [hi.handled, hi'.handled]
  exact ((h.updates_prefix s l).filter _).map _

theorem RowInv.written_prefix {row : BitVec 10} {entered entered' : List (BitVec 24)}
    (hi : RowInv row s h entered) (hi' : RowInv row s' (h.record s l) entered')
    (hw : p.written row <+: countPsns (h.bitmap.handled row)) :
    (p.record s h l).written row <+: countPsns ((h.record s l).bitmap.handled row) := by
  refine List.IsPrefix.trans ?_ (countPsns_isPrefix (hi.handled_mono hi'))
  rw [PollHistory.record]
  cases hl : s.bitmapLabel l with
  | none => exact hw
  | some bl =>
    dsimp only [Option.elim_some]
    unfold recordWritten
    split
    · cases s.bitmapStorage.stageTwoToThreePipelineQueue with
      | nil => exact hw
      | cons e es =>
        dsimp only
        by_cases hrow : row = e.rowAddr
        · rw [← hrow, update_self]
        · rwa [update_of_ne hrow]
    · exact hw

end

/-! ## The reads of the polling -/

namespace AutoAckGenerator

/-- The windows read and not reported yet, with their rows. -/
def reads (s : AutoAckGenerator) : List (BitVec 10 × BitmapWindowStorageEntry) :=
  (s.bitmapStorage.readOnlyRespPipelineQueue ++ s.bitmapStorage.readOnlyRespPipeOutQueue).map
      (fun e => (s.pollingQpIdxReg, e)) ++
    if s.backgroundPollingStateReg = .handleResp then
      [(s.pollingQueryRespPipelineReg.2.2.2, s.pollingQueryRespPipelineReg.1)]
    else []

/-- The number of reads the bitmap storage is busy with. -/
def readCount (s : AutoAckGenerator) : ℕ :=
  s.bitmapStorage.readOnlyReqPipeInQueue.length + s.bitmapStorage.readOnlyRespPipelineQueue.length +
    s.bitmapStorage.readOnlyRespPipeOutQueue.length

end AutoAckGenerator

/-- At most one window is being read. It is that of the numbers in `polling`, of which `P` holds if
it is the window of the row. -/
structure ReadsInv (row : BitVec 10) (P : List ℤ → Prop) (s : AutoAckGenerator) (polling : List ℤ) :
    Prop where
  count : s.readCount = if s.backgroundPollingStateReg = .getReadResp then 1 else 0
  rows : ∀ row' ∈ s.bitmapStorage.readOnlyReqPipeInQueue, row' = s.pollingQpIdxReg
  reads : ∀ x ∈ s.reads, WindowOf (highest polling / 16) (receivedSet polling) x.2 ∧
    (x.1 = row → P polling)

theorem readsInv_init {s : AutoAckGenerator} (hs : s.Initial) (row : BitVec 10) (P : List ℤ → Prop)
    (polling : List ℤ) : ReadsInv row P s polling := by
  obtain ⟨hbitmap, -, hs⟩ := hs
  have hnil : s.bitmapStorage.readOnlyReqPipeInQueue = [] ∧
      s.bitmapStorage.readOnlyRespPipelineQueue = [] ∧
      s.bitmapStorage.readOnlyRespPipeOutQueue = [] := by
    rw [hbitmap]
    exact ⟨rfl, rfl, rfl⟩
  have hstate : s.backgroundPollingStateReg = .sendReadReq := by rw [hs]
  obtain ⟨h₁, h₂, h₃⟩ := hnil
  refine ⟨?_, fun row' hrow => ?_, fun x hx => ?_⟩
  · rw [AutoAckGenerator.readCount, h₁, h₂, h₃, hstate]
    rfl
  · rw [h₁] at hrow
    cases hrow
  · rw [AutoAckGenerator.reads, h₂, h₃, hstate] at hx
    cases hx

namespace ReadsInv

variable {s s' : AutoAckGenerator} {h : AutoAckHistory} {p : PollHistory} {l : AutoAckLabel}
  {row : BitVec 10} {P P' : List ℤ → Prop} {polling : List ℤ}

theorem congr (s' : AutoAckGenerator) (hr : ReadsInv row P s polling) (hP : P polling → P' polling)
    (h₁ : s'.bitmapStorage.readOnlyReqPipeInQueue = s.bitmapStorage.readOnlyReqPipeInQueue)
    (h₂ : s'.bitmapStorage.readOnlyRespPipelineQueue = s.bitmapStorage.readOnlyRespPipelineQueue)
    (h₃ : s'.bitmapStorage.readOnlyRespPipeOutQueue = s.bitmapStorage.readOnlyRespPipeOutQueue)
    (hidx : s'.pollingQpIdxReg = s.pollingQpIdxReg)
    (hstate : s'.backgroundPollingStateReg = s.backgroundPollingStateReg)
    (hreg : s'.pollingQueryRespPipelineReg = s.pollingQueryRespPipelineReg) :
    ReadsInv row P' s' polling := by
  refine ⟨?_, ?_, ?_⟩
  · rw [AutoAckGenerator.readCount, h₁, h₂, h₃, hstate]
    exact hr.count
  · rw [h₁, hidx]
    exact hr.rows
  · rw [AutoAckGenerator.reads, h₂, h₃, hidx, hstate, hreg]
    exact fun x hx => (hr.reads x hx).imp_right fun hx hrow => hP (hx hrow)

theorem serve (hr : ReadsInv row P s p.polling) (hm : MemoryInv s.bitmapStorage p.written)
    (hs : s.step (.bitmapStorage .handleReadOnlyReq) = some s')
    (hread : s.bitmapStorage.readOnlyReqPipeInQueue.head? = some row → P' (p.written row)) :
    ReadsInv row P' s' (p.record s h (.bitmapStorage .handleReadOnlyReq)).polling := by
  obtain ⟨-, b, hb, rfl⟩ := AutoAckGenerator.bitmapStorage_eq hs
  cases fires_of_step hb with
  | @handleReadOnlyReq row' rows hinit hrows =>
    have hcount := hr.count
    rw [AutoAckGenerator.readCount, hrows, length_cons] at hcount
    have hstate : s.backgroundPollingStateReg = .getReadResp := by
      by_contra hne
      rw [if_neg hne] at hcount
      omega
    rw [if_pos hstate] at hcount
    have h₁ : rows = [] := length_eq_zero_iff.1 (by omega)
    have h₂ : s.bitmapStorage.readOnlyRespPipelineQueue = [] := length_eq_zero_iff.1 (by omega)
    have h₃ : s.bitmapStorage.readOnlyRespPipeOutQueue = [] := length_eq_zero_iff.1 (by omega)
    have hrow' : row' = s.pollingQpIdxReg := hr.rows row' (hrows ▸ mem_cons_self)
    have hpolling : (p.record s h (.bitmapStorage .handleReadOnlyReq)).polling =
      p.written row' := by
      rw [PollHistory.record, if_pos rfl, hrows]
      rfl
    rw [hpolling]
    refine ⟨?_, fun row'' hmem => ?_, fun x hx => ?_⟩
    · simp only [AutoAckGenerator.readCount, h₁, h₂, h₃, hstate]
      rfl
    · rw [h₁] at hmem
      cases hmem
    · simp only [AutoAckGenerator.reads, h₂, h₃, hstate] at hx
      obtain rfl := mem_singleton.1 hx
      refine ⟨hm.window row' (Or.inl hinit), fun heq => ?_⟩
      have hrow : row' = row := hrow'.trans heq
      rw [hrow] at hrows ⊢
      exact hread (by rw [hrows]; rfl)

/-- **Every step keeps at most one window being read**, that of the numbers in memory when the read
was served. -/
theorem step (hr : ReadsInv row P s p.polling) (hP : ∀ xs, P xs → P' xs)
    (hm : MemoryInv s.bitmapStorage p.written) (hs : s.step l = some s')
    (hread : l = .bitmapStorage .handleReadOnlyReq →
      s.bitmapStorage.readOnlyReqPipeInQueue.head? = some row → P' (p.written row)) :
    ReadsInv row P' s' (p.record s h l).polling := by
  by_cases hserve : l = .bitmapStorage .handleReadOnlyReq
  · subst hserve
    exact hr.serve hm hs (hread rfl)
  have hcongr := hr.congr s' (hP p.polling)
  cases AutoAckGenerator.fires_of_step hs with
  | bitmapStorage hl hb =>
    cases fires_of_step hb with
    | update | reset | readOnly | takeResp | takeReadOnlyResp => cases hl
    | bramInit | queryReset | queryUpdate | mergeReset | mergeUpdate | doBramWriteBack =>
      exact hcongr rfl rfl rfl rfl rfl rfl
    | handleReadOnlyReq => exact absurd rfl hserve
    | handleReadOnlyResp he =>
      -- the window moves from one queue to the next
      have hcount := hr.count
      rw [AutoAckGenerator.readCount, he, length_cons] at hcount
      refine ⟨?_, hr.rows, fun x hx => ?_⟩
      · simp only [AutoAckGenerator.readCount, length_append, length_singleton]
        omega
      · refine (hr.reads x ?_).imp_right fun hx hrow => hP _ (hx hrow)
        rw [AutoAckGenerator.reads, he]
        simp only [AutoAckGenerator.reads, mem_append, mem_map, mem_cons, not_mem_nil,
          or_false] at hx ⊢
        rcases hx with ⟨e', he', hx⟩ | hx
        · exact Or.inl ⟨e', by tauto, hx⟩
        · exact Or.inr hx
  | sendPollingReq _ hstate =>
    have hcount := hr.count
    rw [hstate, if_neg (by decide)] at hcount
    have h₁ : s.bitmapStorage.readOnlyReqPipeInQueue = [] :=
      length_eq_zero_iff.1 (by rw [AutoAckGenerator.readCount] at hcount; omega)
    refine ⟨?_, fun row' hmem => ?_, fun x hx => ?_⟩
    · rw [AutoAckGenerator.readCount] at hcount ⊢
      simp only [length_append, length_singleton, if_true]
      omega
    · simpa [h₁] using hmem
    · refine (hr.reads x ?_).imp_right fun hx hrow => hP _ (hx hrow)
      rw [AutoAckGenerator.reads, if_neg (by rw [hstate]; decide)]
      exact hx
  | @getPollingResp e es _ _ _ _ _ hstate he =>
    have hcount := hr.count
    rw [hstate, if_pos rfl, AutoAckGenerator.readCount, he, length_cons] at hcount
    have h₁ : s.bitmapStorage.readOnlyReqPipeInQueue = [] := length_eq_zero_iff.1 (by omega)
    have h₂ : s.bitmapStorage.readOnlyRespPipelineQueue = [] := length_eq_zero_iff.1 (by omega)
    have h₃ : es = [] := length_eq_zero_iff.1 (by omega)
    refine ⟨?_, fun row' hmem => ?_, fun x hx => ?_⟩
    · simp only [AutoAckGenerator.readCount, h₁, h₂, h₃]
      rfl
    · rw [h₁] at hmem
      cases hmem
    · simp only [AutoAckGenerator.reads, h₂, h₃] at hx
      obtain rfl := mem_singleton.1 hx
      refine (hr.reads (s.pollingQpIdxReg, e) ?_).imp_right fun hx hrow => hP _ (hx hrow)
      rw [AutoAckGenerator.reads, he, h₂]
      exact mem_append_left _ mem_cons_self
  | handlePollingResult _ hstate =>
    have hcount := hr.count
    rw [hstate, if_neg (by decide)] at hcount
    refine ⟨hcount, hr.rows, fun x hx => ?_⟩
    refine (hr.reads x ?_).imp_right fun hx hrow => hP _ (hx hrow)
    refine mem_append_left _ ?_
    simpa [AutoAckGenerator.reads] using hx
  | _ => exact hcongr rfl rfl rfl rfl rfl rfl

end ReadsInv

end OpenRdma.Rtl
