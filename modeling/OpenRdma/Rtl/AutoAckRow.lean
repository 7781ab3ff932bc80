import OpenRdma.Rtl.AutoAckLosses

/-!
# One queue pair

What the generator does for one queue pair whose resets come before its first packet. The numbers
merged into its window are those that entered, in order. Every number behind the window that did not
arrive was passed by an update that is reported as a loss, and these updates move the window one
after the other (`RowInv`). So if the window is known to have started with `m` and every loss before
is known, the numbers from `m` on arrived (`RowInv.mem_of_known`).
-/

namespace OpenRdma.Rtl

open List Function AutoAckHistory AutoAckGenerator

/-! ## Prefixes -/

theorem highest_mono {xs ys : List ℤ} (h : xs <+: ys) : highest xs ≤ highest ys := by
  obtain ⟨zs, rfl⟩ := h
  induction zs using reverseRecOn with
  | nil => rw [append_nil]
  | append_singleton zs a ih =>
    rw [← append_assoc, highest_concat]
    exact ih.trans (le_max_left _ _)

theorem lowEnd_mono {xs ys : List ℤ} (h : xs <+: ys) : lowEnd xs ≤ lowEnd ys := by
  have := highest_mono h
  unfold lowEnd
  omega

theorem receivedSet_mono {xs ys : List ℤ} (h : xs <+: ys) : receivedSet xs ⊆ receivedSet ys :=
  fun _ hp => hp.imp_right fun hp => h.subset hp

theorem countPsns_isPrefix {psns psns' : List (BitVec 24)} (h : psns <+: psns') :
    countPsns psns <+: countPsns psns' := by
  obtain ⟨more, rfl⟩ := h
  induction more using reverseRecOn with
  | nil => rw [append_nil]
  | append_singleton more psn ih =>
    rw [← append_assoc, countPsns_concat]
    exact ih.trans (prefix_append _ _)

theorem highest_mem (received : List ℤ) : highest received ∈ receivedSet received := by
  induction received using reverseRecOn with
  | nil => exact Or.inl (by decide)
  | append_singleton received a ih =>
    rw [highest_concat, receivedSet_concat]
    rcases le_total (highest received) a with hle | hle
    · rw [max_eq_right hle]
      exact Or.inl rfl
    · rw [max_eq_left hle]
      exact Or.inr ih

theorem le_highest {received : List ℤ} {a : ℤ} (h : a ∈ receivedSet received) :
    a ≤ highest received := by
  induction received using reverseRecOn with
  | nil =>
    rcases h with h | h
    · exact Int.le_sub_one_of_lt h
    · cases h
  | append_singleton received b ih =>
    rw [receivedSet_concat] at h
    rw [highest_concat]
    rcases h with rfl | h
    · exact le_max_right _ _
    · exact (ih h).trans (le_max_left _ _)

/-! ## Resets -/

/-- A reset of the row is on its way. -/
def AutoAckGenerator.Resetting (s : AutoAckGenerator) (row : BitVec 10) : Prop :=
  row ∈ s.resetReqPipeInQueue ∨ row ∈ s.bitmapStorage.resetReqPipeInQ ∨
    (∃ e ∈ s.bitmapStorage.stageOneToTwoPipelineQueue, e.isReset = true ∧ e.rowAddr = row) ∨
    row ∈ s.autoAckMetaAtomicUpdateStorage.pendingResets

instance (s : AutoAckGenerator) (row : BitVec 10) : Decidable (s.Resetting row) :=
  inferInstanceAs (Decidable (_ ∨ _ ∨ (∃ e ∈ _, _) ∨ _))

/-- The sequence numbers of the packets of the row that entered since its last reset. -/
def recordEntered (row : BitVec 10) (entered : List (BitVec 24)) : AutoAckLabel → List (BitVec 24)
  | .request req => if getIndexQP req.qpn = row then entered ++ [req.psn] else entered
  | .resetRequest row' => if row' = row then [] else entered
  | _ => entered

/-- The steps of a run in which the row is reset before its first packet only, and the packet enters
when the reset is done. -/
def ResetFirst (row : BitVec 10) (s : AutoAckGenerator) (entered : List (BitVec 24)) :
    AutoAckLabel → Prop
  | .request req => getIndexQP req.qpn = row → ¬ s.Resetting row
  | .resetRequest row' => row' = row → entered = []
  | _ => True

instance (row : BitVec 10) (s : AutoAckGenerator) (entered : List (BitVec 24)) (l : AutoAckLabel) :
    Decidable (ResetFirst row s entered l) := by
  unfold ResetFirst
  split <;> infer_instance

section

variable {s s' : AutoAckGenerator} {h : AutoAckHistory} {row : BitVec 10} {l : AutoAckLabel}

theorem resetting_of_bitmap_rule {b : BitmapWindowStorage} {l : BitmapLabel} (hl : l.isRule)
    (hs : s.bitmapStorage.step l = some b)
    (hr : { s with bitmapStorage := b }.Resetting row) : s.Resetting row := by
  cases BitmapWindowStorage.fires_of_step hs with
  | update | reset | readOnly | takeResp | takeReadOnlyResp => cases hl
  | bramInit | doBramWriteBack | handleReadOnlyReq | handleReadOnlyResp => exact hr
  | queryReset _ _ hrows =>
    rcases hr with hr | hr | ⟨e, he, hr⟩ | hr
    · exact Or.inl hr
    · exact Or.inr (Or.inl (hrows ▸ mem_cons_of_mem _ hr))
    · rcases mem_append.1 he with he | he
      · exact Or.inr (Or.inr (Or.inl ⟨e, he, hr⟩))
      · obtain rfl := mem_singleton.1 he
        exact Or.inr (Or.inl (hrows ▸ hr.2 ▸ mem_cons_self))
    · exact Or.inr (Or.inr (Or.inr hr))
  | queryUpdate =>
    rcases hr with hr | hr | ⟨e, he, hr⟩ | hr
    · exact Or.inl hr
    · exact Or.inr (Or.inl hr)
    · rcases mem_append.1 he with he | he
      · exact Or.inr (Or.inr (Or.inl ⟨e, he, hr⟩))
      · obtain rfl := mem_singleton.1 he
        cases hr.1
    · exact Or.inr (Or.inr (Or.inr hr))
  | mergeReset _ he | mergeUpdate _ he =>
    rcases hr with hr | hr | ⟨e', he', hr⟩ | hr
    · exact Or.inl hr
    · exact Or.inr (Or.inl hr)
    · exact Or.inr (Or.inr (Or.inl ⟨e', he ▸ mem_cons_of_mem _ he', hr⟩))
    · exact Or.inr (Or.inr (Or.inr hr))

theorem resetting_of_step (hi : AutoAckInv s h) (hl : l ≠ .resetRequest row)
    (hs : s.step l = some s') (hr : s'.Resetting row) : s.Resetting row := by
  cases fires_of_step hs with
  | resetRequest row' =>
    rcases hr with hr | hr
    · refine Or.inl ((mem_append.1 hr).resolve_right fun hmem => hl ?_)
      rw [mem_singleton.1 hmem]
    · exact Or.inr hr
  | bitmapStorage hrule hb => exact resetting_of_bitmap_rule hrule hb hr
  | autoAckMeta hm =>
    obtain ⟨-, -, hsub⟩ := hi.values.rule hm
    exact hr.imp_right (Or.imp_right (Or.imp_right fun hmem => hsub hmem))
  | @forwardQpResetSignal row' rows hrows =>
    have hhead : ∀ {row''}, row'' ∈ [row'] → row'' ∈ s.resetReqPipeInQueue := fun hmem =>
      hrows ▸ mem_singleton.1 hmem ▸ mem_cons_self
    rcases hr with hr | hr | hr | hr
    · exact Or.inl (hrows ▸ mem_cons_of_mem _ hr)
    · rcases mem_append.1 hr with hr | hr
      · exact Or.inr (Or.inl hr)
      · exact Or.inl (hhead hr)
    · exact Or.inr (Or.inr (Or.inl hr))
    · rw [AtomicUpdateStorage.pendingResets, AtomicUpdateStorage.enqReset, ← append_assoc] at hr
      rcases mem_append.1 hr with hr | hr
      · exact Or.inr (Or.inr (Or.inr hr))
      · exact Or.inl (hhead hr)
  | _ => exact hr

end

/-! ## The packets that entered -/

def AutoAckLabel.requests : AutoAckLabel → List AutoAckGeneratorReq
  | .request req => [req]
  | _ => []

theorem record_requests {s s' : AutoAckGenerator} {l : AutoAckLabel} (h : AutoAckHistory)
    (hs : s.step l = some s') :
    (h.record s l).forwarded ++ s'.reqPipeInQueue = h.forwarded ++ s.reqPipeInQueue ++
    l.requests := by
  cases fires_of_step hs with
  | request => exact (append_assoc _ _ _).symm
  | forwardInputReq hreqs => simp [record, AutoAckLabel.requests, hreqs]
  | @bitmapStorage l => cases l <;> exact (append_nil _).symm
  | _ => exact (append_nil _).symm

/-! ## The updates of a row -/

namespace AutoAckHistory

def updatesOf (h : AutoAckHistory) (row : BitVec 10) : List Update :=
  h.updates.filter fun u => u.rowAddr = row

/-- The updates of the row that are reported. -/
def lostOf (h : AutoAckHistory) (row : BitVec 10) : List Update := (h.updatesOf row).filter (·.lost)

end AutoAckHistory

/-- The numbers merged are those that entered, in order, and the updates of the row account for
every number behind its window. -/
structure RowInv (row : BitVec 10) (s : AutoAckGenerator) (h : AutoAckHistory)
    (entered : List (BitVec 24)) : Prop where
  arrived : entered =
    ((h.forwarded ++ s.reqPipeInQueue).filter fun req => getIndexQP req.qpn = row).map (·.psn)
  handled : h.bitmap.handled row = (h.updatesOf row).map (·.req.psn)
  resets : entered ≠ [] → ¬ s.Resetting row
  received : ∀ u ∈ h.updatesOf row, u.received ++ [u.number] <+: countPsns (h.bitmap.handled row)
  ordered : (h.lostOf row).Pairwise fun u v => u.low' ≤ v.low
  covered : ∀ p < lowEnd (countPsns (h.bitmap.handled row)),
    p ∉ receivedSet (countPsns (h.bitmap.handled row)) → ∃ u ∈ h.lostOf row, u.low ≤ p ∧ p < u.low'

namespace RowInv

variable {s s' : AutoAckGenerator} {h h' : AutoAckHistory} {row : BitVec 10}
  {entered : List (BitVec 24)} {l : AutoAckLabel}

theorem handled_prefix (hi : RowInv row s h entered) (ha : AutoAckInv s h) :
    h.bitmap.handled row <+: entered := by
  have hupdates : (h.updatesOf row).map (·.req.psn) =
      ((h.forwarded.take h.updates.length).filter fun req => getIndexQP req.qpn = row).map
        (·.psn) := by
    have hreqs := ha.updates
    rw [ha.requests, ← map_take] at hreqs
    have hfilter := congrArg (fun reqs : List BitmapWindowStorageUpdateReq =>
      (reqs.filter fun req => getIndexQP req.qpn = row).map (·.psn)) hreqs
    simp only [filter_map, map_map] at hfilter
    exact hfilter
  rw [hi.handled, hi.arrived, hupdates, filter_append]
  exact (((List.take_prefix _ _).filter _).trans (prefix_append _ _)).map _

theorem low'_le (hi : RowInv row s h entered) {u : Update} (hu : u ∈ h.updatesOf row) :
    u.low' ≤ lowEnd (countPsns (h.bitmap.handled row)) := lowEnd_mono (hi.received u hu)

theorem mem_updatesOf {u : Update} (hu : u ∈ h.lostOf row) : u ∈ h.updatesOf row :=
  (mem_filter.1 hu).1

variable (hi : RowInv row s h entered)
include hi

theorem congr (hupdates : h'.updatesOf row = h.updatesOf row)
    (hhandled : h'.bitmap.handled row = h.bitmap.handled row)
    (hforwarded : h'.forwarded ++ s'.reqPipeInQueue = h.forwarded ++ s.reqPipeInQueue)
    (hresets : s'.Resetting row → s.Resetting row) : RowInv row s' h' entered := by
  have hlost : h'.lostOf row = h.lostOf row := congrArg (filter _) hupdates
  refine ⟨?_, ?_, fun hne hr => hi.resets hne (hresets hr), ?_, ?_, ?_⟩
  · rw [hforwarded]
    exact hi.arrived
  · rw [hhandled, hupdates]
    exact hi.handled
  · rw [hhandled, hupdates]
    exact hi.received
  · rw [hlost]
    exact hi.ordered
  · rw [hhandled, hlost]
    exact hi.covered

theorem merge {u : Update} (hrow : u.rowAddr = row) (hf : u.Faithful)
    (hreceived : u.received = countPsns (h.bitmap.handled row)) (hupdates : h'.updates =
      h.updates ++ [u])
    (hhandled : h'.bitmap.handled row = h.bitmap.handled row ++ [u.req.psn])
    (hforwarded : h'.forwarded ++ s'.reqPipeInQueue = h.forwarded ++ s.reqPipeInQueue)
    (hresets : s'.Resetting row → s.Resetting row) : RowInv row s' h' entered := by
  have hof : h'.updatesOf row = h.updatesOf row ++ [u] := by
    rw [updatesOf, hupdates, filter_append, filter_cons_of_pos (by simpa using hrow)]
    rfl
  have hcount : countPsns (h'.bitmap.handled row) = u.received ++ [u.number] := by
    rw [hhandled, countPsns_concat, ← hreceived]
    rfl
  have hprefix : countPsns (h.bitmap.handled row) <+: countPsns (h'.bitmap.handled row) := by
    rw [hcount, hreceived]
    exact prefix_append _ _
  have hlow : u.low = lowEnd (countPsns (h.bitmap.handled row)) := congrArg lowEnd hreceived
  have hlow' : u.low' = lowEnd (countPsns (h'.bitmap.handled row)) := congrArg lowEnd hcount.symm
  have hlost : h'.lostOf row = h.lostOf row ++ if u.lost then [u] else [] := by
    rw [lostOf, hof, filter_append]
    cases hl : u.lost with
    | true => rw [filter_cons_of_pos hl]; rfl
    | false => rw [filter_cons_of_neg (by simp [hl])]; rfl
  refine ⟨?_, ?_, fun hne hr => hi.resets hne (hresets hr), ?_, ?_, ?_⟩
  · rw [hforwarded]
    exact hi.arrived
  · rw [hhandled, hof, map_append, hi.handled]
    rfl
  · intro v hv
    rw [hof] at hv
    rcases mem_append.1 hv with hv | hv
    · exact (hi.received v hv).trans hprefix
    · rw [mem_singleton.1 hv, hcount]
  · rw [hlost]
    split_ifs with hl
    · refine pairwise_append.2 ⟨hi.ordered, pairwise_singleton _ _, fun v hv w hw => ?_⟩
      rw [mem_singleton.1 hw, hlow]
      exact hi.low'_le (mem_updatesOf hv)
    · rw [append_nil]
      exact hi.ordered
  · intro p hp hmem
    have hold : p ∉ receivedSet (countPsns (h.bitmap.handled row)) := fun hp =>
      hmem (receivedSet_mono hprefix hp)
    rw [hlost]
    by_cases hlt : p < lowEnd (countPsns (h.bitmap.handled row))
    · obtain ⟨v, hv, hbounds⟩ := hi.covered p hlt hold
      exact ⟨v, mem_append_left _ hv, hbounds⟩
    · -- the update passes the number, so it is reported
      have hl : u.lost = true := by
        by_contra hn
        refine hold (hreceived ▸ hf.mem_of_not_lost (Bool.not_eq_true _ ▸ hn) (p := p) ?_ ?_)
        · rw [hlow]
          exact not_lt.1 hlt
        · rw [hlow']
          exact hp
      refine ⟨u, mem_append_right _ ?_, hlow ▸ not_lt.1 hlt, hlow' ▸ hp⟩
      rw [if_pos hl]
      exact mem_singleton_self u

theorem bitmapRule {l : BitmapLabel} (ha : AutoAckInv s h)
    (hs : s.step (.bitmapStorage l) = some s') :
    RowInv row s' (h.record s (.bitmapStorage l)) entered := by
  have hresets : s'.Resetting row → s.Resetting row := resetting_of_step ha (by simp) hs
  obtain ⟨hl, b, hb, rfl⟩ := bitmapStorage_eq hs
  by_cases hmerge : l = .getBramQueryRespAndMergeThem
  · subst hmerge
    rcases ha.windows.merge_cases hb with ⟨hnone, -, -, e, he, hr, hhandled⟩ |
      ⟨u, hu, hf, -, hreceived, -, -, hhandled⟩
    · -- a reset: if it is one of this row, nothing has entered
      have hupdates : (h.record s (.bitmapStorage .getBramQueryRespAndMergeThem)).updates =
          h.updates := by
        simp only [record, hnone, Option.toList_none, append_nil]
      refine hi.congr (congrArg (filter _) hupdates) ?_ rfl hresets
      change (h.bitmap.record s.bitmapStorage .getBramQueryRespAndMergeThem).handled row = _
      rw [hhandled]
      by_cases hrow : row = e.rowAddr
      · have hnil : entered = [] := by
          by_contra hne
          exact hi.resets hne (Or.inr (Or.inr (Or.inl ⟨e, he, hr, hrow.symm⟩)))
        have hprefix := hi.handled_prefix ha
        rw [hnil, prefix_nil] at hprefix
        rw [← hrow, update_self, hprefix]
      · rw [update_of_ne hrow]
    · have hupdates : (h.record s (.bitmapStorage .getBramQueryRespAndMergeThem)).updates =
          h.updates ++ [u] := by
        simp only [record, hu, Option.toList_some]
      by_cases hrow : u.rowAddr = row
      · refine hi.merge hrow hf (hrow ▸ hreceived) hupdates ?_ rfl hresets
        change (h.bitmap.record s.bitmapStorage .getBramQueryRespAndMergeThem).handled row = _
        rw [hhandled, hrow, update_self]
      · refine hi.congr ?_ ?_ rfl hresets
        · rw [updatesOf, hupdates, filter_append,
            filter_cons_of_neg (by simpa using hrow), filter_nil, append_nil]
          rfl
        · change (h.bitmap.record s.bitmapStorage .getBramQueryRespAndMergeThem).handled row = _
          rw [hhandled, update_of_ne (Ne.symm hrow)]
  · obtain ⟨-, -, hhandled⟩ := bitmap_rule_quiet hl hmerge hb h.bitmap
    have hrecord : h.record s (.bitmapStorage l) =
        { h with bitmap := h.bitmap.record s.bitmapStorage l } := by
      cases l <;> first | rfl | exact absurd rfl hmerge
    rw [hrecord]
    exact hi.congr rfl (congrFun hhandled row) rfl hresets

/-- **Every step keeps the account of the row**, if its resets come first. -/
theorem step (ha : AutoAckInv s h) (hok : ResetFirst row s entered l)
    (hs : s.step l = some s') : RowInv row s' (h.record s l) (recordEntered row entered l) := by
  have hresets : l ≠ .resetRequest row → s'.Resetting row → s.Resetting row := fun hl =>
    resetting_of_step ha hl hs
  cases fires_of_step hs with
  | request req =>
    by_cases hrow : getIndexQP req.qpn = row
    · refine ⟨?_, hi.handled, fun _ => hok hrow, hi.received, hi.ordered, hi.covered⟩
      rw [recordEntered, if_pos hrow, hi.arrived]
      rw [← append_assoc, filter_append _ [req], filter_cons_of_pos (by simpa using hrow),
        map_append]
      rfl
    · refine ⟨?_, hi.handled, ?_, hi.received, hi.ordered, hi.covered⟩
      · rw [recordEntered, if_neg hrow, hi.arrived]
        change _ = ((h.forwarded ++ (s.reqPipeInQueue ++ [req])).filter _).map _
        rw [← append_assoc, filter_append _ [req],
          filter_cons_of_neg (by simpa using hrow), filter_nil, append_nil]
      · rw [recordEntered, if_neg hrow]
        exact hi.resets
  | resetRequest row' =>
    by_cases hrow : row' = row
    · have hnil := hok hrow
      refine ⟨?_, hi.handled, ?_, hi.received, hi.ordered, hi.covered⟩
      · rw [recordEntered, if_pos hrow, ← hnil]
        exact hi.arrived
      · rw [recordEntered, if_pos hrow]
        exact fun hne => absurd rfl hne
    · rw [recordEntered, if_neg hrow]
      exact hi.congr rfl rfl rfl (hresets (by simpa using hrow))
  | bitmapStorage => exact hi.bitmapRule ha hs
  | forwardInputReq hreqs =>
    refine hi.congr rfl ?_ ?_ (hresets (by simp))
    · simp only [record, bitmapLabel, hreqs]
      rfl
    · simp only [record, hreqs]
      rw [append_assoc]
      rfl
  | forwardQpResetSignal hrows =>
    refine hi.congr rfl ?_ rfl (hresets (by simp))
    simp only [record, bitmapLabel, hrows]
    rfl
  | _ => exact hi.congr rfl rfl rfl (hresets (by simp))

/-- **The numbers from `m` to `e` arrived**, if every reported loss ends before `m` or starts after
`e`. -/
theorem mem_of_known {m e p : ℤ} (hknown : ∀ u ∈ h.lostOf row, u.low' ≤ m ∨ e ≤ u.low)
    (he : e ≤ lowEnd (countPsns (h.bitmap.handled row))) (hm : m ≤ p) (hp : p < e) :
    p ∈ receivedSet (countPsns (h.bitmap.handled row)) := by
  by_contra hmem
  obtain ⟨u, hu, h₁, h₂⟩ := hi.covered p (hp.trans_le he) hmem
  rcases hknown u hu with hle | hle
  · omega
  · omega

end RowInv

variable {s : AutoAckGenerator} {entered : List (BitVec 24)}

theorem rowInv_init (hs : s.Initial) (row : BitVec 10) : RowInv row s {} [] := by
  refine ⟨?_, rfl, fun hne => absurd rfl hne, fun u hu => (by cases hu), List.Pairwise.nil,
    fun p hp hmem => absurd (Or.inl ?_) hmem⟩
  · rw [hs.2.2]
    rfl
  · exact hp.trans (show lowEnd [] < 0 by decide)

/-! ## Numbers in reach -/

/-- A packet of the row that enters has a number before `limit`. -/
def EntersBelow (row : BitVec 10) (entered : List (BitVec 24)) (limit : ℤ) : AutoAckLabel → Prop
  | .request req => getIndexQP req.qpn = row → readPsn (readPsns entered) req.psn < limit
  | _ => True

instance (row : BitVec 10) (entered : List (BitVec 24)) (limit : ℤ) (l : AutoAckLabel) :
    Decidable (EntersBelow row entered limit l) := by
  unfold EntersBelow
  split <;> infer_instance

/-- The numbers that entered are before `limit`, and the storage takes each of them for itself. -/
structure EnteredInv (entered : List (BitVec 24)) (limit : ℤ) : Prop where
  counted : countPsns entered = readPsns entered
  below : ∀ a ∈ receivedSet (readPsns entered), a < limit

theorem enteredInv_nil {limit : ℤ} (h : 0 ≤ limit) : EnteredInv [] limit := by
  refine ⟨rfl, fun a ha => ?_⟩
  rcases ha with ha | ha
  · exact ha.trans_le h
  · cases ha

theorem EnteredInv.mono {limit limit' : ℤ} (hi : EnteredInv entered limit) (h : limit ≤ limit') :
    EnteredInv entered limit' :=
  ⟨hi.counted, fun a ha => (hi.below a ha).trans_le h⟩

theorem EnteredInv.step {row : BitVec 10} {limit : ℤ} {l : AutoAckLabel}
    (hi : EnteredInv entered limit) (hlimit : limit ≤ highest (readPsns entered) + 2 ^ 23 - 15)
    (hfirst : ResetFirst row s entered l) (hbelow : EntersBelow row entered limit l) :
    receivedSet (readPsns entered) ⊆ receivedSet (readPsns (recordEntered row entered l)) ∧
      EnteredInv (recordEntered row entered l) limit := by
  have hsame : recordEntered row entered l = entered →
      receivedSet (readPsns entered) ⊆ receivedSet (readPsns (recordEntered row entered l)) ∧
        EnteredInv (recordEntered row entered l) limit := by
    intro heq
    rw [heq]
    exact ⟨subset_rfl, hi⟩
  cases l with
  | request req =>
    by_cases hrow : getIndexQP req.qpn = row
    · have hlt := hbelow hrow
      have hreach : InReach (readPsns entered) req.psn := by
        unfold InReach
        omega
      rw [recordEntered, if_pos hrow]
      refine ⟨?_, ?_, ?_⟩
      · rw [readPsns_concat, receivedSet_concat]
        exact Set.subset_insert _ _
      · rw [readPsns_concat, countPsns_concat, hi.counted, hreach.countPsn_eq]
      · rw [readPsns_concat, receivedSet_concat]
        rintro a (rfl | ha)
        · exact hlt
        · exact hi.below a ha
    · exact hsame (if_neg hrow)
  | resetRequest row' =>
    by_cases hrow : row' = row
    · exact hsame ((if_pos hrow).trans (hfirst hrow).symm)
    · exact hsame (if_neg hrow)
  | bitmapStorage _ | autoAckMeta _ | bramInit | timerTask | forwardInputReqToPsnBitMapStorage
  | handleMergedBitmap | genAutoAckEthPacket | genAutoAckReportDescriptor
  | forwardMetaReportDescToOutput | sendPollingReq | getPollingResp | handlePollingResult
  | forwardQpResetSignal => exact hsame rfl

theorem RowInv.handled_subset {h : AutoAckHistory} {row : BitVec 10} (hi : RowInv row s h entered)
    (ha : AutoAckInv s h) (hcounted : countPsns entered = readPsns entered) :
    receivedSet (countPsns (h.bitmap.handled row)) ⊆ receivedSet (readPsns entered) := by
  have hprefix := countPsns_isPrefix (hi.handled_prefix ha)
  rw [hcounted] at hprefix
  exact receivedSet_mono hprefix

/-! ## Losses on their way -/

/-- The updates whose descriptors were queued. -/
def AutoAckHistory.reportedUpdates (h : AutoAckHistory) : List Update :=
  (h.naks.take h.reported.length).map (·.1)

/-- A loss of the row is merged, and its descriptors are not queued yet. -/
def AutoAckGenerator.LossPending (s : AutoAckGenerator) (row : BitVec 10) : Prop :=
  (∃ r ∈ s.genAutoAckReportDescriptorPipelineQueue, r.2.1.rowAddr = row) ∨
    (∃ e ∈ s.genAutoAckEthPacketPipelineQueue,
      e.bitmapUpdateResp.rowAddr = row ∧ e.bitmapUpdateResp.hasPacketLost = true) ∨
    ∃ resp ∈ s.bitmapStorage.respPipeOutQueue, resp.rowAddr = row ∧ resp.hasPacketLost = true

instance (s : AutoAckGenerator) (row : BitVec 10) : Decidable (s.LossPending row) :=
  inferInstanceAs (Decidable ((∃ r ∈ _, _) ∨ (∃ e ∈ _, _) ∨ ∃ resp ∈ _, _))

section

variable {s s' : AutoAckGenerator} {h : AutoAckHistory} {row : BitVec 10} {l : AutoAckLabel}

theorem AutoAckInv.naks_map (ha : AutoAckInv s h) :
    h.naks.map (·.1) = (h.updates.take h.done).filter (·.lost) := by
  have hlooked : h.looked.map (·.1) = h.updates.take h.done := by
    refine map_fst_zip (le_of_eq ?_)
    rw [length_take_of_le ha.done_le, length_take_of_le ha.done_le_forwarded]
  rw [← hlooked, filter_map]
  rfl

theorem AutoAckInv.lost_eq (ha : AutoAckInv s h) :
    h.updates.filter (·.lost) = h.naks.map (·.1) ++ (h.updates.drop h.done).filter (·.lost) := by
  rw [ha.naks_map, ← filter_append, take_append_drop]

theorem lostOf_eq (h : AutoAckHistory) (row : BitVec 10) :
    h.lostOf row = (h.updates.filter (·.lost)).filter fun u => u.rowAddr = row := by
  rw [lostOf, updatesOf, filter_filter, filter_filter]
  simp only [Bool.and_comm]

theorem NaksInv.reported_le (hn : NaksInv s h) : h.reported.length ≤ h.naks.length := by
  rw [hn.reports.length_eq, length_append]
  exact Nat.le_add_right _ _

theorem NaksInv.next_report (hn : NaksInv s h) {e : BitmapWindowStorageUpdateResp ×
      AtomicUpdateStorageUpdateResp AutoAckGenAtomicUpdateStorageEntry × BitVec 8}
    {es : List (BitmapWindowStorageUpdateResp ×
      AtomicUpdateStorageUpdateResp AutoAckGenAtomicUpdateStorageEntry × BitVec 8)}
    (he : s.genAutoAckReportDescriptorPipelineQueue = e :: es) :
    ∃ x xs, h.naks.drop h.reported.length = x :: xs ∧ IsNakReport x e := by
  have hdrop := forall₂_drop_append _ _ _ hn.reports
  rw [he] at hdrop
  obtain ⟨x, xs, hx, -, hxs⟩ := forall₂_cons_right_iff.1 hdrop
  exact ⟨x, xs, hxs, hx⟩

theorem NaksInv.record_reportedUpdates (hn : NaksInv s h) (ha : AutoAckInv s h)
    (hl : l ≠ .genAutoAckReportDescriptor) (hs : s.step l = some s') :
    (h.record s l).reportedUpdates = h.reportedUpdates := by
  have hreported : (h.record s l).reported = h.reported := by
    unfold record
    split
    · rfl
    · rfl
    · rfl
    · exact absurd rfl hl
    · rfl
  have hnaks : ∃ more, (h.record s l).naks = h.naks ++ more := by
    by_cases hgen : l = .genAutoAckEthPacket
    · subst hgen
      obtain ⟨_, _, e, es, -, he, -⟩ := genAutoAckEthPacket_eq hs
      obtain ⟨u, req, hlooked, -⟩ := ha.record_looked_gen he
      exact ⟨_, (congrArg (filter _) hlooked).trans (filter_append ..)⟩
    · exact ⟨[], (congrArg (filter _) (ha.record_looked hgen)).trans (append_nil _).symm⟩
  obtain ⟨more, hmore⟩ := hnaks
  rw [reportedUpdates, hreported, hmore, take_append_of_le_length hn.reported_le]
  rfl

/-- **If no loss of the row is on its way, all are reported.** -/
theorem NaksInv.mem_reportedUpdates (hn : NaksInv s h) (ha : AutoAckInv s h)
    (hpending : ¬ s.LossPending row) {u : Update} (hu : u ∈ h.lostOf row) :
    u ∈ h.reportedUpdates := by
  rw [lostOf_eq, mem_filter, ha.lost_eq, mem_append, decide_eq_true_eq] at hu
  obtain ⟨hu | hu, hrow⟩ := hu
  · rw [← take_append_drop h.reported.length h.naks, map_append, mem_append] at hu
    refine hu.resolve_right fun hu => hpending (Or.inl ?_)
    -- its descriptors wait to be queued
    obtain ⟨x, hx, rfl⟩ := mem_map.1 hu
    have hdrop := forall₂_drop_append _ _ _ hn.reports
    obtain ⟨i, rfl⟩ := get_of_mem hx
    have hlt : i.1 < s.genAutoAckReportDescriptorPipelineQueue.length := hdrop.length_eq ▸ i.2
    exact ⟨_, get_mem _ ⟨i.1, hlt⟩, (hdrop.get i.2 hlt).2.1.trans hrow⟩
  · -- its answer has not been looked at
    refine absurd ?_ hpending
    obtain ⟨hmem, hlost⟩ := mem_filter.1 hu
    have hresp : u.resp ∈ (h.updates.drop h.done).map (·.resp) := mem_map_of_mem hmem
    rw [ha.merged, mem_append] at hresp
    refine Or.inr (hresp.imp (fun hresp => ?_) fun hresp => ⟨_, hresp, ?_, hlost⟩)
    · obtain ⟨e, he, heq⟩ := mem_map.1 hresp
      exact ⟨e, he, heq ▸ u.resp_rowAddr.trans hrow, heq ▸ hlost⟩
    · exact u.resp_rowAddr.trans hrow

/-- **The numbers before the next loss to be reported arrived**, from where the last report left
off. -/
theorem RowInv.mem_of_next {entered : List (BitVec 24)} (hi : RowInv row s h entered)
    (ha : AutoAckInv s h) {x : Update × AutoAckGeneratorReq}
    {xs : List (Update × AutoAckGeneratorReq)} (hx : h.naks.drop h.reported.length = x :: xs)
    (hrow : x.1.rowAddr = row) {m p : ℤ} (hm : ∀ u ∈ h.reportedUpdates, u.rowAddr = row →
    u.low' ≤ m) (h₁ : m ≤ p) (h₂ : p < x.1.low) :
    p ∈ receivedSet (countPsns (h.bitmap.handled row)) := by
  have hsplit : h.lostOf row = (h.reportedUpdates.filter fun u => u.rowAddr = row) ++ x.1 ::
      (xs.map (·.1) ++ (h.updates.drop h.done).filter (·.lost)).filter fun u =>
      u.rowAddr = row := by
    rw [lostOf_eq, ha.lost_eq]
    nth_rewrite 1 [← take_append_drop h.reported.length h.naks]
    rw [hx, map_append, map_cons, append_assoc, filter_append, cons_append,
      filter_cons_of_pos (by simpa using hrow)]
    rfl
  have hmem : x.1 ∈ h.lostOf row := by
    rw [hsplit]
    exact mem_append_right _ mem_cons_self
  have hordered := hi.ordered
  rw [hsplit, pairwise_append, pairwise_cons] at hordered
  refine hi.mem_of_known (fun u hu => ?_)
    (x.1.low_le_low'.trans (hi.low'_le (mem_updatesOf hmem))) h₁ h₂
  rw [hsplit, mem_append, mem_cons] at hu
  rcases hu with hu | rfl | hu
  · obtain ⟨hu, hurow⟩ := mem_filter.1 hu
    exact Or.inl (hm u hu (by simpa using hurow))
  · exact Or.inr le_rfl
  · exact Or.inr (x.1.low_le_low'.trans (hordered.2.1.1 u hu))

end

end OpenRdma.Rtl
