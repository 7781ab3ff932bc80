import OpenRdma.Rtl.Headers

/-!
# Merging a sequence number into a bitmap window

A window holds a bit for each of 128 packet sequence numbers: the 16 of the stride `leftBound` in
its highest bits and those of the seven strides before it below. An update carries a stride with one
bit. It is merged into the stored window, which moves if the update is ahead, or dropped if it is
more than a window behind. The boundaries are compared as the signed difference of two numbers of 20
bits (`strideDelta`); `getLsbD_mergedEntry` says which bits the merged window has.
-/

namespace OpenRdma.Rtl

open BitVec Bool

/-- A window: the bits of its 128 sequence numbers and its highest stride. -/
structure BitmapWindowStorageEntry where
  data : BitVec 128
  leftBound : BitVec 20
  qpnKeyPart : BitVec 8
  deriving DecidableEq

/-- A sequence number that arrived for a queue pair. -/
structure BitmapWindowStorageUpdateReq where
  qpn : BitVec 24
  psn : BitVec 24
  deriving DecidableEq

structure BitmapWindowStorageUpdateResp where
  rowAddr : BitVec 10
  isShiftWindow : Bool
  isShiftOutOfBoundary : Bool
  windowShiftedOutData : BitVec 128
  oldEntry : BitmapWindowStorageEntry
  newEntry : BitmapWindowStorageEntry
  deriving DecidableEq

/-- The window after a reset: the numbers before 0 count as received. -/
def resetValue : BitmapWindowStorageEntry where
  data := -1
  leftBound := -1
  qpnKeyPart := 0

/-- The stride of a sequence number with its bit. -/
def oneHotEntry (req : BitmapWindowStorageUpdateReq) : BitmapWindowStorageEntry where
  leftBound := req.psn.extractLsb' 4 20
  data := ((1 : BitVec 16) <<< req.psn.setWidth 4) ++ (0 : BitVec 112)
  qpnKeyPart := getKeyQP req.qpn

/-! ## The merge -/

section

variable (old new : BitmapWindowStorageEntry)

def boundaryDelta : BitVec 20 := new.leftBound - old.leftBound

def boundaryDeltaNeg : BitVec 20 := old.leftBound - new.leftBound

/-- The distance of the two windows, in strides. -/
def boundaryDeltaAbs : BitVec 20 :=
  if (boundaryDelta old new).msb then boundaryDeltaNeg old new else boundaryDelta old new

/-- The windows have no stride in common. -/
def isShiftOutOfBoundary : Bool :=
  if (boundaryDelta old new).msb then boundaryDeltaNeg old new ≥ 8 else boundaryDelta old new ≥ 8

/-- The update is behind the window. -/
def skipMergeStale : Bool := (boundaryDelta old new).msb && isShiftOutOfBoundary old new

/-- The update moves the window. -/
def isShiftWindow : Bool := !(boundaryDelta old new).msb && boundaryDelta old new > 0

def bitShiftCnt : BitVec 7 := (boundaryDeltaAbs old new).setWidth 7 <<< 4

/-- The stored window followed by ones, shifted by the distance of the boundaries. -/
def tmpToShift : BitVec 256 := (old.data ++ (-1 : BitVec 128)) >>> bitShiftCnt old new

/-- What leaves the window, above ones. -/
def windowShiftedOutData : BitVec 128 :=
  if isShiftOutOfBoundary old new then 0
  else if isShiftWindow old new then (tmpToShift old new).setWidth 128
  else -1

/-- Both bitmaps, in the later of the two windows. -/
def mergedEntry : BitmapWindowStorageEntry where
  leftBound := if isShiftWindow old new then new.leftBound else old.leftBound
  data :=
    if isShiftOutOfBoundary old new then new.data ||| 0
    else if isShiftWindow old new then new.data ||| (tmpToShift old new).extractLsb' 128 128
    else new.data >>> bitShiftCnt old new ||| old.data
  qpnKeyPart := new.qpnKeyPart

/-- The answer to an update. A stale one answers with the unmerged entry. -/
def updateResp (rowAddr : BitVec 10) : BitmapWindowStorageUpdateResp :=
  if skipMergeStale old new then
    { rowAddr := rowAddr
      oldEntry := old
      windowShiftedOutData := -1
      isShiftOutOfBoundary := isShiftOutOfBoundary old new
      isShiftWindow := false
      newEntry := new }
  else
    { rowAddr := rowAddr
      oldEntry := old
      windowShiftedOutData := windowShiftedOutData old new
      isShiftOutOfBoundary := isShiftOutOfBoundary old new
      isShiftWindow := isShiftWindow old new
      newEntry := mergedEntry old new }

/-- The entry to be written back. A stale update writes nothing. -/
def writeBackEntry : Option BitmapWindowStorageEntry :=
  if skipMergeStale old new then none else some (mergedEntry old new)

end

/-! ## The distance of the boundaries -/

/-- The distance of the boundaries, as a signed number. -/
def strideDelta (old new : BitmapWindowStorageEntry) : ℤ := (boundaryDelta old new).toInt

variable {old new : BitmapWindowStorageEntry}

theorem boundaryDelta_msb : (boundaryDelta old new).msb = decide (strideDelta old new < 0) := by
  rw [strideDelta, msb_eq_toInt]

theorem toNat_boundaryDelta (h : 0 ≤ strideDelta old new) :
    ((boundaryDelta old new).toNat : ℤ) = strideDelta old new := by
  unfold strideDelta at h ⊢
  rw [toInt_eq_toNat_cond] at h ⊢
  split_ifs at h ⊢ <;> omega

theorem toNat_boundaryDeltaNeg (h : strideDelta old new < 0) :
    ((boundaryDeltaNeg old new).toNat : ℤ) = -strideDelta old new := by
  unfold strideDelta at h ⊢
  rw [toInt_eq_toNat_cond, boundaryDelta, toNat_sub] at h ⊢
  rw [boundaryDeltaNeg, toNat_sub]
  split_ifs at h ⊢ <;> omega

theorem toNat_boundaryDeltaAbs : (boundaryDeltaAbs old new).toNat =
    (strideDelta old new).natAbs := by
  unfold boundaryDeltaAbs
  rw [boundaryDelta_msb]
  rcases lt_or_ge (strideDelta old new) 0 with h | h
  · have := toNat_boundaryDeltaNeg h
    rw [decide_eq_true h, if_pos rfl]
    omega
  · have := toNat_boundaryDelta h
    rw [decide_eq_false (not_lt.2 h), if_neg Bool.false_ne_true]
    omega

theorem isShiftOutOfBoundary_iff : isShiftOutOfBoundary old new ↔ 8 ≤
    (strideDelta old new).natAbs := by
  unfold isShiftOutOfBoundary
  rw [boundaryDelta_msb]
  rcases lt_or_ge (strideDelta old new) 0 with h | h
  · have := toNat_boundaryDeltaNeg h
    rw [decide_eq_true h, if_pos rfl, decide_eq_true_eq, ge_iff_le, le_def]
    change 8 ≤ _ ↔ _
    omega
  · have := toNat_boundaryDelta h
    rw [decide_eq_false (not_lt.2 h), if_neg Bool.false_ne_true, decide_eq_true_eq, ge_iff_le,
      le_def]
    change 8 ≤ _ ↔ _
    omega

theorem skipMergeStale_iff : skipMergeStale old new ↔ strideDelta old new ≤ -8 := by
  rw [skipMergeStale, Bool.and_eq_true, isShiftOutOfBoundary_iff, boundaryDelta_msb,
    decide_eq_true_eq]
  omega

theorem isShiftWindow_iff : isShiftWindow old new ↔ 0 < strideDelta old new := by
  rw [isShiftWindow, Bool.and_eq_true, boundaryDelta_msb, Bool.not_eq_true',
    decide_eq_false_iff_not, decide_eq_true_eq, gt_iff_lt, lt_def]
  change _ ∧ 0 < _ ↔ _
  constructor
  · rintro ⟨h₁, h₂⟩
    have := toNat_boundaryDelta (not_lt.1 h₁)
    omega
  · intro h
    have := toNat_boundaryDelta h.le
    omega

theorem toNat_bitShiftCnt (h : (strideDelta old new).natAbs < 8) :
    (bitShiftCnt old new).toNat = 16 * (strideDelta old new).natAbs := by
  rw [bitShiftCnt, toNat_shiftLeft, toNat_setWidth, toNat_boundaryDeltaAbs, Nat.shiftLeft_eq]
  omega

/-! ## The bits of the merged window -/

theorem getLsbD_oneHotEntry (req : BitmapWindowStorageUpdateReq) (i : ℕ) :
    (oneHotEntry req).data.getLsbD i = decide (i = 112 + req.psn.toNat % 16) := by
  have hmod : (req.psn.setWidth 4).toNat = req.psn.toNat % 16 := toNat_setWidth ..
  rw [oneHotEntry, getLsbD_append, shiftLeft_eq', hmod, getLsbD_shiftLeft]
  change (if i < 112 then (0#112).getLsbD i else _ && _ && (1#16).getLsbD _) = _
  rw [getLsbD_zero, getLsbD_one, Bool.eq_iff_iff, decide_eq_true_eq]
  split_ifs with h
  · simp only [false_iff]
    omega
  · simp only [Bool.and_eq_true, Bool.not_eq_true', decide_eq_true_eq, decide_eq_false_iff_not]
    omega

theorem getLsbD_tmpToShift (h : (strideDelta old new).natAbs < 8) (i : ℕ) :
    (tmpToShift old new).getLsbD i =
      if i + 16 * (strideDelta old new).natAbs < 128 then true
      else old.data.getLsbD (i + 16 * (strideDelta old new).natAbs - 128) := by
  rw [tmpToShift, ushiftRight_eq', getLsbD_ushiftRight, toNat_bitShiftCnt h,
    getLsbD_append, Nat.add_comm (16 * _)]
  split_ifs with hlt
  · change (-1#128).getLsbD _ = true
    rw [neg_one_eq_allOnes, getLsbD_allOnes, decide_eq_true hlt]
  · rfl

/-- **The bits of the merged window**: those of the update, and those of the stored window moved by
the distance of the boundaries. -/
theorem getLsbD_mergedEntry (h : -8 < strideDelta old new) {i : ℕ} (hi : i < 128) :
    (mergedEntry old new).data.getLsbD i =
      (new.data.getLsbD (i + 16 * (-strideDelta old new).toNat) ||
        old.data.getLsbD (i + 16 * (strideDelta old new).toNat)) := by
  unfold mergedEntry
  by_cases hout : isShiftOutOfBoundary old new
  · -- the update is ahead, and no stored bit stays
    have hd := isShiftOutOfBoundary_iff.1 hout
    rw [if_pos hout, show (0 : BitVec 128) = 0#128 from rfl, or_zero,
      show (-strideDelta old new).toNat = 0 by omega, getLsbD_of_ge old.data _ (by omega),
      Bool.or_false]
    rfl
  · have hd : (strideDelta old new).natAbs < 8 := by
      rw [isShiftOutOfBoundary_iff] at hout
      omega
    rw [if_neg hout]
    by_cases hw : isShiftWindow old new
    · have hpos := isShiftWindow_iff.1 hw
      rw [if_pos hw, getLsbD_or, getLsbD_extractLsb', getLsbD_tmpToShift hd,
        if_neg (by omega), decide_eq_true hi, Bool.true_and,
        show (-strideDelta old new).toNat = 0 by
          omega, show 128 + i + 16 * (strideDelta old new).natAbs - 128 =
          i + 16 * (strideDelta old new).toNat by omega]
      rfl
    · have hle : strideDelta old new ≤ 0 := not_lt.1 fun h => hw (isShiftWindow_iff.2 h)
      rw [if_neg hw, getLsbD_or, ushiftRight_eq', getLsbD_ushiftRight,
        toNat_bitShiftCnt hd, show (strideDelta old new).toNat = 0 by omega,
        show 16 * (strideDelta old new).natAbs + i = i + 16 * (-strideDelta old new).toNat by omega]
      rfl

theorem windowShiftedOutData_eq (h₁ : 0 < strideDelta old new) (h₂ : strideDelta old new < 8) :
    windowShiftedOutData old new = -1 ↔
      ∀ i < 16 * (strideDelta old new).toNat, old.data.getLsbD i := by
  have hd : (strideDelta old new).natAbs < 8 := by omega
  rw [windowShiftedOutData, if_neg (by rw [isShiftOutOfBoundary_iff]; omega),
    if_pos (isShiftWindow_iff.2 h₁), show (-1 : BitVec 128) = allOnes 128 from rfl]
  constructor
  · intro heq i hi
    have hbit := congrArg (·.getLsbD (i + 128 - 16 * (strideDelta old new).toNat)) heq
    rw [getLsbD_setWidth, getLsbD_tmpToShift hd, if_neg (by omega), getLsbD_allOnes,
      decide_eq_true (by omega), Bool.true_and] at hbit
    rwa [show i + 128 - 16 * (strideDelta old new).toNat + 16 * (strideDelta old new).natAbs -
      128 = i by
      omega] at hbit
  · intro hall
    refine eq_of_getLsbD_eq fun i hi => ?_
    rw [getLsbD_setWidth, getLsbD_tmpToShift hd, getLsbD_allOnes, decide_eq_true hi,
      Bool.true_and]
    split_ifs with hlt
    · rfl
    · exact hall _ (by omega)

theorem windowShiftedOutData_of_le (h : 8 ≤ strideDelta old new) :
    windowShiftedOutData old new = 0 := by
  rw [windowShiftedOutData, if_pos (by rw [isShiftOutOfBoundary_iff]; omega)]

end OpenRdma.Rtl
