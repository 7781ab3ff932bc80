import OpenRdma.Rtl.StreamShifter

/-!
# What the shifters give out

`LeftShifter.streamOf` and `RightShifter.streamOf` are what the shifters give out for the beats of a
stream, as functions of the beats. If these are the beats of a stream that starts at byte `s` then
those given out are the beats of the same bytes, from byte `s + offset` or `s - offset` on
(`isStream_streamOf`).
-/

namespace OpenRdma.Rtl

open List BitVec Bool ShiftIntermediateData

variable {s k o : ℕ} {bytes : List (BitVec 8)} {ds prev : DataStream} {offset : BitVec 5}
variable {beats : List DataStream}

/-! ## Bytes of joined beats -/

theorem byteAt_concat (hi lo : BitVec 256) (j : ℕ) :
    byteAt (hi ++ lo : BitVec 512) j = if j < 32 then byteAt lo j else byteAt hi (j - 32) :=
  byteAt_append (n := 32) hi lo j

theorem byteAt_right (hi lo : BitVec 256) (o : ℕ) {i : ℕ} (hi' : i < 32) :
    byteAt (((hi ++ lo : BitVec 512) >>> (8 * o)).setWidth 256) i =
      if i + o < 32 then byteAt lo (i + o) else byteAt hi (i + o - 32) := by
  rw [byteAt_setWidth _ (by omega), byteAt_ushiftRight, byteAt_concat]

theorem byteAt_left (hi lo : BitVec 256) {o i : ℕ} (ho : o ≤ 32) (hi' : i < 32) :
    byteAt (((hi ++ lo : BitVec 512) <<< (8 * o)).extractLsb' 256 256) i =
      if i < o then byteAt lo (32 + i - o) else byteAt hi (i - o) := by
  refine (byteAt_extractLsb' ((hi ++ lo : BitVec 512) <<< (8 * o)) 32 (by omega)).trans ?_
  rw [byteAt_shiftLeft _ (by omega) (by omega), byteAt_concat]
  by_cases h : i < o
  · rw [if_pos h, if_pos (by omega)]
  · rw [if_neg h, if_neg (by omega), show 32 + i - o - 32 = i - o by omega]

/-! ## Beats -/

theorem IsBeat.byteNum_add_le (h : IsBeat s bytes k ds) (hs : s < 32) :
    ds.byteNum.toNat + ds.startByteIdx.toNat ≤ 32 := by
  have hnum := h.byteNum
  have hstart := h.startByteIdx
  by_cases hk0 : k = 0
  · rw [if_pos hk0] at hnum hstart
    omega
  · rw [if_neg hk0] at hnum hstart
    omega

/-- The items from number `k` on are beats of the stream. -/
def BeatsFrom (s : ℕ) (bytes : List (BitVec 8)) (k : ℕ) (beats : List DataStream) : Prop :=
  ∀ i ds, beats[i]? = some ds → IsBeat s bytes (k + i) ds

theorem beatsFrom_nil : BeatsFrom s bytes k [] := fun _ _ h => absurd h (by simp)

theorem beatsFrom_cons :
    BeatsFrom s bytes k (ds :: beats) ↔ IsBeat s bytes k ds ∧ BeatsFrom s bytes (k + 1) beats := by
  constructor
  · refine fun h => ⟨h 0 ds rfl, fun i d hi => ?_⟩
    rw [Nat.add_assoc, Nat.add_comm 1]
    exact h (i + 1) d hi
  · rintro ⟨hhead, htail⟩ i d hi
    cases i with
    | zero =>
      cases hi
      exact hhead
    | succ i =>
      rw [Nat.add_comm i, ← Nat.add_assoc]
      exact htail i d hi

theorem IsStream.beatsFrom (h : IsStream s bytes beats) : BeatsFrom s bytes 0 beats :=
  fun i ds hi => (Nat.zero_add i).symm ▸ h.beat i ds hi

theorem isStream_of_beatsFrom (hs : s < 32) (hpos : 0 < bytes.length)
    (hlen : beats.length = beatCount s bytes) (h : BeatsFrom s bytes 0 beats) :
    IsStream s bytes beats :=
  ⟨hs, hpos, hlen, fun k ds hk => Nat.zero_add k ▸ h k ds hk⟩

theorem BeatsFrom.lastOnly (h : BeatsFrom s bytes k beats) (hne : beats ≠ [])
    (hlen : k + beats.length = beatCount s bytes) : LastOnly beats := by
  induction beats generalizing k with
  | nil => exact absurd rfl hne
  | cons ds beats ih =>
    obtain ⟨hhead, htail⟩ := beatsFrom_cons.1 h
    have hlast := hhead.isLast
    rw [length_cons] at hlen
    rw [lastOnly_cons]
    cases beats with
    | nil =>
      rw [beatCount, length_nil] at hlen
      rw [decide_eq_true (by omega)] at hlast
      exact .inl ⟨rfl, hlast⟩
    | cons d beats =>
      refine .inr ⟨ih htail (cons_ne_nil _ _) (by omega), ?_⟩
      rw [beatCount, length_cons] at hlen
      rwa [decide_eq_false (by omega)] at hlast

namespace IsStream

variable {beats : List DataStream}

theorem ne_nil (h : IsStream s bytes beats) : beats ≠ [] := by
  rintro rfl
  have hpos := h.pos
  have hlen := h.length
  rw [beatCount, length_nil] at hlen
  omega

theorem lastOnly (h : IsStream s bytes beats) : LastOnly beats :=
  h.beatsFrom.lastOnly h.ne_nil (by rw [Nat.zero_add, h.length])

theorem exists_cons (h : IsStream s bytes beats) :
    ∃ ds rest, beats = ds :: rest ∧ ds.isFirst = true ∧ ∀ d ∈ rest, d.isFirst = false := by
  obtain ⟨ds, rest, rfl⟩ := exists_cons_of_ne_nil h.ne_nil
  obtain ⟨hhead, htail⟩ := beatsFrom_cons.1 h.beatsFrom
  refine ⟨ds, rest, rfl, hhead.isFirst, fun d hd => ?_⟩
  obtain ⟨i, hi⟩ := mem_iff_getElem?.1 hd
  rw [(htail i d hi).isFirst]
  exact decide_eq_false (by omega)

end IsStream

/-! ## To the left -/

namespace LeftShifter

/-- What the left shifter gives out for the beats of a stream, after the beat in the register. -/
def streamOf (offset : BitVec 5) : DataStream → List DataStream → List ShiftIntermediateData
  | _, [] => []
  | prev, ds :: beats =>
    beatOf offset prev ds :: if needsExtra offset ds then [extraOf offset ds]
      else streamOf offset ds beats

theorem fitsNonOnly_eq (h : ds.byteNum.toNat ≤ 32) :
    fitsNonOnly offset ds = decide (ds.byteNum.toNat + offset.toNat ≤ 32) := by
  have hsize : (32 : BitVec 6).toNat = 32 := rfl
  rw [fitsNonOnly, decide_eq_decide, le_def, toNat_add, toNat_setWidth]
  omega

theorem fitsOnly_eq (h : ds.byteNum.toNat + ds.startByteIdx.toNat ≤ 32) :
    fitsOnly offset ds = decide (ds.byteNum.toNat + offset.toNat + ds.startByteIdx.toNat ≤ 32) := by
  have hsize : (32 : BitVec 6).toNat = 32 := rfl
  rw [fitsOnly, decide_eq_decide, le_def, toNat_add, toNat_add, toNat_setWidth, toNat_setWidth]
  omega

section Beat

variable (h : IsBeat s bytes k ds) (hs : s + offset.toNat < 32) (hk : 32 * k < s + bytes.length)
include h hs hk

theorem isLast_eq : isLast offset ds = decide (s + offset.toNat + bytes.length ≤ 32 * (k + 1)) := by
  have hle := h.byteNum_add_le (by omega)
  have hnum := h.byteNum
  have hstart := h.startByteIdx
  rw [isLast, fitsOnly_eq hle, fitsNonOnly_eq (by omega), h.isFirst, h.isLast, ← decide_and,
    ← decide_and]
  by_cases hk0 : k = 0
  · rw [if_pos hk0] at hnum hstart
    split
    · next hlast =>
      rw [decide_eq_true_iff] at hlast
      rw [decide_eq_decide]
      omega
    · next hlast =>
      rw [decide_eq_true_iff] at hlast
      rw [decide_eq_decide]
      omega
  · rw [if_neg hk0] at hnum hstart
    rw [if_neg (by simp [hk0]), decide_eq_decide]
    omega

theorem needsExtra_eq : needsExtra offset ds =
    decide (s + bytes.length ≤ 32 * (k + 1) ∧ 32 * (k + 1) < s + offset.toNat + bytes.length) := by
  have hle := h.byteNum_add_le (by omega)
  have hnum := h.byteNum
  have hstart := h.startByteIdx
  rw [needsExtra, fitsOnly_eq hle, fitsNonOnly_eq (by omega), h.isFirst, h.isLast, Bool.eq_iff_iff]
  simp only [Bool.or_eq_true, Bool.and_eq_true, decide_eq_true_iff, Bool.not_eq_true',
    decide_eq_false_iff_not]
  by_cases hk0 : k = 0
  · rw [if_pos hk0] at hnum hstart
    omega
  · rw [if_neg hk0] at hnum hstart
    omega

theorem toNat_byteNum : (byteNum offset ds).toNat = if k =
    0 then min (32 - (s + offset.toNat)) bytes.length
    else min 32 (s + offset.toNat + bytes.length - 32 * k) := by
  have hle := h.byteNum_add_le (by omega)
  have hnum := h.byteNum
  have hstart := h.startByteIdx
  have hsize : (32 : BitVec 6).toNat = 32 := rfl
  rw [byteNum, isLast_eq h hs hk, fitsOnly_eq hle, h.isFirst]
  by_cases hk0 : k = 0
  · rw [if_pos hk0] at hnum hstart
    rw [if_pos (decide_eq_true hk0)]
    split
    · next hfits =>
      rw [decide_eq_true_iff] at hfits
      omega
    · next hfits =>
      rw [decide_eq_true_iff] at hfits
      rw [toNat_sub, toNat_add, toNat_setWidth, toNat_setWidth]
      omega
  · rw [if_neg hk0] at hnum
    rw [if_neg (by simp [hk0])]
    split
    · next hlast =>
      rw [decide_eq_true_iff] at hlast
      rw [toNat_add, toNat_setWidth]
      omega
    · next hlast =>
      rw [decide_eq_true_iff] at hlast
      omega

theorem isBeat_beatOf (hprev : k ≠ 0 → IsBeat s bytes (k - 1) prev) :
    IsBeat (s + offset.toNat) bytes k (beatOf offset prev ds).doLeftShift1.doLeftShift2 := by
  rw [doLeftShift_eq]
  have hstart := h.startByteIdx
  exact {
    isFirst := h.isFirst
    isLast := isLast_eq h hs hk
    startByteIdx := by
      change (if ds.isFirst then ds.startByteIdx + offset else 0).toNat = _
      rw [h.isFirst]
      by_cases hk0 : k = 0
      · rw [if_pos hk0] at hstart
        rw [if_pos (decide_eq_true hk0), if_pos hk0, toNat_add]
        omega
      · rw [if_neg (by simp [hk0]), if_neg hk0]
        rfl
    byteNum := toNat_byteNum h hs hk
    data := by
      intro i hi hge hlt
      change _ = some (byteAt (((ds.data ++ if ds.isFirst then 0 else prev.data : BitVec 512) <<<
        (8 * offset.toNat)).extractLsb' 256 256) i)
      rw [byteAt_left _ _ (by omega) hi]
      by_cases hio : i < offset.toNat
      · -- a byte of the beat before, so that this is not the first one
        have hk0 : k ≠ 0 := by omega
        have hbyte := (hprev hk0).data (32 + i - offset.toNat) (by omega) (by omega) (by omega)
        rw [if_pos hio, h.isFirst, if_neg (by simp [hk0]), ← hbyte]
        congr 1
        omega
      · have hbyte := h.data (i - offset.toNat) (by omega) (by omega) (by omega)
        rw [if_neg hio, ← hbyte]
        congr 1
        omega }

theorem isBeat_extraOf (hlast : s + bytes.length ≤ 32 * (k + 1))
    (hextra : 32 * (k + 1) < s + offset.toNat + bytes.length) :
    IsBeat (s + offset.toNat) bytes (k + 1) (extraOf offset ds).doLeftShift1.doLeftShift2 := by
  have hnum := h.byteNum
  have hstart := h.startByteIdx
  have hsize : (32 : BitVec 6).toNat = 32 := rfl
  rw [doLeftShift_eq]
  exact {
    isFirst := (decide_eq_false (Nat.succ_ne_zero k)).symm
    isLast := (decide_eq_true (by omega)).symm
    startByteIdx := rfl
    byteNum := by
      change (offset.setWidth 6 - (32 - ds.byteNum - ds.startByteIdx.setWidth 6)).toNat = _
      rw [toNat_sub, toNat_sub, toNat_sub, toNat_setWidth, toNat_setWidth,
        if_neg (Nat.succ_ne_zero k)]
      by_cases hk0 : k = 0
      · rw [if_pos hk0] at hnum hstart
        omega
      · rw [if_neg hk0] at hnum hstart
        omega
    data := by
      intro i hi hge hlt
      change _ = some (byteAt (((0#256 ++ ds.data : BitVec 512) <<< (8 * offset.toNat)).extractLsb'
        256 256) i)
      have hbyte := h.data (32 + i - offset.toNat) (by omega) (by omega) (by omega)
      rw [byteAt_left _ _ (by omega) hi, if_pos (by omega), ← hbyte]
      congr 1
      omega }

end Beat

theorem beatsFrom_streamOf {beats : List DataStream} (hs : s + offset.toNat < 32)
    (hbeats : BeatsFrom s bytes k beats) (hprev : k ≠ 0 → IsBeat s bytes (k - 1) prev)
    (hne : beats ≠ []) (hlen : k + beats.length = beatCount s bytes) :
    BeatsFrom (s + offset.toNat) bytes k ((streamOf offset prev beats).map
      (·.doLeftShift1.doLeftShift2)) ∧ k + (streamOf offset prev beats).length =
    beatCount (s + offset.toNat) bytes := by
  induction beats generalizing k prev with
  | nil => exact absurd rfl hne
  | cons ds beats ih =>
    obtain ⟨hhead, htail⟩ := beatsFrom_cons.1 hbeats
    rw [beatCount, length_cons] at hlen
    have hk : 32 * k < s + bytes.length := by omega
    have hbeat := isBeat_beatOf hhead hs hk hprev
    rw [streamOf, map_cons, beatsFrom_cons, length_cons, needsExtra_eq hhead hs hk]
    split
    · next hextra =>
      rw [decide_eq_true_iff] at hextra
      refine ⟨⟨hbeat, ?_⟩, ?_⟩
      · rw [map_singleton, beatsFrom_cons]
        exact ⟨isBeat_extraOf hhead hs hk hextra.1 hextra.2, beatsFrom_nil⟩
      · rw [beatCount, length_singleton]
        omega
    · next hextra =>
      rw [decide_eq_true_iff] at hextra
      cases beats with
      | nil =>
        rw [length_nil] at hlen
        refine ⟨⟨hbeat, beatsFrom_nil⟩, ?_⟩
        rw [beatCount]
        change k + 1 = _
        omega
      | cons d beats =>
        obtain ⟨hrest, hcount⟩ := ih htail (fun _ => hhead) (by simp) (by rw [beatCount]; omega)
        exact ⟨⟨hbeat, hrest⟩, by rw [← hcount]; omega⟩

/-- **A stream that is shifted to the left.** -/
theorem isStream_streamOf {beats : List DataStream} (h : IsStream s bytes beats)
    (hs : s + offset.toNat < 32) (prev : DataStream) :
    IsStream (s + offset.toNat) bytes ((streamOf offset prev beats).map
      (·.doLeftShift1.doLeftShift2)) := by
  obtain ⟨hfrom, hcount⟩ := beatsFrom_streamOf hs h.beatsFrom (fun h0 => absurd rfl h0) h.ne_nil
    (by rw [Nat.zero_add, h.length])
  rw [Nat.zero_add] at hcount
  exact isStream_of_beatsFrom hs h.pos (by rw [length_map, hcount]) hfrom

end LeftShifter

/-! ## To the right -/

namespace RightShifter

/-- What the right shifter gives out for the beat in the register and those after it. -/
def beatsOf (offset : BitVec 5) : DataStream → List DataStream → List ShiftIntermediateData
  | prev, [] => [extraOf (prev, offset)]
  | prev, ds :: beats =>
    beatOf (prev, offset) offset ds :: if fits offset ds && ds.isLast then []
      else beatsOf offset ds beats

/-- What the right shifter gives out for the beats of a stream. -/
def streamOf (offset : BitVec 5) : List DataStream → List ShiftIntermediateData
  | [] => []
  | [ds] => [onlyOf offset ds]
  | ds :: beats => beatsOf offset ds beats

theorem fits_eq (offset : BitVec 5) (ds : DataStream) :
    fits offset ds = decide (ds.byteNum.toNat ≤ offset.toNat) := by
  rw [fits, decide_eq_decide, le_def, toNat_setWidth]
  omega

section Beat

variable (hprev : IsBeat s bytes k prev) (h : IsBeat s bytes (k + 1) ds) (hs : s < 32)
  (ho : offset.toNat ≤ s) (hk : 32 * (k + 1) < s + bytes.length)
include h hs ho hk

theorem isLast_eq : (fits offset ds && ds.isLast) =
    decide (s - offset.toNat + bytes.length ≤ 32 * (k + 1)) := by
  have hnum := h.byteNum
  rw [if_neg (Nat.succ_ne_zero k)] at hnum
  rw [fits_eq, h.isLast, ← decide_and, decide_eq_decide]
  omega

include hprev

theorem toNat_byteNum : (byteNum (prev, offset) offset ds).toNat =
    if k = 0 then min (32 - (s - offset.toNat)) bytes.length
    else min 32 (s - offset.toNat + bytes.length - 32 * k) := by
  have hnum := h.byteNum
  have hprevNum := hprev.byteNum
  have hsize : (32 : BitVec 6).toNat = 32 := rfl
  rw [if_neg (Nat.succ_ne_zero k)] at hnum
  rw [byteNum, fits_eq, hprev.isFirst]
  by_cases hk0 : k = 0
  · rw [if_pos hk0] at hprevNum ⊢
    simp only [hk0, decide_true, if_true]
    split
    · next hfits =>
      rw [decide_eq_true_iff] at hfits
      rw [toNat_add]
      omega
    · next hfits =>
      rw [decide_eq_true_iff] at hfits
      rw [toNat_add, toNat_setWidth]
      omega
  · rw [if_neg hk0] at hprevNum ⊢
    simp only [hk0, decide_false, false_eq_true, if_false]
    split
    · next hfits =>
      rw [decide_eq_true_iff] at hfits
      rw [toNat_sub, toNat_add, toNat_setWidth]
      omega
    · next hfits =>
      rw [decide_eq_true_iff] at hfits
      omega

theorem isBeat_beatOf :
    IsBeat (s - offset.toNat) bytes k (beatOf (prev, offset) offset
      ds).doRightShift.doRightShift2 := by
  rw [doRightShift_eq]
  have hstart := hprev.startByteIdx
  exact {
    isFirst := hprev.isFirst
    isLast := isLast_eq h hs ho hk
    startByteIdx := by
      change (if prev.isFirst then prev.startByteIdx - offset else 0).toNat = _
      rw [hprev.isFirst]
      by_cases hk0 : k = 0
      · rw [if_pos hk0] at hstart
        rw [if_pos (decide_eq_true hk0), if_pos hk0, toNat_sub]
        omega
      · rw [if_neg (by simp [hk0]), if_neg hk0]
        rfl
    byteNum := toNat_byteNum hprev h hs ho hk
    data := by
      intro i hi hge hlt
      change _ = some (byteAt (((ds.data ++ prev.data : BitVec 512) >>> (8 * offset.toNat)).setWidth
        256) i)
      rw [byteAt_right _ _ _ hi]
      by_cases hio : i + offset.toNat < 32
      · have hbyte := hprev.data (i + offset.toNat) hio (by omega) (by omega)
        rw [if_pos hio, ← hbyte]
        congr 1
        omega
      · have hbyte := h.data (i + offset.toNat - 32) (by omega) (by omega) (by omega)
        rw [if_neg hio, ← hbyte]
        congr 1
        omega }

end Beat

theorem isBeat_extraOf (hprev : IsBeat s bytes k prev) (ho : offset.toNat ≤ s) (hk0 : k ≠ 0)
    (hlast : s + bytes.length ≤ 32 * (k + 1)) (hextra : 32 * k < s - offset.toNat + bytes.length) :
    IsBeat (s - offset.toNat) bytes k (extraOf (prev, offset)).doRightShift.doRightShift2 := by
  have hnum := hprev.byteNum
  rw [if_neg hk0] at hnum
  rw [doRightShift_eq]
  exact {
    isFirst := (decide_eq_false hk0).symm
    isLast := (decide_eq_true (by omega)).symm
    startByteIdx := (if_neg hk0).symm
    byteNum := by
      change (prev.byteNum - offset.setWidth 6).toNat = _
      rw [toNat_sub, toNat_setWidth, if_neg hk0]
      omega
    data := by
      intro i hi hge hlt
      change _ = some (byteAt (((0#256 ++ prev.data : BitVec 512) >>> (8 * offset.toNat)).setWidth
        256) i)
      have hbyte := hprev.data (i + offset.toNat) (by omega) (by omega) (by omega)
      rw [byteAt_right _ _ _ hi, if_pos (by omega), ← hbyte]
      congr 1
      omega }

theorem isBeat_onlyOf (h : IsBeat s bytes 0 ds) (hs : s < 32) (ho : offset.toNat ≤ s)
    (hlast : s + bytes.length ≤ 32) : IsBeat (s - offset.toNat) bytes 0
    (onlyOf offset ds).doRightShift.doRightShift2 := by
  have hnum := h.byteNum
  have hstart := h.startByteIdx
  rw [if_pos rfl] at hnum hstart
  rw [doRightShift_eq]
  exact {
    isFirst := rfl
    isLast := (decide_eq_true (by omega)).symm
    startByteIdx := by
      change (ds.startByteIdx - offset).toNat = _
      rw [toNat_sub, if_pos rfl]
      omega
    byteNum := by
      change ds.byteNum.toNat = _
      rw [if_pos rfl]
      omega
    data := by
      intro i hi hge hlt
      change _ = some (byteAt (((0#256 ++ ds.data : BitVec 512) >>> (8 * offset.toNat)).setWidth
        256) i)
      have hbyte := h.data (i + offset.toNat) (by omega) (by omega) (by omega)
      rw [byteAt_right _ _ _ hi, if_pos (by omega), ← hbyte]
      congr 1
      omega }

theorem beatsFrom_beatsOf {beats : List DataStream} (hs : s < 32) (ho : offset.toNat ≤ s)
    (hprev : IsBeat s bytes k prev) (hbeats : BeatsFrom s bytes (k + 1) beats) (hne : beats = [] →
      k ≠ 0)
    (hlen : k + 1 + beats.length = beatCount s bytes) (hk : 32 * k < s -
      offset.toNat + bytes.length) :
    BeatsFrom (s - offset.toNat) bytes k ((beatsOf offset prev beats).map
      (·.doRightShift.doRightShift2)) ∧ k + (beatsOf offset prev beats).length =
    beatCount (s - offset.toNat) bytes := by
  induction beats generalizing k prev with
  | nil =>
    rw [beatCount, length_nil] at hlen
    refine ⟨?_, ?_⟩
    · rw [beatsOf, map_singleton, beatsFrom_cons]
      exact ⟨isBeat_extraOf hprev ho (hne rfl) (by omega) hk, beatsFrom_nil⟩
    · rw [beatsOf, beatCount, length_singleton]
      omega
  | cons ds beats ih =>
    obtain ⟨hhead, htail⟩ := beatsFrom_cons.1 hbeats
    rw [beatCount, length_cons] at hlen
    have hk' : 32 * (k + 1) < s + bytes.length := by omega
    have hbeat := isBeat_beatOf hprev hhead hs ho hk'
    rw [beatsOf, map_cons, beatsFrom_cons, length_cons, isLast_eq hhead hs ho hk']
    split
    · next hlast =>
      rw [decide_eq_true_iff] at hlast
      refine ⟨⟨hbeat, beatsFrom_nil⟩, ?_⟩
      rw [beatCount]
      change k + 1 = _
      omega
    · next hlast =>
      rw [decide_eq_true_iff] at hlast
      obtain ⟨hrest, hcount⟩ := ih hhead htail (fun _ => Nat.succ_ne_zero k)
        (by rw [beatCount]; omega) (by omega)
      exact ⟨⟨hbeat, hrest⟩, by rw [← hcount]; omega⟩

/-- **A stream that is shifted to the right.** -/
theorem isStream_streamOf {beats : List DataStream} (h : IsStream s bytes beats)
    (ho : offset.toNat ≤ s) : IsStream (s - offset.toNat) bytes
    ((streamOf offset beats).map (·.doRightShift.doRightShift2)) := by
  have hpos := h.pos
  have hlen := h.length
  have hs := h.start_lt
  match beats, h with
  | [], h => exact absurd rfl h.ne_nil
  | [ds], h =>
    obtain ⟨hhead, -⟩ := beatsFrom_cons.1 h.beatsFrom
    rw [beatCount, length_singleton] at hlen
    refine isStream_of_beatsFrom (by omega) hpos ?_ ?_
    · rw [beatCount]
      change 1 = _
      omega
    · rw [streamOf, map_singleton, beatsFrom_cons]
      exact ⟨isBeat_onlyOf hhead hs ho (by omega), beatsFrom_nil⟩
  | ds :: d :: beats, h =>
    obtain ⟨hhead, htail⟩ := beatsFrom_cons.1 h.beatsFrom
    obtain ⟨hfrom, hcount⟩ := beatsFrom_beatsOf hs ho hhead htail (fun h => absurd h (by simp))
      (by simp only [← hlen, length_cons]; omega) (by omega)
    rw [Nat.zero_add] at hcount
    exact isStream_of_beatsFrom (by omega) hpos (by rw [length_map]; exact hcount) hfrom

end RightShifter

end OpenRdma.Rtl
