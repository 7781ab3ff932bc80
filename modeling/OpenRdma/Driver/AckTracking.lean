import OpenRdma.Driver.PsnTracker
import OpenRdma.Foundations.Circular
import OpenRdma.Foundations.Run

/-!
# What a tracker has acknowledged

The abstract meaning of a `PsnTracker` is a set `U` of unbounded sequence numbers, the union of what
the calls acknowledge. A call names packet sequence numbers; each is read as the unbounded number
nearest to the base (`Psn.lift`), and `AckOp.acks B op` is the set a call acknowledges at base `B`.

* `Sound t U B`: everything the tracker treats as acknowledged is in `U`. Every call keeps it,
  without any condition (`Sound.apply`): a tracker never invents an acknowledgement.
* `Tracks t U B`: the tracker represents `U` exactly, with `B` the frontier of `U`. A call keeps it
  when it is `AckOp.Ok` (`Tracks.apply`): no number it names is ahead of the base past the wrap of
  24 bits, and the new base it sets directly is not already acknowledged.

So after a run of such calls the tracker is the union of what they acknowledge.
-/

namespace OpenRdma.Driver

open BitRow PsnTracker Set

/-- The calls of `PsnTracker`. -/
inductive AckOp
  | one (psn : Psn)
  | before (psn : Psn)
  | range (psnLow psnHigh : Psn)
  | bitmap (nowPsn : Psn) (bitmap : BitVec 128)
  deriving DecidableEq

/-- A call of the tracker. -/
def PsnTracker.apply (t : PsnTracker) : AckOp → PsnTracker × Option Psn
  | .one psn => t.ackOne psn
  | .before psn => t.ackBefore psn
  | .range psnLow psnHigh => t.ackRange psnLow psnHigh
  | .bitmap nowPsn bitmap => t.ackBitmap nowPsn bitmap

namespace AckOp

/-- The packet sequence numbers a call names. -/
def named : AckOp → List Psn
  | .one psn => [psn]
  | .before psn => [psn]
  | .range psnLow psnHigh => [psnLow, psnHigh]
  | .bitmap nowPsn _ => [nowPsn]

/-- The numbers a call acknowledges when the base is `B`. -/
def acks (B : ℤ) : AckOp → Set ℤ
  | .one psn => {Psn.lift B psn}
  | .before psn => {a | a < Psn.lift B psn}
  | .range psnLow psnHigh => {a | Psn.lift B psnLow ≤ a ∧ a < Psn.lift B psnHigh}
  | .bitmap nowPsn bm => {a | ∃ x : ℕ, bm.getLsbD x = true ∧ a = Psn.lift B nowPsn + x}

end AckOp

/-! ## Reading an offset -/

namespace PsnTracker

theorem lift_eq {t : PsnTracker} {B : ℤ} (h : t.basePsn = Psn.wrap B) (p : Psn) : Psn.lift B p - B =
      if (p.inner : ℤ) - t.basePsn.inner < -2 ^ 23 then (p.inner : ℤ) - t.basePsn.inner + 2 ^ 24
      else if (p.inner : ℤ) - t.basePsn.inner < 2 ^ 23 then (p.inner : ℤ) - t.basePsn.inner
      else (p.inner : ℤ) - t.basePsn.inner - 2 ^ 24 := by
  have hp := p.inner_lt
  have hb := t.basePsn.inner_lt
  have hw : Circular.wrap (2 ^ 24) B = t.basePsn.inner := by rw [h]; rfl
  unfold Psn.lift Circular.lift Circular.fwd
  split_ifs <;> omega

theorem rstart_cases {t : PsnTracker} {B : ℤ} (h : t.basePsn = Psn.wrap B) (p : Psn) :
    t.rstart p = Psn.lift B p - B ∨
      t.rstart p < -2 ^ 23 ∧ B < Psn.lift B p ∧ p.inner < t.basePsn.inner := by
  have hb := t.basePsn.inner_lt
  have hl := lift_eq h p
  rw [rstart_eq]
  split_ifs at hl ⊢ <;> omega

theorem lift_le_of_le {B : ℤ} {p : Psn} (h : p ≤ Psn.wrap B) : Psn.lift B p ≤ B := by
  by_contra hlt
  have h₂ := Psn.lift_lt B p
  rw [← Psn.wrap_lift B p, Psn.le_iff] at h
  rcases h with h | h
  · exact hlt (Psn.wrap_inj h (by omega) (by omega)).le
  · exact Psn.not_wrap_lt_wrap (by omega) (by omega) h

theorem lt_of_lt_lift {B : ℤ} {p : Psn} (h : B < Psn.lift B p) : Psn.wrap B < p := by
  have h₂ := Psn.lift_lt B p
  rw [← Psn.wrap_lift B p]
  exact (Psn.wrap_lt_wrap (by omega) (by omega)).2 h

end PsnTracker

/-! ## A tracker never invents an acknowledgement -/

/-- Everything the tracker treats as acknowledged is in `U`; its base is the number `B`. -/
structure Sound (t : PsnTracker) (U : Set ℤ) (B : ℤ) : Prop where
  base : t.basePsn = Psn.wrap B
  nonneg : 0 ≤ B
  below : ∀ a, 0 ≤ a → a < B → a ∈ U
  bits : ∀ i : ℕ, bit t.inner i = true → B + i ∈ U

theorem sound_default : Sound default ∅ 0 where
  base := rfl
  nonneg := le_rfl
  below a h₁ h₂ := absurd h₂ (by omega)
  bits i h := by simp [show (default : PsnTracker).inner = [] from rfl] at h

namespace Sound

variable {t : PsnTracker} {U V : Set ℤ} {B : ℤ} (h : Sound t U B)
include h

theorem mono (hUV : U ⊆ V) : Sound t V B where
  base := h.base
  nonneg := h.nonneg
  below a h₁ h₂ := hUV (h.below a h₁ h₂)
  bits i hi := hUV (h.bits i hi)

theorem withInner {v : List Bool} (hv : ∀ i : ℕ, bit v i = true → B + i ∈ U) :
    Sound { t with inner := v } U B where
  base := h.base
  nonneg := h.nonneg
  below := h.below
  bits := hv

theorem tryAdvance : Sound t.tryAdvance.1 U (B + firstZeroOrLen t.inner) where
  base := by rw [t.tryAdvance_basePsn, h.base, Psn.wrap_add]
  nonneg := by
    have := h.nonneg
    omega
  below a h₁ h₂ := by
    rcases lt_or_ge a B with ha | ha
    · exact h.below a h₁ ha
    · obtain ⟨i, rfl⟩ : ∃ i : ℕ, a = B + i := ⟨(a - B).toNat, by omega⟩
      exact h.bits i (bit_of_lt_firstZeroOrLen (by omega))
  bits i hi := by
    rw [t.bit_tryAdvance] at hi
    have := h.bits _ hi
    rwa [Nat.cast_add, add_comm (i : ℤ), ← add_assoc] at this

theorem rstart_of_nonneg {p : Psn} (hp : 0 ≤ t.rstart p) : t.rstart p = Psn.lift B p - B :=
  (rstart_cases h.base p).resolve_right fun h' => by omega

theorem enterOne {p : Psn} (hp : 0 ≤ t.rstart p) :
    Sound { t with inner := PsnTracker.enterOne t.inner (t.rstart p).toNat }
      (U ∪ (AckOp.one p).acks B) B := by
  have hr := h.rstart_of_nonneg hp
  refine (h.mono subset_union_left).withInner fun i hi => ?_
  rcases bit_enterOne.1 hi with rfl | hi
  · refine Or.inr (mem_singleton_iff.2 ?_)
    omega
  · exact Or.inl (h.bits i hi)

theorem enterRange {p q : Psn} (hp : 0 ≤ t.rstart p) (hq : 0 ≤ t.rstart q) :
    Sound { t with inner := PsnTracker.enterRange t.inner (t.rstart p).toNat (t.rstart q).toNat }
      (U ∪ (AckOp.range p q).acks B) B := by
  have hr := h.rstart_of_nonneg hp
  have hr' := h.rstart_of_nonneg hq
  refine (h.mono subset_union_left).withInner fun i hi => ?_
  rcases bit_enterRange.1 hi with hi | hi
  · exact Or.inr ⟨by omega, by omega⟩
  · exact Or.inl (h.bits i hi)

theorem enterBitmap (p : Psn) (bm : BitVec 128) :
    Sound { t with inner := PsnTracker.enterBitmap t.inner (t.rstart p) bm }
      (U ∪ (AckOp.bitmap p bm).acks B) B := by
  refine (h.mono subset_union_left).withInner fun i hi => ?_
  rcases bit_enterBitmap.1 hi with ⟨x, hx, hi⟩ | hi
  · have hlt := BitVec.lt_of_getLsbD hx
    have hr' := (rstart_cases h.base p).resolve_right fun h' => by omega
    exact Or.inr ⟨x, hx, by omega⟩
  · exact Or.inl (h.bits i hi)

theorem dropBits {p : Psn} (hp : 0 ≤ t.rstart p) (hUV : U ⊆ V) (hV : ∀ a, B ≤ a → a < Psn.lift B p → a ∈ V) :
    Sound { basePsn := p, inner := PsnTracker.dropBits t.inner (t.rstart p).toNat } V
      (Psn.lift B p) where
  base := (Psn.wrap_lift B p).symm
  nonneg := by
    have := h.rstart_of_nonneg hp
    have := h.nonneg
    omega
  below a h₁ h₂ := by
    rcases lt_or_ge a B with ha | ha
    · exact hUV (h.below a h₁ ha)
    · exact hV a ha h₂
  bits i hi := by
    have hr := h.rstart_of_nonneg hp
    rw [bit_dropBits] at hi
    have := hUV (h.bits _ hi)
    rwa [show B + ((i + (t.rstart p).toNat : ℕ) : ℤ) = Psn.lift B p + i by omega] at this

theorem ackBefore (p : Psn) (hUV : U ⊆ V) (hV : ∀ a, B ≤ a → a < Psn.lift B p → a ∈ V) :
    ∃ B', B ≤ B' ∧ Sound (t.ackBefore p).1 V B' := by
  rcases lt_or_ge (t.rstart p) 0 with hr | hr
  · rw [ackBefore_of_neg hr]
    exact ⟨B, le_rfl, h.mono hUV⟩
  · rw [ackBefore_of_nonneg hr]
    have hr' := h.rstart_of_nonneg hr
    exact ⟨_, by omega, h.dropBits hr hUV hV⟩

/-- **A tracker never invents an acknowledgement**: whatever a call names, everything treated as
acknowledged afterwards was acknowledged before or is acknowledged by the call. -/
theorem apply (op : AckOp) : ∃ B', B ≤ B' ∧ Sound (t.apply op).1 (U ∪ op.acks B) B' := by
  have hU := h.mono (V := U ∪ op.acks B) subset_union_left
  cases op with
  | one p =>
    change ∃ B', B ≤ B' ∧ Sound (t.ackOne p).1 _ B'
    rcases lt_or_ge (t.rstart p) 0 with hr | hr
    · rw [ackOne_of_neg hr]
      exact ⟨B, le_rfl, hU⟩
    · rw [ackOne_of_nonneg hr]
      exact ⟨_, by omega, (h.enterOne hr).tryAdvance⟩
  | before p => exact h.ackBefore p subset_union_left fun a _ h₂ => Or.inr h₂
  | range lo hi =>
    change ∃ B', B ≤ B' ∧ Sound (t.ackRange lo hi).1 _ B'
    by_cases hle : lo ≤ t.basePsn
    · -- the numbers from the base to `hi` are among those from `lo` to `hi`
      rw [ackRange_of_le hle]
      have hlo := lift_le_of_le (h.base ▸ hle)
      exact h.ackBefore hi subset_union_left fun a h₁ h₂ => Or.inr ⟨hlo.trans h₁, h₂⟩
    by_cases hneg : t.rstart lo < 0 ∨ t.rstart hi < 0
    · rw [ackRange_of_neg hle hneg]
      exact ⟨B, le_rfl, hU⟩
    obtain ⟨hr, hs⟩ : 0 ≤ t.rstart lo ∧ 0 ≤ t.rstart hi := by omega
    rw [ackRange_of_nonneg hle hr hs]
    exact ⟨B, le_rfl, h.enterRange hr hs⟩
  | bitmap p bm =>
    change ∃ B', B ≤ B' ∧ Sound (t.ackBitmap p bm).1 _ B'
    rw [ackBitmap_eq]
    exact ⟨_, by omega, (h.enterBitmap p bm).tryAdvance⟩

end Sound

/-! ## The calls under which a tracker is exact -/

/-- `psn` is recorded as acknowledged ahead of the base. -/
def PsnTracker.acked (t : PsnTracker) (psn : Psn) : Prop :=
  bit t.inner (psn - t.basePsn).inner = true

instance (t : PsnTracker) (psn : Psn) : Decidable (t.acked psn) :=
  inferInstanceAs (Decidable (_ = _))

namespace AckOp

/-- Every number the call names is less than half a circle from the base. -/
def InWindow (t : PsnTracker) (op : AckOp) : Prop :=
  ∀ psn ∈ op.named, (psn - t.basePsn).inner ≠ 2 ^ 23

/-- No number the call names is ahead of the base and past the wrap of 24 bits. -/
def NoWrap (t : PsnTracker) (op : AckOp) : Prop :=
  ∀ psn ∈ op.named, t.basePsn < psn → t.basePsn.inner ≤ psn.inner

/-- The number the call makes the new base, if there is one, is not already acknowledged. -/
def Fresh (t : PsnTracker) : AckOp → Prop
  | .before psn => t.basePsn < psn → ¬ t.acked psn
  | .range psnLow psnHigh => psnLow ≤ t.basePsn → t.basePsn < psnHigh → ¬ t.acked psnHigh
  | _ => True

instance (t : PsnTracker) (op : AckOp) : Decidable (op.InWindow t) :=
  inferInstanceAs (Decidable (∀ _ ∈ _, _))

instance (t : PsnTracker) (op : AckOp) : Decidable (op.NoWrap t) :=
  inferInstanceAs (Decidable (∀ _ ∈ _, _))

instance (t : PsnTracker) (op : AckOp) : Decidable (op.Fresh t) := by
  unfold Fresh
  split <;> infer_instance

end AckOp

/-- The tracker represents `U` exactly, with `B` its base. -/
structure Tracks (t : PsnTracker) (U : Set ℤ) (B : ℤ) : Prop extends Sound t U B where
  complete : ∀ i : ℕ, B + i ∈ U → bit t.inner i = true
  head : bit t.inner 0 = false

theorem tracks_default : Tracks default ∅ 0 where
  toSound := sound_default
  complete _ h := absurd h (notMem_empty _)
  head := rfl

theorem Sound.tracks_tryAdvance {t : PsnTracker} {U : Set ℤ} {B : ℤ} (h : Sound t U B)
    (hc : ∀ i : ℕ, B + i ∈ U → bit t.inner i = true) :
    Tracks t.tryAdvance.1 U (B + firstZeroOrLen t.inner) where
  toSound := h.tryAdvance
  complete i hi := by
    rw [t.bit_tryAdvance]
    refine hc _ ?_
    rwa [Nat.cast_add, add_comm (i : ℤ), ← add_assoc]
  head := by
    rw [t.bit_tryAdvance, Nat.zero_add]
    exact bit_firstZeroOrLen t.inner

namespace Tracks

variable {t : PsnTracker} {U V : Set ℤ} {B : ℤ} {p q : Psn} (h : Tracks t U B)
include h

theorem isFrontier : IsFrontier U B where
  nonneg := h.nonneg
  below := h.below
  notMem hB := by
    have := h.complete 0 (by simpa using hB)
    rw [h.head] at this
    cases this

theorem grow (hUV : U ⊆ V) (hV : ∀ a ∈ V, B ≤ a → a ∈ U) : Tracks t V B where
  toSound := h.toSound.mono hUV
  complete i hi := h.complete i (hV _ hi (by omega))
  head := h.head

theorem rstart_eq_lift (hp : t.basePsn < p → t.basePsn.inner ≤ p.inner) :
    t.rstart p = Psn.lift B p - B := by
  refine (rstart_cases h.base p).resolve_right fun ⟨_, hlt, hin⟩ => ?_
  have := hp (h.base ▸ lt_of_lt_lift hlt)
  omega

theorem ackBefore (hp : t.basePsn < p → t.basePsn.inner ≤ p.inner)
    (hfresh : t.basePsn < p → ¬ t.acked p) (hUV : U ⊆ V) (hV : ∀ a, B ≤ a → a < Psn.lift B p → a ∈ V)
    (hVU : ∀ a ∈ V, B ≤ a → Psn.lift B p ≤ a → a ∈ U) : ∃ B', Tracks (t.ackBefore p).1 V B' := by
  have hr := h.rstart_eq_lift hp
  rcases lt_or_ge (t.rstart p) 0 with hneg | hpos
  · rw [ackBefore_of_neg hneg]
    exact ⟨B, h.grow hUV fun a ha hB => hVU a ha hB (by omega)⟩
  · rw [ackBefore_of_nonneg hpos]
    refine ⟨_, h.toSound.dropBits hpos hUV hV, fun i hi => ?_, ?_⟩
    · rw [bit_dropBits]
      refine h.complete _ ?_
      rw [show B + ((i + (t.rstart p).toNat : ℕ) : ℤ) = Psn.lift B p + i by omega]
      exact hVU _ hi (by omega) (by omega)
    · rw [bit_dropBits, Nat.zero_add]
      rcases hpos.eq_or_lt with h0 | h0
      · rw [← h0]
        exact h.head
      · have hlt : B < Psn.lift B p := by omega
        have hna := hfresh (h.base ▸ lt_of_lt_lift hlt)
        have hoff : (p - t.basePsn).inner = (t.rstart p).toNat := by
          have := Psn.lift_lt B p
          have := Psn.wrap_sub hlt.le (by omega)
          rw [Psn.wrap_lift, ← h.base] at this
          omega
        rw [acked, hoff] at hna
        exact Bool.eq_false_iff.2 hna

theorem lt_lift_of_not_le (hp : ¬ p ≤ t.basePsn) (hw : (p - t.basePsn).inner ≠ 2 ^ 23) :
    B < Psn.lift B p := by
  by_contra hle
  have h₁ := Psn.le_lift B p
  have h₂ : B - Psn.lift B p ≠ 2 ^ 23 := by
    intro he
    have := Circular.fwd_wrap_of_neg (M := 2 ^ 24) (by decide) (a := Psn.lift B p) (b := B)
      (by omega) (by omega)
    rw [← Psn.wrap_inner, ← Psn.wrap_inner, Psn.wrap_lift, ← h.base, ← Psn.sub_inner] at this
    omega
  rw [h.base, ← Psn.wrap_lift B p, Psn.wrap_le_wrap (by omega) (by omega)] at hp
  omega

/-- **A tracker stays exact** under a call that names no number past the wrap and sets no base that
is already acknowledged. -/
theorem apply {op : AckOp} (hin : op.InWindow t) (hw : op.NoWrap t)
    (hf : op.Fresh t) : ∃ B', Tracks (t.apply op).1 (U ∪ op.acks B) B' := by
  cases op with
  | one p =>
    change ∃ B', Tracks (t.ackOne p).1 _ B'
    have hr := h.rstart_eq_lift (hw p (by simp [AckOp.named]))
    rcases lt_or_ge (t.rstart p) 0 with hneg | hpos
    · rw [ackOne_of_neg hneg]
      refine ⟨B, h.grow subset_union_left ?_⟩
      rintro a (ha | rfl) hB
      · exact ha
      · omega
    · rw [ackOne_of_nonneg hpos]
      refine ⟨_, (h.toSound.enterOne hpos).tracks_tryAdvance fun i hi => ?_⟩
      rw [bit_enterOne]
      rcases hi with hi | hi
      · exact Or.inr (h.complete i hi)
      · have := mem_singleton_iff.1 hi
        exact Or.inl (by omega)
  | before p =>
    refine h.ackBefore (hw p (by simp [AckOp.named])) hf subset_union_left
      (fun a _ ha => Or.inr ha) ?_
    rintro a (ha | ha) _ hle
    · exact ha
    · exact absurd ha (not_lt.2 hle)
  | range lo hi =>
    change ∃ B', Tracks (t.ackRange lo hi).1 _ B'
    have hrlo := h.rstart_eq_lift (hw lo (by simp [AckOp.named]))
    have hrhi := h.rstart_eq_lift (hw hi (by simp [AckOp.named]))
    by_cases hle : lo ≤ t.basePsn
    · rw [ackRange_of_le hle]
      have hlo := lift_le_of_le (h.base ▸ hle)
      refine h.ackBefore (hw hi (by simp [AckOp.named])) (hf hle) subset_union_left
        (fun a h₁ h₂ => Or.inr ⟨hlo.trans h₁, h₂⟩) ?_
      rintro a (ha | ha) _ hge
      · exact ha
      · exact absurd ha.2 (not_lt.2 hge)
    have hlt := h.lt_lift_of_not_le hle (hin lo (by simp [AckOp.named]))
    rcases lt_or_ge (t.rstart hi) 0 with hneg | hpos
    · -- the range ends behind the base and starts ahead of it: it is empty
      rw [ackRange_of_neg hle (Or.inr hneg)]
      refine ⟨B, h.grow subset_union_left ?_⟩
      rintro a (ha | ⟨ha₁, ha₂⟩) _
      · exact ha
      · omega
    · rw [ackRange_of_nonneg hle (by omega) hpos]
      refine ⟨B, h.toSound.enterRange (by omega) hpos, fun i hi => ?_, ?_⟩
      · rw [bit_enterRange]
        rcases hi with hi | ⟨h₁, h₂⟩
        · exact Or.inr (h.complete i hi)
        · exact Or.inl (by omega)
      · refine Bool.eq_false_iff.2 fun h0 => ?_
        rcases bit_enterRange.1 h0 with h0 | h0
        · omega
        · rw [h.head] at h0
          cases h0
  | bitmap p bm =>
    change ∃ B', Tracks (t.ackBitmap p bm).1 _ B'
    have hr := h.rstart_eq_lift (hw p (by simp [AckOp.named]))
    rw [ackBitmap_eq]
    refine ⟨_, (h.toSound.enterBitmap p bm).tracks_tryAdvance fun i hi => ?_⟩
    rw [bit_enterBitmap]
    rcases hi with hi | ⟨x, hx, hi⟩
    · exact Or.inr (h.complete i hi)
    · exact Or.inl ⟨x, hx, by omega⟩

end Tracks

/-! ## Runs of calls -/

def PsnTracker.step (t : PsnTracker) (op : AckOp) : Option PsnTracker := some (t.apply op).1

/-- The union of what the calls acknowledge, each read at the first number not acknowledged so
far. -/
noncomputable def ackedBy (ops : List AckOp) : Set ℤ :=
  ops.foldl (fun U op => U ∪ op.acks (frontier U)) ∅

theorem ackedBy_nil : ackedBy [] = ∅ := rfl

theorem ackedBy_concat (ops : List AckOp) (op : AckOp) :
    ackedBy (ops ++ [op]) = ackedBy ops ∪ op.acks (frontier (ackedBy ops)) := by
  rw [ackedBy, List.foldl_append]
  rfl

/-- **A tracker refines the set of acknowledged numbers**: after every run of calls that name no
number past the wrap and set no base that is already acknowledged, the base is the first number not
acknowledged, and a bit is set exactly when its number is acknowledged. -/
theorem run_refines_ackedBy {ops : List AckOp} {t : PsnTracker}
    (h : Run PsnTracker.step (fun t op => op.InWindow t ∧ op.NoWrap t ∧ op.Fresh t) default ops t) :
    IsFrontier (ackedBy ops) (frontier (ackedBy ops)) ∧
      t.basePsn = Psn.wrap (frontier (ackedBy ops)) ∧
      ∀ i < t.inner.length, bit t.inner i = true ↔ frontier (ackedBy ops) + i ∈ ackedBy ops := by
  have ht : Tracks t (ackedBy ops) (frontier (ackedBy ops)) := by
    refine h.invariant (I := fun ops t => Tracks t (ackedBy ops) (frontier (ackedBy ops))) ?_ ?_
    · have h0 := tracks_default
      rwa [← h0.isFrontier.frontier_eq] at h0
    · rintro ops t op _ ih ⟨hin, hw, hf⟩ ⟨⟩
      obtain ⟨B', hB'⟩ := ih.apply hin hw hf
      rw [← ackedBy_concat] at hB'
      rwa [hB'.isFrontier.frontier_eq]
  exact ⟨ht.isFrontier, ht.base, fun i _ => ⟨ht.bits i, ht.complete i⟩⟩

/-- The run theorem at a run that carries the base past the wrap. -/
theorem run_refines_ackedBy_at_wrap :
    ∃ t, Run PsnTracker.step (fun t op => op.InWindow t ∧ op.NoWrap t ∧ op.Fresh t) default
        [.before 0x7fffff, .before 0xfffffe, .one 0xffffff, .bitmap 0xfffffe 0b1001] t ∧
      t.basePsn = 0 ∧
      t.basePsn = Psn.wrap (frontier (ackedBy
        [.before 0x7fffff, .before 0xfffffe, .one 0xffffff, .bitmap 0xfffffe 0b1001])) := by
  have h : ∃ t, exec step (fun t op => op.InWindow t ∧ op.NoWrap t ∧ op.Fresh t) default
      [.before 0x7fffff, .before 0xfffffe, .one 0xffffff, .bitmap 0xfffffe 0b1001] = some t ∧
      t.basePsn = 0 := ⟨_, rfl, by decide +kernel⟩
  obtain ⟨t, ht, h0⟩ := h
  have hrun := Run.of_exec ht
  exact ⟨t, hrun, h0, (run_refines_ackedBy hrun).2.1⟩

theorem ackedBy_concat_eq (ops : List AckOp) {op : AckOp} {U V : Set ℤ} {B : ℤ}
    (hU : ackedBy ops = U) (hB : IsFrontier U B) (hV : ∀ a, a ∈ V ↔ a ∈ U ∨ a ∈ op.acks B) :
    ackedBy (ops ++ [op]) = V := by
  rw [ackedBy_concat, hU, hB.frontier_eq]
  exact (ext hV).symm

theorem isFrontier_lt {B : ℤ} (h : 0 ≤ B) : IsFrontier {a | a < B} B :=
  ⟨h, fun _ _ ha => ha, lt_irrefl B⟩

theorem ackedBy_one_before : ackedBy [.one 1, .before 1] = {a | a < 2} := by
  have h₁ : ackedBy [.one 1] = {a | a = 1} := by
    refine ackedBy_concat_eq [] ackedBy_nil tracks_default.isFrontier fun a => ?_
    simp [AckOp.acks, show Psn.lift 0 1 = 1 by decide +kernel]
  refine ackedBy_concat_eq [_] h₁ (B := 0) ⟨le_rfl, fun a => ?_, by simp⟩ fun a => ?_
  · omega
  · simp only [AckOp.acks, show Psn.lift 0 1 = 1 by decide +kernel, mem_ofPred_eq]
    omega

theorem ackedBy_past_wrap : ackedBy [.before 0x7fffff, .before 0xfffffe, .one 0, .one 0xfffffe,
    .one 0xffffff] =
      {a | a < 0x1000001} := by
  have h₁ : ackedBy [.before 0x7fffff] = {a | a < 0x7fffff} := by
    refine ackedBy_concat_eq [] ackedBy_nil tracks_default.isFrontier fun a => ?_
    simp [AckOp.acks, show Psn.lift 0 0x7fffff = 0x7fffff by decide +kernel]
  have h₂ : ackedBy [.before 0x7fffff, .before 0xfffffe] = {a | a < 0xfffffe} := by
    refine ackedBy_concat_eq [_] h₁ (isFrontier_lt (by decide)) fun a => ?_
    simp only [AckOp.acks, show Psn.lift 0x7fffff 0xfffffe = 0xfffffe by decide +kernel,
      mem_ofPred_eq]
    omega
  have h₃ : ackedBy [.before 0x7fffff, .before 0xfffffe, .one 0] =
      {a | a < 0xfffffe ∨ a = 0x1000000} := by
    refine ackedBy_concat_eq [_, _] h₂ (isFrontier_lt (by decide)) fun a => ?_
    simp [AckOp.acks, show Psn.lift 0xfffffe 0 = 0x1000000 by decide +kernel]
  have h₄ : ackedBy [.before 0x7fffff, .before 0xfffffe, .one 0, .one 0xfffffe] =
      {a | a < 0xffffff ∨ a = 0x1000000} := by
    refine ackedBy_concat_eq [_, _, _] h₃ (B := 0xfffffe)
      ⟨by decide, fun a _ ha => Or.inl ha, by simp⟩ fun a => ?_
    simp only [AckOp.acks, show Psn.lift 0xfffffe 0xfffffe = 0xfffffe by decide +kernel,
      mem_ofPred_eq, mem_singleton_iff]
    omega
  refine ackedBy_concat_eq [_, _, _, _] h₄ (B := 0xffffff)
    ⟨by decide, fun a _ ha => Or.inl ha, by simp⟩ fun a => ?_
  simp only [AckOp.acks, show Psn.lift 0xffffff 0xffffff = 0xffffff by decide +kernel,
    mem_ofPred_eq, mem_singleton_iff]
  omega

/-- The tracker stops short of the first number not acknowledged: `ack_before` does not advance over
numbers acknowledged out of order, and a number past the wrap is dropped. -/
theorem run_misses_acked :
    (∃ t, Run PsnTracker.step (fun t op => op.InWindow t) default [.one 1, .before 1] t ∧
        t.basePsn = 1 ∧ IsFrontier (ackedBy [.one 1, .before 1]) 2) ∧
      ∃ t, Run PsnTracker.step (fun t op => op.InWindow t) default
          [.before 0x7fffff, .before 0xfffffe, .one 0, .one 0xfffffe, .one 0xffffff] t ∧
        t.basePsn = 0 ∧
        IsFrontier (ackedBy
          [.before 0x7fffff, .before 0xfffffe, .one 0, .one 0xfffffe, .one 0xffffff])
          0x1000001 := by
  refine ⟨⟨_, Run.of_exec rfl, by decide +kernel, ?_⟩, ⟨_, Run.of_exec rfl, by decide +kernel, ?_⟩⟩
  · rw [ackedBy_one_before]
    exact isFrontier_lt (by decide)
  · rw [ackedBy_past_wrap]
    exact isFrontier_lt (by decide)

end OpenRdma.Driver
