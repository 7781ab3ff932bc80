import Mathlib.Data.Int.Basic
import Mathlib.Data.Int.ConditionallyCompleteOrder
import Mathlib.Order.ConditionallyCompleteLattice.Basic
import Mathlib.Tactic.Linarith
import Mathlib.Tactic.Ring

/-!
# Sequence numbers on a circle

A counter of unbounded value travels as its residue modulo `M`. This module relates the two.

* `wrap M a` is the residue of the integer `a`, and `fwd M x y` the distance from the residue `y`
  forward to the residue `x`; `fwd_wrap` computes it from the integers.
* `Before M x y` is the order a receiver can decide: `x` is before `y` when going forward from `y`
  to `x` takes more than half of the circle. It is the order of the integers as long as they are at
  most half a circle apart (`before_wrap_iff`). `cmp` is the comparison that comes with it.
* `lift M b x` is the integer with residue `x` nearest to `b`, which is how a party that knows `b`
  reads a residue (`lift_wrap`, `wrap_lift`).
* `frontier U` is the cumulative acknowledgement of a set of numbers: the first one from zero on
  that is not in the set.
-/

namespace OpenRdma.Circular

variable {M : ℕ}
variable {a b : ℤ}

/-! ## Residues -/

/-- A number on a circle of `M`. -/
def wrap (M : ℕ) (a : ℤ) : ℕ := (a % M).toNat

theorem cast_wrap (hM : 0 < M) (a : ℤ) : (wrap M a : ℤ) = a % M :=
  Int.toNat_of_nonneg (Int.emod_nonneg _ (by omega))

theorem wrap_lt (hM : 0 < M) (a : ℤ) : wrap M a < M := by
  have h := Int.emod_lt_of_pos a (b := M) (by omega)
  rw [← cast_wrap hM a] at h
  exact_mod_cast h

theorem wrap_natCast {x : ℕ} (hx : x < M) : wrap M (x : ℤ) = x := by
  unfold wrap
  rw [Int.emod_eq_of_lt (by omega) (by omega), Int.toNat_natCast]

theorem wrap_add_natCast (hM : 0 < M) (a : ℤ) (n : ℕ) : (wrap M a + n) % M = wrap M (a + n) := by
  apply Int.ofNat_inj.mp
  push_cast
  rw [cast_wrap hM, cast_wrap hM, Int.emod_add_emod]

theorem wrap_inj (hM : 0 < M) (h : wrap M a = wrap M b) (h₁ : a - b < M) (h₂ : b - a < M) :
    a = b := by
  have he : a % M = b % M := by rw [← cast_wrap hM, ← cast_wrap hM, h]
  have hd : (a - b) % M = 0 := Int.emod_eq_emod_iff_emod_sub_eq_zero.mp he
  obtain ⟨k, hk⟩ := Int.dvd_of_emod_eq_zero hd
  have hk₁ : k < 1 := by nlinarith
  have hk₂ : -1 < k := by nlinarith
  have hk₀ : k = 0 := by omega
  rw [hk₀] at hk
  omega

/-! ## The forward distance -/

/-- The distance from the residue `y` forward to the residue `x`. -/
def fwd (M x y : ℕ) : ℕ := (M + x - y) % M

theorem fwd_lt (hM : 0 < M) (x y : ℕ) : fwd M x y < M := Nat.mod_lt _ hM

theorem fwd_wrap (hM : 0 < M) (a b : ℤ) : (fwd M (wrap M a) (wrap M b) : ℤ) = (a - b) % M := by
  have hb := wrap_lt hM b
  unfold fwd
  rw [Int.natCast_emod, Int.natCast_sub (by omega)]
  push_cast
  rw [cast_wrap hM, cast_wrap hM, show M + a % M - b % M = a % M - b % M + M by ring,
    Int.add_emod_right, ← Int.sub_emod]

theorem fwd_wrap_of_nonneg (hM : 0 < M) (h₁ : b ≤ a) (h₂ : a - b < M) :
    (fwd M (wrap M a) (wrap M b) : ℤ) = a - b := by
  rw [fwd_wrap hM, Int.emod_eq_of_lt (by omega) h₂]

theorem fwd_wrap_of_neg (hM : 0 < M) (h₁ : a < b) (h₂ : b - a ≤ M) :
    (fwd M (wrap M a) (wrap M b) : ℤ) = a - b + M := by
  rw [fwd_wrap hM, ← Int.add_emod_right, Int.emod_eq_of_lt (by omega) (by omega)]

/-! ## The order -/

/-- `x` is before `y`: the way forward from `y` to `x` is more than half of the circle. -/
def Before (M x y : ℕ) : Prop := M / 2 < fwd M x y

instance (M x y : ℕ) : Decidable (Before M x y) := inferInstanceAs (Decidable (_ < _))

/-- **The order of the residues is the order of the integers** within half a circle. -/
theorem before_wrap_iff (hM : 0 < M) (h₁ : b - a < (M - M / 2 : ℕ)) (h₂ : a - b ≤ (M / 2 : ℕ)) :
    Before M (wrap M a) (wrap M b) ↔ a < b := by
  unfold Before
  rcases lt_or_ge a b with h | h
  · have := fwd_wrap_of_neg hM h (by omega)
    exact ⟨fun _ => h, fun _ => by omega⟩
  · have := fwd_wrap_of_nonneg hM h (by omega)
    exact ⟨fun _ => by omega, fun _ => by omega⟩

theorem not_before_wrap (hM : 0 < M) (h₁ : b ≤ a) (h₂ : a - b ≤ (M / 2 : ℕ)) :
    ¬ Before M (wrap M a) (wrap M b) := by
  unfold Before
  rcases eq_or_ne (M : ℤ) 1 with h | h
  · have := fwd_lt hM (wrap M a) (wrap M b)
    omega
  · have := fwd_wrap_of_nonneg hM h₁ (by omega)
    omega

/-- The comparison of residues: equal, before, or after. -/
def cmp (M x y : ℕ) : Ordering :=
  if fwd M x y = 0 then .eq else if M / 2 < fwd M x y then .lt else .gt

/-- **The comparison is that of the integers** less than half a circle apart. -/
theorem cmp_wrap (hM : 0 < M) (h₁ : b - a < (M - M / 2 : ℕ)) (h₂ : a - b ≤ (M / 2 : ℕ))
    (h₃ : a - b < M) : cmp M (wrap M a) (wrap M b) = compare a b := by
  unfold cmp
  rcases lt_trichotomy a b with h | rfl | h
  · have := fwd_wrap_of_neg hM h (by omega)
    rw [if_neg (by omega), if_pos (by omega), compare_lt_iff_lt.2 h]
  · have := fwd_wrap_of_nonneg hM (le_refl a) (by omega)
    rw [if_pos (by omega), compare_eq_iff_eq.2 rfl]
  · have := fwd_wrap_of_nonneg hM h.le h₃
    rw [if_neg (by omega), if_neg (by omega), compare_gt_iff_gt.2 h]

theorem cmp_wrap_opposite {H : ℕ} (hH : 0 < H) (a : ℤ) :
    cmp (2 * H) (wrap (2 * H) a) (wrap (2 * H) (a + H)) = .gt ∧
      cmp (2 * H) (wrap (2 * H) (a + H)) (wrap (2 * H) a) = .gt := by
  have h₁ := fwd_wrap_of_neg (M := 2 * H) (a := a) (b := a + H) (by omega) (by omega)
    (by push_cast; omega)
  have h₂ := fwd_wrap_of_nonneg (M := 2 * H) (a := a + H) (b := a) (by omega) (by omega)
    (by push_cast; omega)
  unfold cmp
  exact ⟨by rw [if_neg (by omega), if_neg (by omega)], by rw [if_neg (by omega), if_neg (by omega)]⟩

/-! ## Reading a residue near a known integer -/

/-- The integer with residue `x` in the half-open circle around `b`. -/
def lift (M : ℕ) (b : ℤ) (x : ℕ) : ℤ :=
  if fwd M x (wrap M b) < M / 2 then b + fwd M x (wrap M b) else b + fwd M x (wrap M b) - M

theorem lift_wrap (hM : 0 < M) (h₁ : b - a ≤ (M - M / 2 : ℕ)) (h₂ : a - b < (M / 2 : ℕ)) :
    lift M b (wrap M a) = a := by
  unfold lift
  rcases lt_or_ge a b with h | h
  · have := fwd_wrap_of_neg hM h (by omega)
    omega
  · have := fwd_wrap_of_nonneg hM h (by omega)
    omega

theorem wrap_lift (hM : 0 < M) (b : ℤ) {x : ℕ} (hx : x < M) : wrap M (lift M b x) = x := by
  have hf := fwd_wrap hM x b
  rw [wrap_natCast hx] at hf
  apply Int.ofNat_inj.mp
  rw [cast_wrap hM, show (x : ℤ) = x % M from (Int.emod_eq_of_lt (by omega) (by omega)).symm]
  unfold lift
  split <;> rw [hf]
  · rw [Int.add_emod_emod, add_sub_cancel]
  · rw [Int.sub_emod_right, Int.add_emod_emod, add_sub_cancel]

theorem lift_lt (hM : 0 < M) (b : ℤ) (x : ℕ) : lift M b x - b < (M / 2 : ℕ) := by
  have := fwd_lt hM x (wrap M b)
  unfold lift
  split <;> omega

theorem le_lift (b : ℤ) (x : ℕ) : b - lift M b x ≤ (M - M / 2 : ℕ) := by
  unfold lift
  split <;> omega

end OpenRdma.Circular

namespace OpenRdma

/-! ## The first number that is missing -/

/-- `B` is the first number from zero on that is not in `U`. -/
structure IsFrontier (U : Set ℤ) (B : ℤ) : Prop where
  nonneg : 0 ≤ B
  below : ∀ a, 0 ≤ a → a < B → a ∈ U
  notMem : B ∉ U

/-- The first number from zero on that is not in `U`. -/
noncomputable def frontier (U : Set ℤ) : ℤ := sInf {a : ℤ | 0 ≤ a ∧ a ∉ U}

theorem IsFrontier.isLeast {U : Set ℤ} {B : ℤ} (h : IsFrontier U B) :
    IsLeast {a : ℤ | 0 ≤ a ∧ a ∉ U} B := by
  refine ⟨⟨h.nonneg, h.notMem⟩, fun a ha => ?_⟩
  by_contra hlt
  exact ha.2 (h.below a ha.1 (not_le.1 hlt))

theorem IsFrontier.frontier_eq {U : Set ℤ} {B : ℤ} (h : IsFrontier U B) : frontier U = B :=
  h.isLeast.csInf_eq

end OpenRdma
