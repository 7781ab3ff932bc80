import Mathlib.Data.List.Nodup
import Mathlib.Data.Nat.Bitwise
import OpenRdma.Foundations.Circular

/-!
# Packet and message sequence numbers

`Psn` and `Msn` of the driver. Both are compared on a circle, a packet sequence number of 24 bits
in a `u32` and a message sequence number of 16 bits, and both comparisons are `Circular.Before`
(`Psn.lt_iff`, `Msn.lt_iff`). `Psn.wrap a` and `Msn.wrap a` are the wire values of the unbounded
number `a`; the lemmas about them say that the masked arithmetic of the source is the arithmetic
of the unbounded numbers, and its comparisons are theirs within half a circle.
-/

namespace OpenRdma.Driver

open Circular

/-! ## Machine arithmetic -/

def wrappingAdd32 (a b : ℕ) : ℕ := (a + b) % 2 ^ 32

def wrappingSub32 (a b : ℕ) : ℕ := (2 ^ 32 + a - b) % 2 ^ 32

def wrappingAdd16 (a b : ℕ) : ℕ := (a + b) % 2 ^ 16

def wrappingSub16 (a b : ℕ) : ℕ := (2 ^ 16 + a - b) % 2 ^ 16

def maxPsnSizeBits : ℕ := 24

def maxPsnWindow : ℕ := 1 <<< (maxPsnSizeBits - 1)

def psnMask : ℕ := (1 <<< maxPsnSizeBits) - 1

def maxSendWr : ℕ := 0x8000

@[simp] theorem maxPsnWindow_eq : maxPsnWindow = 2 ^ 23 := rfl

theorem and_psnMask (x : ℕ) : x &&& psnMask = x % 2 ^ 24 :=
  Nat.and_two_pow_sub_one_eq_mod x 24

/-! ## Packet sequence numbers -/

/-- `Psn(u32)`. The values come from 24-bit descriptor fields and from the masked operations below,
so they are below `2 ^ 24`. -/
@[ext] structure Psn where
  inner : ℕ
  inner_lt : inner < 2 ^ 24
  deriving DecidableEq

namespace Psn

variable {p : Psn} {a b : ℤ}

instance : Inhabited Psn := ⟨⟨0, by decide⟩⟩

/-- The value of a `u32` masked to 24 bits. -/
def ofMasked (x : ℕ) : Psn := ⟨x &&& psnMask, by rw [and_psnMask]; exact Nat.mod_lt _ (by decide)⟩

@[simp] theorem ofMasked_inner (x : ℕ) : (ofMasked x).inner = x % 2 ^ 24 := and_psnMask x

instance : OfNat Psn n := ⟨ofMasked n⟩

instance : HAdd Psn ℕ Psn := ⟨fun p n => ofMasked (wrappingAdd32 p.inner n)⟩

instance : HSub Psn ℕ Psn := ⟨fun p n => ofMasked (wrappingSub32 p.inner n)⟩

instance : HSub Psn Psn Psn := ⟨fun p q => ofMasked (wrappingSub32 p.inner q.inner)⟩

theorem add_inner (p : Psn) (n : ℕ) : (p + n).inner = (p.inner + n) % 2 ^ 24 := by
  change (ofMasked (wrappingAdd32 p.inner n)).inner = _
  rw [ofMasked_inner, wrappingAdd32]
  omega

theorem add_zero (p : Psn) : p + 0 = p :=
  Psn.ext (by rw [add_inner, Nat.add_zero, Nat.mod_eq_of_lt p.inner_lt])

theorem add_add (p : Psn) (m n : ℕ) : p + m + n = p + (m + n) :=
  Psn.ext (by rw [add_inner, add_inner, add_inner, Nat.mod_add_mod, Nat.add_assoc])

theorem add_inj {m n : ℕ} (hm : m < 2 ^ 24) (hn : n < 2 ^ 24) (h : p + m = p + n) : m = n := by
  have := congrArg inner h
  rw [add_inner, add_inner] at this
  omega

theorem nodup_map_add {n : ℕ} (hn : n ≤ 2 ^ 24) : ((List.range n).map (p + ·)).Nodup := by
  refine List.Nodup.map_on (fun i hi j hj h => ?_) List.nodup_range
  rw [List.mem_range] at hi hj
  exact add_inj (by omega) (by omega) h

theorem sub_inner (p q : Psn) : (p - q).inner = fwd (2 ^ 24) p.inner q.inner := by
  change (ofMasked (wrappingSub32 p.inner q.inner)).inner = _
  have hq := q.inner_lt
  rw [ofMasked_inner, wrappingSub32, fwd]
  omega

/-- Numbers up to half a circle ahead are greater. -/
def cmp (p q : Psn) : Ordering :=
  let x := wrappingSub32 p.inner q.inner &&& psnMask
  if x = 0 then .eq else if x > maxPsnWindow then .lt else .gt

instance : LT Psn := ⟨fun p q => p.cmp q = .lt⟩

instance : LE Psn := ⟨fun p q => p.cmp q ≠ .gt⟩

instance (p q : Psn) : Decidable (p < q) := inferInstanceAs (Decidable (_ = _))

instance (p q : Psn) : Decidable (p ≤ q) := inferInstanceAs (Decidable (_ ≠ _))

theorem masked_sub (p q : Psn) : wrappingSub32 p.inner q.inner &&& psnMask =
    fwd (2 ^ 24) p.inner q.inner :=
  sub_inner p q

theorem lt_iff {q : Psn} : p < q ↔ Before (2 ^ 24) p.inner q.inner := by
  change p.cmp q = .lt ↔ _
  unfold cmp Before
  rw [masked_sub, maxPsnWindow_eq]
  dsimp only
  split_ifs with h₁ h₂
  · simp only [false_iff]
    omega
  · simp only [true_iff]
    omega
  · simp only [false_iff]
    omega

theorem le_iff {q : Psn} : p ≤ q ↔ p = q ∨ p < q := by
  have hp := p.inner_lt
  have hq := q.inner_lt
  rw [lt_iff]
  change p.cmp q ≠ .gt ↔ _
  unfold cmp Before
  rw [masked_sub, maxPsnWindow_eq, Psn.ext_iff]
  unfold fwd
  dsimp only
  split_ifs <;> simp only [reduceCtorEq, ne_eq, not_false_eq_true, not_true_eq_false, true_iff,
    false_iff] <;> omega

/-! ### Wire values of unbounded numbers -/

/-- The packet sequence number of the unbounded number `a`. -/
def wrap (a : ℤ) : Psn := ⟨Circular.wrap (2 ^ 24) a, wrap_lt (by decide) a⟩

@[simp] theorem wrap_inner (a : ℤ) : (wrap a).inner = Circular.wrap (2 ^ 24) a := rfl

theorem wrap_add (a : ℤ) (n : ℕ) : wrap a + n = wrap (a + n) :=
  Psn.ext (by rw [add_inner]; exact wrap_add_natCast (by decide) a n)

theorem wrap_inj (h : wrap a = wrap b) (h₁ : a - b < 2 ^ 24) (h₂ : b - a < 2 ^ 24) : a = b :=
  Circular.wrap_inj (by decide) (congrArg inner h) (by omega) (by omega)

theorem wrap_sub (h₁ : b ≤ a) (h₂ : a - b < 2 ^ 24) : ((wrap a - wrap b).inner : ℤ) = a - b := by
  rw [sub_inner]
  exact fwd_wrap_of_nonneg (by decide) h₁ (by omega)

theorem wrap_sub_of_lt (h₁ : a < b) (h₂ : b - a ≤ 2 ^ 24) :
    ((wrap a - wrap b).inner : ℤ) = a - b + 2 ^ 24 := by
  rw [sub_inner]
  exact fwd_wrap_of_neg (by decide) h₁ (by omega)

/-- **Packet sequence numbers compare like the unbounded numbers** within half a circle. -/
theorem wrap_lt_wrap (h₁ : b - a < 2 ^ 23) (h₂ : a - b ≤ 2 ^ 23) : wrap a < wrap b ↔ a < b := by
  rw [lt_iff]
  exact before_wrap_iff (by decide) (by omega) (by omega)

theorem wrap_le_wrap (h₁ : b - a < 2 ^ 23) (h₂ : a - b ≤ 2 ^ 23) : wrap a ≤ wrap b ↔ a ≤ b := by
  rw [le_iff, wrap_lt_wrap h₁ h₂]
  refine ⟨?_, fun h => ?_⟩
  · rintro (h | h)
    · exact (wrap_inj h (by omega) (by omega)).le
    · exact h.le
  · rcases h.eq_or_lt with rfl | h
    · exact Or.inl rfl
    · exact Or.inr h

theorem not_wrap_lt_wrap (h₁ : b ≤ a) (h₂ : a - b ≤ 2 ^ 23) : ¬ wrap a < wrap b := by
  rw [lt_iff]
  exact not_before_wrap (by decide) h₁ (by omega)

/-- The unbounded number a packet sequence number stands for when it is known to be near `b`. -/
def lift (b : ℤ) (p : Psn) : ℤ := Circular.lift (2 ^ 24) b p.inner

@[simp] theorem wrap_lift (b : ℤ) (p : Psn) : wrap (lift b p) = p :=
  Psn.ext (Circular.wrap_lift (by decide) b p.inner_lt)

theorem lift_wrap (h₁ : b - a ≤ 2 ^ 23) (h₂ : a - b < 2 ^ 23) : lift b (wrap a) = a :=
  Circular.lift_wrap (by decide) (by omega) (by omega)

theorem lift_lt (b : ℤ) (p : Psn) : lift b p - b < 2 ^ 23 := by
  have := Circular.lift_lt (M := 2 ^ 24) (by decide) b p.inner
  unfold lift
  omega

theorem le_lift (b : ℤ) (p : Psn) : b - lift b p ≤ 2 ^ 23 := by
  have := Circular.le_lift (M := 2 ^ 24) b p.inner
  unfold lift
  omega

end Psn

/-! ## Message sequence numbers -/

/-- A message sequence number, of 16 bits. -/
@[ext] structure Msn where
  inner : ℕ
  inner_lt : inner < 2 ^ 16
  deriving DecidableEq

namespace Msn

instance : Inhabited Msn := ⟨⟨0, by decide⟩⟩

instance : OfNat Msn n := ⟨⟨n % 2 ^ 16, Nat.mod_lt _ (by decide)⟩⟩

/-- `u16::wrapping_add` on the number of a message. -/
def wrappingAdd (m : Msn) (n : ℕ) : Msn := ⟨wrappingAdd16 m.inner n, Nat.mod_lt _ (by decide)⟩

def distance (m n : Msn) : ℕ := wrappingSub16 m.inner n.inner

/-- `Msn::partial_cmp`, which is total. -/
def partialCmp (m n : Msn) : Ordering :=
  let x := wrappingSub16 m.inner n.inner
  if x = 0 then .eq else if x > maxSendWr then .lt else .gt

instance : LT Msn := ⟨fun m n => m.partialCmp n = .lt⟩

instance (m n : Msn) : Decidable (m < n) := inferInstanceAs (Decidable (_ = _))

theorem lt_iff {m n : Msn} : m < n ↔ Before (2 ^ 16) m.inner n.inner := by
  change m.partialCmp n = .lt ↔ _
  unfold partialCmp Before wrappingSub16 maxSendWr
  change _ ↔ _ < (2 ^ 16 + m.inner - n.inner) % 2 ^ 16
  dsimp only
  split_ifs with h₁ h₂
  · simp only [false_iff]
    omega
  · simp only [true_iff]
    omega
  · simp only [false_iff]
    omega

/-- The message sequence number of the unbounded number `a`. -/
def wrap (a : ℤ) : Msn := ⟨Circular.wrap (2 ^ 16) a, wrap_lt (by decide) a⟩

theorem wrappingAdd_wrap (a : ℤ) (n : ℕ) : (wrap a).wrappingAdd n = wrap (a + n) :=
  Msn.ext (wrap_add_natCast (by decide) a n)

theorem wrap_eq_wrap_iff {a b : ℤ} : wrap a = wrap b ↔ a % 2 ^ 16 = b % 2 ^ 16 := by
  refine Msn.ext_iff.trans ?_
  change (a % (2 ^ 16 : ℕ)).toNat = (b % (2 ^ 16 : ℕ)).toNat ↔ _
  omega

theorem wrap_inj {a b : ℤ} (h : wrap a = wrap b) (h₁ : a - b < 2 ^ 16) (h₂ : b - a < 2 ^ 16) :
    a = b :=
  Circular.wrap_inj (by decide) (congrArg inner h) (by omega) (by omega)

theorem distance_wrap {a b : ℤ} (h₁ : b ≤ a) (h₂ : a - b < 2 ^ 16) :
    ((wrap a).distance (wrap b) : ℤ) = a - b :=
  fwd_wrap_of_nonneg (by decide) h₁ (by omega)

/-- **Message sequence numbers compare like the unbounded numbers** within half a circle. -/
theorem wrap_lt_wrap {a b : ℤ} (h₁ : b - a < 2 ^ 15) (h₂ : a - b ≤ 2 ^ 15) :
    wrap a < wrap b ↔ a < b := by
  rw [lt_iff]
  exact before_wrap_iff (by decide) (by omega) (by omega)

end Msn

end OpenRdma.Driver
