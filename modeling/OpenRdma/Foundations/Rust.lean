import Mathlib.Data.BitVec
import Mathlib.Data.List.Basic
import Mathlib.Data.Nat.Bitwise
import Mathlib.Tactic.Linarith

/-!
# Integers and iterators of Rust

The operations of fixed-width unsigned integers are on natural numbers (`Word`). One that traps on
overflow returns an `Option`. An iterator is a function `next` from a state: it fails, or it is at
the end, or it yields an item and the next state. `Iterator.collect next n s` is the list of its
first `n` items, and `Drains next s as` says that `as` are all of them.
-/

namespace OpenRdma.Word

/-- The bitwise complement of a `w`-bit word. -/
def compl (w x : ℕ) : ℕ := 2 ^ w - 1 - x

/-- Addition that fails on overflow of `w` bits. -/
def checkedAdd (w a b : ℕ) : Option ℕ := if a + b < 2 ^ w then some (a + b) else none

/-- Subtraction that fails below zero. -/
def checkedSub (a b : ℕ) : Option ℕ := if b ≤ a then some (a - b) else none

/-- Addition that stops at the largest `w`-bit word. -/
def saturatingAdd (w a b : ℕ) : ℕ := min (a + b) (2 ^ w - 1)

def divCeil (a b : ℕ) : ℕ := (a + b - 1) / b

theorem checkedAdd_of_lt {w a b : ℕ} (h : a + b < 2 ^ w) : checkedAdd w a b = some (a + b) :=
  if_pos h

theorem checkedAdd_of_le {w a b : ℕ} (h : 2 ^ w ≤ a + b) : checkedAdd w a b = none :=
  if_neg (by omega)

theorem checkedSub_of_le {a b : ℕ} (h : b ≤ a) : checkedSub a b = some (a - b) := if_pos h

theorem checkedSub_getD (a b : ℕ) : (checkedSub a b).getD a = if b ≤ a then a - b else a := by
  unfold checkedSub
  split_ifs <;> rfl

theorem testBit_two_pow_sub_two_pow {w k : ℕ} (hk : k ≤ w) (i : ℕ) :
    (2 ^ w - 2 ^ k).testBit i = (decide (k ≤ i) && decide (i < w)) := by
  rw [show 2 ^ w - 2 ^ k = 2 ^ k * (2 ^ (w - k) - 1) by
    rw [Nat.mul_sub, ← pow_add, Nat.add_sub_cancel' hk, mul_one], Nat.testBit_two_pow_mul,
    Nat.testBit_two_pow_sub_one]
  by_cases h : k ≤ i
  · simp only [h, decide_true, Bool.true_and]
    exact decide_eq_decide.2 (by omega)
  · simp [h]

/-- **Masking with an aligned complement rounds down.** -/
theorem and_compl_two_pow {w k x : ℕ} (hx : x < 2 ^ w) (hk : k ≤ w) :
    x &&& compl w (2 ^ k - 1) = x - x % 2 ^ k := by
  have hpos : 0 < 2 ^ k := Nat.two_pow_pos k
  rw [compl, show 2 ^ w - 1 - (2 ^ k - 1) = 2 ^ w - 2 ^ k by omega,
    show x - x % 2 ^ k = 2 ^ k * (x / 2 ^ k) by
      have := Nat.div_add_mod x (2 ^ k)
      omega]
  apply Nat.eq_of_testBit_eq
  intro i
  rw [Nat.testBit_and, testBit_two_pow_sub_two_pow hk, Nat.testBit_two_pow_mul,
    Nat.testBit_div_two_pow]
  by_cases h : k ≤ i
  · rw [Nat.sub_add_cancel h]
    by_cases hi : i < w
    · simp [h, hi]
    · have : x.testBit i = false :=
        Nat.testBit_lt_two_pow (lt_of_lt_of_le hx (Nat.pow_le_pow_right (by decide) (by omega)))
      simp [this]
  · simp [h]

theorem eq_or_lt_of_lt_add_one {w : ℕ} {ptr row : BitVec w}
    (h : ptr = BitVec.allOnes w ∨ row < ptr + 1) : row = ptr ∨ row < ptr := by
  rw [← BitVec.toNat_inj, BitVec.lt_def]
  rcases h with rfl | h
  · rw [BitVec.toNat_allOnes]
    omega
  · have hle := Nat.mod_le (ptr.toNat + 1 % 2 ^ w) (2 ^ w)
    have hone := Nat.mod_le 1 (2 ^ w)
    change row.toNat < (ptr.toNat + 1 % 2 ^ w) % 2 ^ w at h
    omega

end OpenRdma.Word

namespace OpenRdma.Iterator

open Option

variable {ι α : Type*} {next : ι → Option (Option (α × ι))}

/-- The first `n` items, if the iterator does not fail. -/
def collect (next : ι → Option (Option (α × ι))) : ℕ → ι → Option (List α)
  | 0, _ => some []
  | n + 1, s => (next s).bind fun item => item.elim (some []) fun p =>
      (collect next n p.2).map (p.1 :: ·)

theorem collect_of_end {s : ι} (h : next s = some none) (n : ℕ) : collect next n s = some [] := by
  cases n with
  | zero => rfl
  | succ n => rw [collect, h, bind_some, elim_none]

theorem collect_of_fail {s : ι} (h : next s = none) (n : ℕ) : collect next (n + 1) s = none := by
  rw [collect, h, bind_none]

theorem collect_of_item {s s' : ι} {a : α} (h : next s = some (some (a, s'))) (n : ℕ) :
    collect next (n + 1) s = (collect next n s').map (a :: ·) := by
  rw [collect, h, bind_some, elim_some]

/-- Those of the first `n` items that come before the iterator fails. -/
def yields (next : ι → Option (Option (α × ι))) : ℕ → ι → List α
  | 0, _ => []
  | n + 1, s => ((next s).getD none).elim [] fun p => p.1 :: yields next n p.2

theorem yields_of_collect {n : ℕ} {s : ι} {as : List α} (h : collect next n s = some as) :
    yields next n s = as := by
  induction n generalizing s as with
  | zero => exact some.inj h
  | succ n ih =>
    rw [yields]
    rcases hn : next s with _ | _ | ⟨a, s'⟩
    · rw [collect_of_fail hn] at h
      cases h
    · rw [collect_of_end hn] at h
      exact some.inj h
    · rw [collect_of_item hn] at h
      obtain ⟨bs, hbs, rfl⟩ := map_eq_some_iff.1 h
      exact congrArg (a :: ·) (ih hbs)

/-- The iterator yields the items of the list and is then at the end. -/
inductive Drains (next : ι → Option (Option (α × ι))) : ι → List α → Prop
  | nil {s : ι} (h : next s = some none) : Drains next s []
  | cons {s s' : ι} {a : α} {as : List α} (h : next s = some (some (a, s')))
      (hs' : Drains next s' as) :
    Drains next s (a :: as)

end OpenRdma.Iterator
