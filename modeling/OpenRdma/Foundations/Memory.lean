import Mathlib.Data.List.Basic
import Mathlib.Data.Nat.Bitwise
import Mathlib.Logic.Function.Basic

/-!
# Ranges and rings in a memory

A memory is a function from addresses. `overwrite m a xs` writes a list from the address `a` on,
`readAt m a n` reads `n` entries, and `HoldsAt m a xs` says that `xs` is what stands there.

In a ring the item with number `n` is in the slot of `n`. Two items have the same slot only if at
least `size` numbers are between them. `RingSlots.Holds` says that the items from `lo` on are in
their slots; it is kept if an item is added (`Holds.push`) or removed (`Holds.pop`), and if a slot
outside is written (`Holds.update_outside`). Pointers into a ring are numbers modulo a power of two
(`toNat_ofNat_sub_ofNat`).
-/

namespace OpenRdma

section

open List

variable {α : Type*} {m : ℕ → α} {a b : ℕ} {xs ys : List α}

/-- `m` with `xs` written from `a` on. -/
def overwrite (m : ℕ → α) (a : ℕ) (xs : List α) : ℕ → α :=
  fun x => if a ≤ x then (xs[x - a]?).getD (m x) else m x

/-- The `n` entries from `a` on. -/
def readAt (m : ℕ → α) (a n : ℕ) : List α := (List.range n).map fun j => m (a + j)

/-- The memory holds `xs` from `a` on. -/
def HoldsAt (m : ℕ → α) (a : ℕ) (xs : List α) : Prop := ∀ j x, xs[j]? = some x → m (a + j) = x

theorem holdsAt_nil (m : ℕ → α) (a : ℕ) : HoldsAt m a [] := fun _ _ h => absurd h (by simp)

theorem overwrite_add (m : ℕ → α) (a j : ℕ) (xs : List α) :
    overwrite m a xs (a + j) = (xs[j]?).getD (m (a + j)) := by
  rw [overwrite, if_pos (Nat.le_add_right a j), Nat.add_sub_cancel_left]

theorem overwrite_of_notMem {x : ℕ} (h : x < a ∨ a + xs.length ≤ x) : overwrite m a xs x = m x := by
  rw [overwrite]
  split_ifs with hle
  · rw [getElem?_eq_none (by omega), Option.getD_none]
  · rfl

theorem HoldsAt.overwrite_disjoint (h : HoldsAt m a xs) (hd : a + xs.length ≤ b ∨
    b + ys.length ≤ a) : HoldsAt (overwrite m b ys) a xs := by
  intro j x hj
  obtain ⟨hlt, -⟩ := List.getElem?_eq_some_iff.1 hj
  rw [overwrite_of_notMem (by omega), h j x hj]

theorem HoldsAt.overwrite_append (h : HoldsAt m a xs) (ys : List α) :
    HoldsAt (overwrite m (a + xs.length) ys) a (xs ++ ys) := by
  intro j x hj
  rcases Nat.lt_or_ge j xs.length with hlt | hge
  · rw [getElem?_append_left hlt] at hj
    rw [overwrite_of_notMem (by omega), h j x hj]
  · rw [getElem?_append_right hge] at hj
    rw [show a + j = a + xs.length + (j - xs.length) by omega, overwrite_add, hj, Option.getD_some]

theorem HoldsAt.readAt_eq (h : HoldsAt m a xs) : readAt m a xs.length = xs := by
  refine ext_getElem (by simp [readAt]) fun j hj hj' => ?_
  simp only [readAt, getElem_map, getElem_range]
  exact h j _ (getElem?_eq_getElem hj')

end

/-! ## Rings of slots -/

/-- A ring of slots: any `size` consecutive numbers have different slots. -/
structure RingSlots (ι : Type*) where
  size : ℕ
  slot : ℕ → ι
  slot_ne : ∀ {m n : ℕ}, m < n → n < m + size → slot m ≠ slot n

namespace RingSlots

variable {ι α : Type*} (r : RingSlots ι) {mem : ι → α} {lo n : ℕ} {x y : α} {items : List α}

/-- The items are in the slots from `lo` on. -/
def Holds (mem : ι → α) (lo : ℕ) (items : List α) : Prop :=
  ∀ i x, items[i]? = some x → mem (r.slot (lo + i)) = x

theorem holds_nil (mem : ι → α) (lo : ℕ) : r.Holds mem lo [] := fun _ _ h => absurd h (by simp)

variable {r}

theorem slot_ne_of_ne {m n : ℕ} (hne : m ≠ n) (h₁ : m < n + r.size) (h₂ : n < m + r.size) :
    r.slot m ≠ r.slot n := by
  rcases Nat.lt_or_gt_of_ne hne with h | h
  · exact r.slot_ne h h₂
  · exact (r.slot_ne h h₁).symm

theorem Holds.pop (h : r.Holds mem lo (x :: items)) : r.Holds mem (lo + 1) items := by
  intro i y hi
  rw [Nat.add_assoc, Nat.add_comm 1]
  exact h (i + 1) y hi

variable [DecidableEq ι]

theorem Holds.update_outside (h : r.Holds mem lo items) (hn : n < lo ∧
    lo + items.length ≤ n + r.size ∨ lo + items.length ≤ n ∧ n < lo + r.size) :
    r.Holds (Function.update mem (r.slot n) y) lo items := by
  intro i x hi
  have hlt := (List.getElem?_eq_some_iff.1 hi).1
  rw [Function.update_of_ne (slot_ne_of_ne (by omega) (by omega) (by omega))]
  exact h i x hi

theorem Holds.push (h : r.Holds mem lo items) (hlt : items.length < r.size) :
    r.Holds (Function.update mem (r.slot (lo + items.length)) x) lo (items ++ [x]) := by
  intro i y hi
  rcases Nat.lt_or_ge i items.length with hi' | hi'
  · rw [List.getElem?_append_left hi'] at hi
    rw [Function.update_of_ne (slot_ne_of_ne (by omega) (by omega) (by omega))]
    exact h i y hi
  · have hlast := (List.getElem?_eq_some_iff.1 hi).1
    rw [List.length_append, List.length_singleton] at hlast
    obtain rfl : i = items.length := by omega
    rw [List.getElem?_concat_length] at hi
    rw [Function.update_self]
    exact Option.some.inj hi

end RingSlots

/-! ## Pointers -/

section Pointers

variable {w a b : ℕ}

theorem toNat_ofNat_sub_ofNat (h₁ : b ≤ a) (h₂ : a < b + 2 ^ w) :
    (BitVec.ofNat w a - BitVec.ofNat w b).toNat = a - b := by
  have hsub : BitVec.ofNat w a - BitVec.ofNat w b = BitVec.ofNat w (a - b) := by
    rw [BitVec.sub_eq_iff_eq_add, ← BitVec.ofNat_add, Nat.sub_add_cancel h₁]
  rw [hsub, BitVec.toNat_ofNat, Nat.mod_eq_of_lt (by omega)]

end Pointers

end OpenRdma
