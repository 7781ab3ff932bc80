import Mathlib.Data.List.GetD
import Mathlib.Tactic.Linarith

/-!
# Growable rows of bits

The operations of a growable bit vector (`bitvec::vec::BitVec`) on `List Bool`, as its
documentation describes them, each with the lemma that says which bits the result has. A bit past
the end of the row reads as `false`.
-/

namespace OpenRdma.BitRow

open List

variable {v : List Bool}

/-- The bit at an index, `false` past the end. -/
def bit (v : List Bool) (i : ℕ) : Bool := v.getD i false

theorem bit_of_length_le {i : ℕ} (h : v.length ≤ i) : bit v i = false :=
  getD_eq_default _ _ h

@[simp] theorem bit_nil (i : ℕ) : bit [] i = false := rfl

/-! ## Resizing, filling and shifting -/

/-- `resize`: cut to `n` bits, or pad with `b` to `n` bits. -/
def resize (v : List Bool) (n : ℕ) (b : Bool) : List Bool :=
  v.take n ++ List.replicate (n - v.length) b

theorem length_resize (v : List Bool) (n : ℕ) (b : Bool) : (resize v n b).length = n := by
  simp only [resize, length_append, length_take, length_replicate]
  omega

theorem bit_resize {n : ℕ} (h : v.length ≤ n) (i : ℕ) : bit (resize v n false) i = bit v i := by
  unfold resize bit
  rw [take_of_length_le h]
  rcases lt_or_ge i v.length with hi | hi
  · rw [getD_append _ _ _ _ hi]
  · rw [getD_append_right _ _ _ _ hi, getD_eq_default _ _ hi]
    simp only [getD_eq_getElem?_getD, getElem?_replicate]
    split <;> rfl

def fill (v : List Bool) (b : Bool) : List Bool := List.replicate v.length b

theorem bit_fill_false (v : List Bool) (i : ℕ) : bit (fill v false) i = false := by
  simp only [bit, fill, getD_eq_getElem?_getD, getElem?_replicate]
  split <;> rfl

/-- `shift_left`: move the bits towards index zero, clearing the bits left behind. -/
def shiftLeft (v : List Bool) (n : ℕ) : List Bool := v.drop n ++ List.replicate n false

theorem bit_shiftLeft (v : List Bool) (n i : ℕ) : bit (shiftLeft v n) i = bit v (i + n) := by
  unfold shiftLeft bit
  rcases lt_or_ge i (v.drop n).length with hi | hi
  · rw [getD_append _ _ _ _ hi, getD_eq_getElem _ _ hi, getElem_drop,
      getD_eq_getElem _ _ (by rw [length_drop] at hi; omega)]
    simp only [Nat.add_comm]
  · rw [getD_append_right _ _ _ _ hi, getD_eq_default v _ (by rw [length_drop] at hi; omega)]
    simp only [getD_eq_getElem?_getD, getElem?_replicate]
    split <;> rfl

/-! ## The first clear bit -/

/-- The first bit that is not set. -/
def firstZero (v : List Bool) : Option ℕ := v.findIdx? (!·)

/-- `first_zero().unwrap_or(len)`. -/
def firstZeroOrLen (v : List Bool) : ℕ := (firstZero v).getD v.length

theorem firstZeroOrLen_cons (b : Bool) (v : List Bool) :
    firstZeroOrLen (b :: v) = if b then firstZeroOrLen v + 1 else 0 := by
  cases b with
  | false => rfl
  | true =>
    simp only [firstZeroOrLen, firstZero, findIdx?_cons, Bool.not_true, Bool.false_eq_true,
      if_false, if_true, length_cons]
    cases findIdx? (!·) v <;> rfl

theorem bit_of_lt_firstZeroOrLen {i : ℕ} (h : i < firstZeroOrLen v) : bit v i = true := by
  induction v generalizing i with
  | nil => simp [firstZeroOrLen, firstZero] at h
  | cons b v ih =>
    rw [firstZeroOrLen_cons] at h
    cases b with
    | false => simp at h
    | true =>
      cases i with
      | zero => rfl
      | succ i => exact ih (by simpa using h)

theorem bit_firstZeroOrLen (v : List Bool) : bit v (firstZeroOrLen v) = false := by
  induction v with
  | nil => rfl
  | cons b v ih =>
    rw [firstZeroOrLen_cons]
    cases b with
    | false => rfl
    | true => exact ih

/-! ## Setting the bits of a range -/

theorem bit_set {i : ℕ} (h : i < v.length) (j : ℕ) : bit (v.set i true) j =
    (decide (j = i) || bit v j) := by
  unfold bit
  by_cases hij : i = j
  · subst hij
    simp [h]
  · simp [hij, Ne.symm hij]

/-- `for i in lo..lo + n`, set the bits at which `P` holds. -/
def setWhere (P : ℕ → Bool) (lo n : ℕ) (v : List Bool) : List Bool :=
  (List.range' lo n).foldl (fun v i => if P i then v.set i true else v) v

@[simp] theorem setWhere_zero (P : ℕ → Bool) (lo : ℕ) (v : List Bool) : setWhere P lo 0 v = v := rfl

theorem setWhere_succ (P : ℕ → Bool) (lo n : ℕ) (v : List Bool) :
    setWhere P lo (n + 1) v = setWhere P (lo + 1) n (if P lo then v.set lo true else v) := rfl

theorem bit_setWhere (P : ℕ → Bool) {lo n : ℕ} (h : lo + n ≤ v.length) (j : ℕ) :
    bit (setWhere P lo n v) j = (decide (lo ≤ j ∧ j < lo + n) && P j || bit v j) := by
  induction n generalizing lo v with
  | zero => simp
  | succ n ih =>
    have hl : ((if P lo then v.set lo true else v) : List Bool).length = v.length := by
      split <;> simp
    rw [setWhere_succ, ih (by omega)]
    by_cases hj : j = lo
    · subst hj
      have h₂ : j ≤ j ∧ j < j + (n + 1) := by omega
      by_cases hP : P j
      · simp [h₂, hP, bit_set (show j < v.length by omega)]
      · simp [hP]
    · have h₁ : (lo + 1 ≤ j ∧ j < lo + 1 + n) ↔ (lo ≤ j ∧ j < lo + (n + 1)) := by omega
      rw [decide_eq_decide.2 h₁]
      by_cases hP : P lo
      · rw [if_pos hP, bit_set (show lo < v.length by omega), decide_eq_false hj, Bool.false_or]
      · rw [if_neg hP]

end OpenRdma.BitRow
