import Mathlib.Data.Nat.Nth

/-!
# Streams in queues

A queue between two stages of a pipeline holds the values of a stream from the place its reader has
reached to the place its writer has reached (`Window`). The stream of the beats of a sequence of
frames is read with a cursor, which says in which frame a place of the stream is, and where in the
frame (`cursor`). Leaving out frames and the beginnings of frames is again a stream of this kind
(`cursor_selected`).
-/

namespace OpenRdma

open List

/-! ## Windows -/

/-- The queue holds the values of the stream from place `a` to place `b`. -/
structure Window {α : Type*} (S : ℕ → α) (a b : ℕ) (q : List α) : Prop where
  le : a ≤ b
  eq : q = (List.range' a (b - a)).map S

namespace Window

variable {α β : Type*} {S : ℕ → α} {a b : ℕ} {q : List α} {x : α}

theorem nil (S : ℕ → α) (a : ℕ) : Window S a a [] := ⟨le_rfl, by simp⟩

theorem of_nil (h : q = []) : Window S a a q := h ▸ .nil S a

theorem push (h : Window S a b q) : Window S a (b + 1) (q ++ [S b]) := by
  refine ⟨h.le.trans (Nat.le_succ b), ?_⟩
  rw [Nat.succ_sub h.le, range'_1_concat, map_append, ← h.eq, Nat.add_sub_cancel' h.le]
  rfl

theorem push_of_eq (h : Window S a b q) (hx : x = S b) : Window S a (b + 1) (q ++ [x]) :=
  hx ▸ h.push

theorem pop (h : Window S a b (x :: q)) : a < b ∧ x = S a ∧ Window S (a + 1) b q := by
  have hlt : a < b := by
    rcases h.le.eq_or_lt with rfl | hlt
    · have := h.eq
      simp at this
    · exact hlt
  have heq := h.eq
  rw [show b - a = b - (a + 1) + 1 by omega, range'_succ, map_cons] at heq
  obtain ⟨hx, hq⟩ := cons.inj heq
  exact ⟨hlt, hx, hlt, hq⟩

theorem length_eq (h : Window S a b q) : q.length = b - a := by
  rw [h.eq, length_map, List.length_range']

theorem isPrefix (h : Window S 0 a q) (hle : a ≤ b) : q <+: (List.range b).map S := by
  obtain ⟨d, rfl⟩ := Nat.exists_eq_add_of_le hle
  rw [h.eq, range_add, map_append, range_eq_range']
  exact prefix_append _ _

theorem getElem? (h : Window S a b q) {k : ℕ} (hx : q[k]? = some x) : x = S (a + k) := by
  rw [h.eq, List.getElem?_map] at hx
  obtain ⟨i, hi, rfl⟩ := Option.map_eq_some_iff.1 hx
  have hk := (List.getElem?_eq_some_iff.1 hi).1
  rw [List.length_range'] at hk
  rw [List.getElem?_range' hk, Nat.one_mul] at hi
  rw [← Option.some.inj hi]

end Window

/-! ## Selections -/

section

variable {α : Type*} {l : List α} {p : α → Bool} {x : α} {k : ℕ}

theorem getElem?_filter_countP_take (hx : l[k]? = some x) (hp : p x) :
    (l.filter p)[(l.take k).countP p]? = some x := by
  obtain ⟨hk, rfl⟩ := List.getElem?_eq_some_iff.1 hx
  have hsplit : l.filter p = (l.take k).filter p ++ l[k] :: (l.drop (k + 1)).filter p := by
    conv_lhs => rw [← List.take_append_drop k l, List.drop_eq_getElem_cons hk]
    rw [List.filter_append, List.filter_cons_of_pos hp]
  rw [hsplit, List.countP_eq_length_filter, List.getElem?_append_right le_rfl, Nat.sub_self]
  rfl

theorem count_eq_countP_take {P : ℕ → Prop} [DecidablePred P]
    (h : ∀ i x, l[i]? = some x → (p x ↔ P i)) (hk : k ≤ l.length) :
    Nat.count P k = (l.take k).countP p := by
  induction k with
  | zero => simp
  | succ k ih =>
    have hx : l[k]? = some (l[k]) := getElem?_eq_getElem hk
    rw [Nat.count_succ, ih (Nat.le_of_succ_le hk), take_add_one, hx, countP_append]
    simp [h k _ hx]

end

/-! ## Cursors -/

/-- The place after a place in a sequence of frames of the given lengths. -/
def nextCursor (len : ℕ → ℕ) (c : ℕ × ℕ) : ℕ × ℕ :=
  if c.2 + 1 < len c.1 then (c.1, c.2 + 1) else (c.1 + 1, 0)

/-- The frame of the `n`-th beat of the sequence, and its place in the frame. -/
def cursor (len : ℕ → ℕ) : ℕ → ℕ × ℕ
  | 0 => (0, 0)
  | n + 1 => nextCursor len (cursor len n)

/-- The number of beats before the `n`-th that are in a frame with `p`, at place `d` or after it. -/
def selected (len : ℕ → ℕ) (p : ℕ → Prop) [DecidablePred p] (d : ℕ) : ℕ → ℕ
  | 0 => 0
  | n + 1 => selected len p d n + if p (cursor len n).1 ∧ d ≤ (cursor len n).2 then 1 else 0

section

variable {len : ℕ → ℕ} {n : ℕ}

theorem cursor_succ_of_lt (h : (cursor len n).2 + 1 < len (cursor len n).1) :
    cursor len (n + 1) = ((cursor len n).1, (cursor len n).2 + 1) := if_pos h

theorem cursor_succ_of_le (h : len (cursor len n).1 ≤ (cursor len n).2 + 1) :
    cursor len (n + 1) = ((cursor len n).1 + 1, 0) := if_neg h.not_gt

theorem cursor_lt (hlen : ∀ k, 0 < len k) (n : ℕ) : (cursor len n).2 < len (cursor len n).1 := by
  induction n with
  | zero => exact hlen 0
  | succ n ih =>
    rcases lt_or_ge ((cursor len n).2 + 1) (len (cursor len n).1) with h | h
    · rw [cursor_succ_of_lt h]
      exact h
    · rw [cursor_succ_of_le h]
      exact hlen _

theorem cursor_le (len : ℕ → ℕ) (n : ℕ) : (cursor len n).2 ≤ len (cursor len n).1 := by
  cases n with
  | zero => exact Nat.zero_le _
  | succ n =>
    rcases lt_or_ge ((cursor len n).2 + 1) (len (cursor len n).1) with h | h
    · rw [cursor_succ_of_lt h]
      exact h.le
    · rw [cursor_succ_of_le h]
      exact Nat.zero_le _

variable {p : ℕ → Prop} [DecidablePred p] {d : ℕ}

theorem selected_succ_of_mem (h : p (cursor len n).1) (hd : d ≤ (cursor len n).2) :
    selected len p d (n + 1) = selected len p d n + 1 := by
  rw [selected, if_pos ⟨h, hd⟩]

theorem selected_succ_of_notMem (h : ¬ (p (cursor len n).1 ∧ d ≤ (cursor len n).2)) :
    selected len p d (n + 1) = selected len p d n := by
  rw [selected, if_neg h, Nat.add_zero]

theorem exists_of_lt_selected {m : ℕ} (h : m < selected len p d n) :
    ∃ k < n, selected len p d k = m ∧ p (cursor len k).1 ∧ d ≤ (cursor len k).2 := by
  induction n with
  | zero => exact absurd h (Nat.not_lt_zero m)
  | succ n ih =>
    rcases Nat.lt_or_ge m (selected len p d n) with hlt | hge
    · obtain ⟨k, hk, hsel⟩ := ih hlt
      exact ⟨k, hk.trans (Nat.lt_succ_self n), hsel⟩
    · by_cases hmem : p (cursor len n).1 ∧ d ≤ (cursor len n).2
      · rw [selected_succ_of_mem hmem.1 hmem.2] at h
        exact ⟨n, Nat.lt_succ_self n, by omega, hmem⟩
      · rw [selected_succ_of_notMem hmem] at h
        omega

/-- **The beats selected are those of the frames selected, without their first `d`.** -/
theorem cursor_selected (hd : ∀ m < n, p (cursor len m).1 → d < len (cursor len m).1) :
    cursor (fun i => len (Nat.nth p i) - d) (selected len p d n) =
      (Nat.count p (cursor len n).1, if p (cursor len n).1 then (cursor len n).2 - d else 0) := by
  induction n with
  | zero => simp [cursor, selected]
  | succ n ih =>
    obtain ⟨k, hk⟩ : ∃ k, k = (cursor len n).1 := ⟨_, rfl⟩
    obtain ⟨j, hj⟩ : ∃ j, j = (cursor len n).2 := ⟨_, rfl⟩
    have hlt : j + 1 < len k → cursor len (n + 1) = (k, j + 1) := by
      rw [hk, hj]
      exact cursor_succ_of_lt
    have hge : len k ≤ j + 1 → cursor len (n + 1) = (k + 1, 0) := by
      rw [hk, hj]
      exact cursor_succ_of_le
    have hsel : selected len p d (n + 1) = selected len p d n + if p k ∧ d ≤ j then 1 else 0 := by
      rw [hk, hj]
      rfl
    replace ih := ih fun m hm => hd m (hm.trans (Nat.lt_succ_self n))
    rw [← hk, ← hj] at ih
    by_cases hp : p k
    · have hlen : d < len k := by
        rw [hk]
        exact hd n (Nat.lt_succ_self n) (hk ▸ hp)
      rw [if_pos hp] at ih
      by_cases hdj : d ≤ j
      · -- the beat is selected
        rw [hsel, if_pos ⟨hp, hdj⟩, cursor, ih, nextCursor]
        rw [Nat.nth_count hp]
        by_cases h : j + 1 < len k
        · rw [if_pos (by omega), hlt h]
          rw [if_pos hp, Nat.sub_add_comm hdj]
        · rw [if_neg (by omega), hge (by omega)]
          rw [Nat.count_succ, if_pos hp, Nat.zero_sub, ite_self]
      · rw [hsel, if_neg (by tauto), Nat.add_zero, ih, hlt (by omega)]
        rw [if_pos hp]
        congr 1
        omega
    · rw [if_neg hp] at ih
      rw [hsel, if_neg (by tauto), Nat.add_zero, ih]
      by_cases h : j + 1 < len k
      · rw [hlt h]
        rw [if_neg hp]
      · rw [hge (by omega)]
        rw [Nat.count_succ, if_neg hp, Nat.zero_sub, ite_self, Nat.add_zero]

end

end OpenRdma
