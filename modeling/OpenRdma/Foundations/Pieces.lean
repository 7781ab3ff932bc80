import OpenRdma.Foundations.Rust

/-!
# Cutting a range at aligned boundaries

`pieces S P e c` cuts the range from `c` to `e` into pieces of at most `S`: each piece ends at the
multiple of `P` that is `S` after the one at or before its start, or at `e`. With `P` dividing `S`
every piece but the first starts at a multiple of `P`.
-/

namespace OpenRdma

open Word List

variable {S P e c : ℕ}

/-- Where the piece that starts at `c` is cut, if the range goes on. -/
def cut (S P c : ℕ) : ℕ := c + S - c % P

/-- The pieces of the range from `c` to `e`, each with its start and its length. -/
def pieces (S P e c : ℕ) : List (ℕ × ℕ) :=
  if _h : c < cut S P c ∧ cut S P c < e then
    (c, cut S P c - c) :: pieces S P e (cut S P c)
  else [(c, e - c)]
termination_by e - c

/-- The number of pieces, in closed form. -/
def numPieces (S P e c : ℕ) : ℕ := if c ≥ e then 1 else divCeil (e - cut S P c) S + 1

theorem numPieces_pos (e c : ℕ) : 0 < numPieces S P e c := by
  unfold numPieces
  split_ifs <;> omega

theorem divCeil_zero (hS : 0 < S) : divCeil 0 S = 0 := Nat.div_eq_of_lt (by omega)

theorem divCeil_of_pos {d : ℕ} (hS : 0 < S) (hd : 0 < d) : divCeil d S = divCeil (d - S) S + 1 := by
  unfold divCeil
  rcases lt_or_ge d S with h | h
  · rw [Nat.div_eq_of_lt (show d - S + S - 1 < S by omega), zero_add]
    exact Nat.div_eq_of_lt_le (by omega) (by omega)
  · rw [show d + S - 1 = d - S + S - 1 + S by omega, Nat.add_div_right _ hS]

theorem divCeil_add_mul (hP : 0 < P) (d m : ℕ) : divCeil (P * m + d) P = m + divCeil d P := by
  unfold divCeil
  rcases d with _ | d
  · rw [Nat.add_zero, Nat.zero_add, Nat.div_eq_of_lt (show P - 1 < P by omega), Nat.add_zero]
    exact Nat.div_eq_of_lt_le (by rw [Nat.mul_comm]; omega)
      (by rw [Nat.succ_mul, Nat.mul_comm]; omega)
  · rw [show P * m + (d + 1) + P - 1 = P * m + (d + P) by omega, Nat.mul_add_div hP,
      show d + 1 + P - 1 = d + P by omega]

theorem cut_of_mod (h : c % P = 0) : cut S P c = c + S := by rw [cut, h, Nat.sub_zero]

theorem pieces_of_le (h : e ≤ cut S P c) : pieces S P e c = [(c, e - c)] := by
  rw [pieces, dif_neg (by omega)]

theorem numPieces_of_le (hS0 : 0 < S) (h : e ≤ cut S P c) : numPieces S P e c = 1 := by
  unfold numPieces
  split_ifs
  · rfl
  · rw [show e - cut S P c = 0 by omega, divCeil_zero hS0]

/-- Ranges that are not empty and follow each other from `a` to `b`. -/
def Tiles : ℕ → List (ℕ × ℕ) → ℕ → Prop
  | a, [], b => a = b
  | a, (start, len) :: rs, b => start = a ∧ 0 < len ∧ Tiles (a + len) rs b

theorem Tiles.sum {a b : ℕ} {rs : List (ℕ × ℕ)} (h : Tiles a rs b) :
    a + (rs.map Prod.snd).sum = b := by
  induction rs generalizing a with
  | nil => exact h
  | cons r rs ih =>
    have := ih h.2.2
    rw [map_cons, sum_cons]
    omega

section Cut

variable (hP : 0 < P) (hS : P ∣ S) (hS0 : 0 < S)

include hP hS hS0

theorem lt_cut (c : ℕ) : c < cut S P c := by
  have := Nat.mod_lt c hP
  have := Nat.le_of_dvd hS0 hS
  unfold cut
  omega

omit hP in
theorem cut_mod (c : ℕ) : cut S P c % P = 0 := by
  have hc := Nat.div_add_mod c P
  obtain ⟨m, rfl⟩ := hS
  rw [cut, show c + P * m - c % P = P * (c / P + m) by rw [Nat.mul_add]; omega, Nat.mul_mod_right]

theorem pieces_of_lt (h : cut S P c < e) : pieces S P e c =
    (c, cut S P c - c) :: pieces S P e (cut S P c) := by
  rw [pieces, dif_pos ⟨lt_cut hP hS hS0 c, h⟩]

theorem numPieces_of_lt (h : cut S P c < e) :
    numPieces S P e c = numPieces S P e (cut S P c) + 1 := by
  have h₁ := lt_cut hP hS hS0 c
  have h₂ : cut S P (cut S P c) = cut S P c + S := cut_of_mod (cut_mod hS hS0 c)
  rw [numPieces, if_neg (by omega), numPieces, if_neg (by omega), h₂,
    divCeil_of_pos hS0 (show 0 < e - cut S P c by omega), Nat.sub_sub]

theorem pieces_induction (e : ℕ) {motive : ℕ → Prop} (last : ∀ c, e ≤ cut S P c → motive c)
    (more : ∀ c, cut S P c < e → motive (cut S P c) → motive c) (c : ℕ) : motive c := by
  induction hd : e - c using Nat.strong_induction_on generalizing c with
  | _ d ih =>
    rcases lt_or_ge (cut S P c) e with h | h
    · have := lt_cut hP hS hS0 c
      exact more c h (ih _ (by omega) _ rfl)
    · exact last c h

/-- `numPieces` counts the pieces. -/
theorem length_pieces (c : ℕ) : (pieces S P e c).length = numPieces S P e c := by
  induction c using pieces_induction hP hS hS0 e with
  | last c h => rw [pieces_of_le h, numPieces_of_le hS0 h, length_singleton]
  | more c h ih =>
    rw [pieces_of_lt hP hS hS0 h, numPieces_of_lt hP hS hS0 h, length_cons, ih]

theorem length_pieces_eq_one_iff : (pieces S P e c).length = 1 ↔ e ≤ cut S P c := by
  rcases lt_or_ge (cut S P c) e with h | h
  · have hpos := numPieces_pos (S := S) (P := P) e (cut S P c)
    rw [pieces_of_lt hP hS hS0 h, length_cons, length_pieces hP hS hS0]
    omega
  · rw [pieces_of_le h, length_singleton]
    exact iff_of_true rfl h

/-- The pieces cover the range. -/
theorem tiles_pieces (c : ℕ) (hc : c < e) : Tiles c (pieces S P e c) e := by
  induction c using pieces_induction hP hS hS0 e with
  | last c h =>
    rw [pieces_of_le h]
    exact ⟨rfl, by omega, Nat.add_sub_cancel' hc.le⟩
  | more c h ih =>
    have hlt := lt_cut hP hS hS0 c
    rw [pieces_of_lt hP hS hS0 h]
    refine ⟨rfl, by omega, ?_⟩
    rw [Nat.add_sub_cancel' hlt.le]
    exact ih h

theorem dvd_start_pieces (c : ℕ) : ∀ p ∈ (pieces S P e c).tail, P ∣ p.1 := by
  have hall : ∀ c, P ∣ c → ∀ p ∈ pieces S P e c, P ∣ p.1 := by
    intro c
    induction c using pieces_induction hP hS hS0 e with
    | last c h =>
      intro hc
      rw [pieces_of_le h]
      exact forall_mem_singleton.2 hc
    | more c h ih =>
      intro hc
      rw [pieces_of_lt hP hS hS0 h]
      exact forall_mem_cons.2 ⟨hc, ih (Nat.dvd_of_mod_eq_zero (cut_mod hS hS0 c))⟩
  rcases lt_or_ge (cut S P c) e with h | h
  · rw [pieces_of_lt hP hS hS0 h, tail_cons]
    exact hall _ (Nat.dvd_of_mod_eq_zero (cut_mod hS hS0 c))
  · rw [pieces_of_le h]
    exact forall_mem_nil _

theorem start_pieces_le (c : ℕ) : ∀ p ∈ pieces S P e c, p.1 ≤ max c e := by
  induction c using pieces_induction hP hS hS0 e with
  | last c h =>
    rw [pieces_of_le h]
    intro p hp
    obtain rfl := mem_singleton.1 hp
    exact le_max_left _ _
  | more c h ih =>
    rw [pieces_of_lt hP hS hS0 h]
    intro p hp
    rcases mem_cons.1 hp with rfl | hp
    · exact le_max_left _ _
    · have := ih p hp
      omega

theorem len_pieces_le (c : ℕ) : ∀ p ∈ pieces S P e c, p.2 ≤ S := by
  induction c using pieces_induction hP hS hS0 e with
  | last c h =>
    rw [pieces_of_le h]
    unfold cut at h
    intro p hp
    obtain rfl := mem_singleton.1 hp
    omega
  | more c h ih =>
    rw [pieces_of_lt hP hS hS0 h]
    intro p hp
    rcases mem_cons.1 hp with rfl | hp
    · unfold cut
      omega
    · exact ih p hp

theorem len_pieces_pos (c : ℕ) (hc : c < e) : ∀ p ∈ pieces S P e c, 0 < p.2 := by
  induction c using pieces_induction hP hS hS0 e with
  | last c h =>
    rw [pieces_of_le h]
    intro p hp
    obtain rfl := mem_singleton.1 hp
    omega
  | more c h ih =>
    have := lt_cut hP hS hS0 c
    rw [pieces_of_lt hP hS hS0 h]
    intro p hp
    rcases mem_cons.1 hp with rfl | hp
    · omega
    · exact ih h p hp

/-- The packets of all pieces together. -/
theorem sum_divCeil_pieces (c : ℕ) : ((pieces S P e c).map fun p => divCeil p.2 P).sum =
      if e ≤ cut S P c then divCeil (e - c) P else divCeil (e - (c - c % P)) P := by
  have key : ∀ c, c % P = 0 →
      ((pieces S P e c).map fun p => divCeil p.2 P).sum = divCeil (e - c) P := by
    intro c
    induction c using pieces_induction hP hS hS0 e with
    | last c h =>
      intro _
      rw [pieces_of_le h, map_singleton, sum_singleton]
    | more c h ih =>
      intro hc
      obtain ⟨m, rfl⟩ := hS
      rw [pieces_of_lt hP (Dvd.intro _ rfl) hS0 h, map_cons, sum_cons,
        ih (cut_mod (Dvd.intro _ rfl) hS0 c), cut_of_mod hc]
      rw [cut_of_mod hc] at h
      rw [Nat.add_sub_cancel_left, show e - c = P * m + (e - (c + P * m)) by omega,
        divCeil_add_mul hP, show P * m = P * m + 0 by rfl, divCeil_add_mul hP, divCeil_zero hP,
        Nat.add_zero]
  split_ifs with h
  · rw [pieces_of_le h, map_singleton, sum_singleton]
  · have hlt : cut S P c < e := by omega
    rw [pieces_of_lt hP hS hS0 hlt, map_cons, sum_cons, key _ (cut_mod hS hS0 c)]
    have hmod := Nat.mod_lt c hP
    have hle := Nat.mod_le c P
    obtain ⟨m, rfl⟩ := hS
    have hm : 1 ≤ m := by
      rcases m with _ | m
      · omega
      · omega
    have hPm : P ≤ P * m := Nat.le_mul_of_pos_right P hm
    unfold cut at hlt ⊢
    rw [show c + P * m - c % P - c = P * (m - 1) + (P - c % P) by rw [Nat.mul_sub]; omega,
      divCeil_add_mul hP, show e - (c - c % P) = P * m + (e - (c + P * m - c % P)) by omega,
      divCeil_add_mul hP, divCeil_of_pos hP (show 0 < P - c % P by omega),
      show P - c % P - P = 0 by omega, divCeil_zero hP]
    omega

theorem forall_pieces_iff (c N : ℕ) (hc : c < e) : (∀ p ∈ pieces S P e c, p.1 + S < N) ↔
      max c (c - c % P + S * ((c % P + (e - c) - 1) / S)) + S < N := by
  have key : ∀ c, c % P = 0 → c < e →
      ((∀ p ∈ pieces S P e c, p.1 + S < N) ↔ c + S * ((e - c - 1) / S) + S < N) := by
    intro c
    induction c using pieces_induction hP hS hS0 e with
    | last c h =>
      intro hc hlt
      rw [cut_of_mod hc] at h
      rw [pieces_of_le (by rw [cut_of_mod hc]; exact h),
        Nat.div_eq_of_lt (show e - c - 1 < S by omega)]
      simp
    | more c h ih =>
      intro hc hlt
      have h' := h
      rw [cut_of_mod hc] at h'
      rw [pieces_of_lt hP hS hS0 h, forall_mem_cons, ih (cut_mod hS hS0 c) h,
        cut_of_mod hc, show e - c - 1 = e - (c + S) - 1 + S by omega, Nat.add_div_right _ hS0,
        Nat.mul_succ]
      omega
  have hle := Nat.mod_le c P
  rcases lt_or_ge (cut S P c) e with h | h
  · rw [pieces_of_lt hP hS hS0 h, forall_mem_cons, key _ (cut_mod hS hS0 c) h]
    unfold cut at h ⊢
    rw [show c % P + (e - c) - 1 = e - (c + S - c % P) - 1 + S by omega, Nat.add_div_right _ hS0,
      Nat.mul_succ]
    omega
  · rw [pieces_of_le h]
    unfold cut at h
    rw [Nat.div_eq_of_lt (show c % P + (e - c) - 1 < S by omega)]
    simp

end Cut

section Refine

variable {m : ℕ} (hP : 0 < P)

include hP

theorem cut_le_of_dvd (hm : P ∣ m) (hc : c < m) : cut P P c ≤ m := by
  obtain ⟨j, rfl⟩ := hm
  have hdiv : c / P + 1 ≤ j := Nat.div_lt_of_lt_mul hc
  have hmul := Nat.mul_le_mul_left P hdiv
  have hmod := Nat.div_add_mod c P
  rw [Nat.mul_add, Nat.mul_one] at hmul
  unfold cut
  omega

theorem pieces_append (hm : P ∣ m) (hc : c < m) (he : m < e) :
    pieces P P e c = pieces P P m c ++ pieces P P e m := by
  induction c using pieces_induction hP dvd_rfl hP m with
  | last c h =>
    have hcut : cut P P c = m := le_antisymm (cut_le_of_dvd hP hm hc) h
    rw [pieces_of_lt hP dvd_rfl hP (hcut ▸ he), pieces_of_le h, hcut]
    rfl
  | more c h ih =>
    rw [pieces_of_lt hP dvd_rfl hP (h.trans he), pieces_of_lt hP dvd_rfl hP h, ih h]
    rfl

/-- The pieces are the only such cover. -/
theorem eq_pieces_of_tiles {rs : List (ℕ × ℕ)} (h : Tiles c rs e) (hne : rs ≠ [])
    (haligned : ∀ r ∈ rs.tail, P ∣ r.1) (hwithin : ∀ r ∈ rs, r.1 / P = (r.1 + r.2 - 1) / P) :
    rs = pieces P P e c := by
  induction rs generalizing c with
  | nil => exact absurd rfl hne
  | cons r rs ih =>
    obtain ⟨start, len⟩ := r
    obtain ⟨rfl, hlen, htiles⟩ := h
    have hle : start + len ≤ cut P P start := by
      have hblock : start / P = (start + len - 1) / P := hwithin _ mem_cons_self
      have h₁ := Nat.div_add_mod start P
      have h₂ := Nat.lt_mul_div_succ (start + len - 1) hP
      rw [← hblock, Nat.mul_add, Nat.mul_one] at h₂
      unfold cut
      omega
    cases rs with
    | nil =>
      obtain rfl : start + len = e := htiles
      rw [pieces_of_le hle, Nat.add_sub_cancel_left]
    | cons q qs =>
      have hq : q.1 = start + len := htiles.1
      have hdvd : P ∣ start + len := hq ▸ haligned q mem_cons_self
      have hcut : cut P P start = start + len := le_antisymm (cut_le_of_dvd hP hdvd (by omega)) hle
      have hsum := htiles.sum
      rw [map_cons, sum_cons] at hsum
      have hpos : 0 < q.2 := htiles.2.1
      rw [pieces_of_lt hP dvd_rfl hP (by omega), hcut, Nat.add_sub_cancel_left]
      refine congrArg _ (ih htiles (cons_ne_nil q qs) (fun r hr => haligned r (mem_of_mem_tail hr))
        ?_)
      exact fun r hr => hwithin r (mem_cons_of_mem _ hr)

end Refine

end OpenRdma
