import OpenRdma.Driver.Fragmentation

/-!
# The fragments of a range

The iterator of `Fragmenter` steps by a masked addition, and the number of its items is computed
beforehand. It yields the fragments of `pieces` (`IntoIter.drains`), and from the number it knows
which of them is the last (`map_pos_fragmentsOf_rest`).
-/

namespace OpenRdma.Driver

open Word Iterator List IntoIter

/-! ## The iterator -/

namespace IntoIter

/-- The fragments of a list of pieces, of which the first has the position `pos`. -/
def fragmentsOf (pos : ChunkPos) : List (ℕ × ℕ) → List Fragment
  | [] => []
  | p :: ps => ⟨p.1, p.2, pos⟩ :: fragmentsOf (nextPos (ps.length == 1) pos) ps

theorem length_fragmentsOf (pos : ChunkPos) (ps : List (ℕ × ℕ)) :
    (fragmentsOf pos ps).length = ps.length := by
  induction ps generalizing pos with
  | nil => rfl
  | cons p ps ih => rw [fragmentsOf, length_cons, ih, length_cons]

theorem map_range_fragmentsOf (pos : ChunkPos) (ps : List (ℕ × ℕ)) :
    (fragmentsOf pos ps).map (fun f => (f.addr, f.len)) = ps := by
  induction ps generalizing pos with
  | nil => rfl
  | cons p ps ih => rw [fragmentsOf, map_cons, ih]

theorem map_pos_fragmentsOf_rest {ps : List (ℕ × ℕ)} (hps : ps ≠ []) {pos : ChunkPos}
    (hpos : pos = .first ∨ pos = .middle) : (fragmentsOf (nextPos (ps.length == 1) pos) ps).map
    (·.pos) =
      List.replicate (ps.length - 1) .middle ++ [.last] := by
  induction ps generalizing pos with
  | nil => exact absurd rfl hps
  | cons p ps ih =>
    rw [fragmentsOf, map_cons]
    cases ps with
    | nil => rcases hpos with rfl | rfl <;> rfl
    | cons q qs =>
      have hnext : nextPos ((p :: q :: qs).length == 1) pos = .middle := by
        rcases hpos with rfl | rfl <;> rfl
      rw [hnext, ih (cons_ne_nil q qs) (Or.inr rfl)]
      rfl

variable {it : IntoIter} {S e k : ℕ}

/-- **The iterator yields the pieces of its range**, with its count of them. -/
theorem drains (hk : k ≤ 64) (hdvd : 2 ^ k ∣ S) (hS0 : 0 < S) (he : e + S < 2 ^ 64)
    (halign : it.align = 2 ^ k) (hseg : it.segmentSize = S) (hend : it.endAddr = e)
    (hle : it.currentAddr ≤ e) (hcount : it.count = numPieces S (2 ^ k) e it.currentAddr) :
    Drains next it (fragmentsOf it.currentPos (pieces S (2 ^ k) e it.currentAddr)) := by
  have hP := Nat.two_pow_pos k
  generalize hc : it.currentAddr = c at hle hcount ⊢
  induction c using pieces_induction hP hdvd hS0 e generalizing it with
  | last c h =>
    rw [numPieces_of_le hS0 h] at hcount
    have hnext := next_eq (by omega) halign hk (hseg ▸ hdvd) (hseg ▸ hS0) (by omega)
      (by omega) (by omega)
    rw [hc, hseg, hend, Nat.min_eq_right h] at hnext
    rw [pieces_of_le h]
    refine .cons hnext (.nil ?_)
    rw [next, if_pos (by dsimp only; omega)]
  | more c h ih =>
    have hlen := length_pieces (e := e) hP hdvd hS0 (cut S (2 ^ k) c)
    rw [numPieces_of_lt hP hdvd hS0 h] at hcount
    have hnext := next_eq (by omega) halign hk (hseg ▸ hdvd) (hseg ▸ hS0) (by omega)
      (by omega) (by omega)
    rw [hc, hseg, hend, Nat.min_eq_left h.le, hcount, Nat.add_sub_cancel] at hnext
    rw [pieces_of_lt hP hdvd hS0 h, fragmentsOf, hlen]
    exact .cons hnext (ih (by exact halign) rfl rfl rfl h.le rfl)

end IntoIter

/-! ## What the fragments are -/

/-- The positions of `n` fragments. -/
def positions (n : ℕ) : List ChunkPos :=
  if n = 1 then [.only] else .first :: (List.replicate (n - 2) .middle ++ [.last])

/-- The fragments cut the range of `length` bytes at `base` into parts of at most `S`, at multiples
of `P`. An empty range is one fragment. -/
structure Fragments (S P base length : ℕ) (fs : List Fragment) : Prop where
  empty : length = 0 → fs = [⟨base, 0, .only⟩]
  tiles : 0 < length → Tiles base (fs.map fun f => (f.addr, f.len)) (base + length)
  aligned : ∀ f ∈ fs.tail, P ∣ f.addr
  len_le : ∀ f ∈ fs, f.len ≤ S
  positions : fs.map (·.pos) = positions fs.length

theorem fragments_fragmentsOf {S P base length : ℕ} (hP : 0 < P) (hdvd : P ∣ S) (hS0 : 0 < S)
    {pos : ChunkPos} (hpos : pos = if numPieces S P (base + length) base =
    1 then .only else .first) : Fragments S P base length
    (IntoIter.fragmentsOf pos (pieces S P (base + length) base)) := by
  have hlen := length_pieces (e := base + length) hP hdvd hS0 base
  constructor
  · rintro rfl
    have hcut := lt_cut hP hdvd hS0 base
    rw [numPieces_of_le hS0 (by omega), if_pos rfl] at hpos
    rw [hpos, pieces_of_le (by omega), Nat.add_zero, Nat.sub_self]
    rfl
  · intro h
    rw [map_range_fragmentsOf]
    exact tiles_pieces hP hdvd hS0 base (by omega)
  · intro f hf
    have hmem : (f.addr, f.len) ∈ (pieces S P (base + length) base).tail := by
      have := mem_map_of_mem (f := fun f : Fragment => (f.addr, f.len)) hf
      rwa [map_tail, map_range_fragmentsOf] at this
    exact dvd_start_pieces hP hdvd hS0 base _ hmem
  · intro f hf
    have hmem : (f.addr, f.len) ∈ pieces S P (base + length) base := by
      have := mem_map_of_mem (f := fun f : Fragment => (f.addr, f.len)) hf
      rwa [map_range_fragmentsOf] at this
    exact len_pieces_le hP hdvd hS0 base _ hmem
  · rw [length_fragmentsOf, hpos, positions, hlen]
    split_ifs with hone
    · rw [hone] at hlen
      obtain ⟨p, hp⟩ := length_eq_one_iff.1 hlen
      rw [hp]
      rfl
    · -- the first of several
      obtain ⟨p, ps, hps⟩ : ∃ p ps, pieces S P (base + length) base = p :: ps :=
        exists_cons_of_length_pos (hlen ▸ numPieces_pos _ _)
      rw [hps, length_cons] at hlen
      rw [hps, fragmentsOf, map_cons,
        map_pos_fragmentsOf_rest (by rintro rfl; exact hone hlen.symm) (Or.inl rfl), ← hlen]
      rfl

variable {S k base length : ℕ}

/-- **A fragmenter cuts its range**: the iteration does not trap, and it ends after the fragments of
the range, of which there are as many as `num_segments` says. -/
theorem fragmenter_fragments (hdvd : 2 ^ k ∣ S) (hS0 : 0 < S) (hfit : base + length + S < 2 ^ 64) :
    ∃ f it fs, Fragmenter.new S (2 ^ k) base length = some f ∧ f.intoIter = some it ∧
      Drains IntoIter.next it fs ∧ Fragments S (2 ^ k) base length fs ∧
      f.numSegments = some fs.length := by
  have hP := Nat.two_pow_pos k
  have hk : k ≤ 64 := by
    by_contra h
    have := (Nat.pow_le_pow_right (n := 2) (by decide) (Nat.le_of_not_le h)).trans
      (Nat.le_of_dvd hS0 hdvd)
    omega
  have hnum : Fragmenter.numSegments ⟨S, 2 ^ k, base, base + length⟩ = _ :=
    Fragmenter.numSegments_eq hk hdvd (Or.inr (by omega))
  let it : IntoIter :=
    { segmentSize := S
      align := 2 ^ k
      currentAddr := base
      currentPos := if numPieces S (2 ^ k) (base + length) base = 1 then .only else .first
      endAddr := base + length
      count := numPieces S (2 ^ k) (base + length) base }
  have halign : it.align = 2 ^ k := rfl
  refine ⟨⟨S, 2 ^ k, base, base + length⟩, it, _, ?_, ?_, drains hk hdvd hS0 hfit halign rfl rfl
    (Nat.le_add_right _ _) rfl, fragments_fragmentsOf hP hdvd hS0 rfl, ?_⟩
  · rw [Fragmenter.new, checkedAdd_of_lt (by omega), Option.map_some]
  · rw [Fragmenter.intoIter, hnum, Option.bind_some, if_pos (numPieces_pos _ _)]
  · rw [hnum, length_fragmentsOf, length_pieces hP hdvd hS0]

/-- A range of 600 bytes that starts 6 bytes before a multiple of 256. -/
theorem fragmenter_fragments_unaligned :
    2 ^ 8 ∣ 256 ∧ 250 + 600 + 256 < 2 ^ 64 ∧
      ∃ f it fs, Fragmenter.new 256 (2 ^ 8) 250 600 = some f ∧ f.intoIter = some it ∧
        Drains IntoIter.next it fs ∧ Fragments 256 (2 ^ 8) 250 600 fs ∧
        f.numSegments = some fs.length :=
  ⟨by decide, by decide, fragmenter_fragments (by decide) (by decide) (by decide)⟩

end OpenRdma.Driver
