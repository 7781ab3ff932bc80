import Mathlib.Data.BitVec
import Mathlib.Data.Nat.Digits.Defs
import Mathlib.Tactic.Ring

/-!
# Layouts of packed structures

A packed structure is a list of fields, from the lowest bit on, each of a width and with the value
written into it. `pack` is the number they form, and `slice` finds the fields between two bits.
-/

namespace OpenRdma.Layout

open List

/-- A field: its width and the value written into it. -/
structure Field where
  width : ℕ
  value : ℕ
  deriving DecidableEq

def Field.flag (b : Bool) : Field := ⟨1, b.toNat⟩

/-- The number of bits of fields side by side. -/
def width : List Field → ℕ
  | [] => 0
  | f :: fs => f.width + width fs

/-- The number the fields form, each cut to its width. -/
def pack : List Field → ℕ
  | [] => 0
  | f :: fs => f.value % 2 ^ f.width + 2 ^ f.width * pack fs

variable {f : Field} {l m l₁ l₂ : List Field} {n off w : ℕ}

theorem pack_singleton (w v : ℕ) : pack [⟨w, v⟩] = v % 2 ^ w := by simp [pack]

theorem pack_lt (l : List Field) : pack l < 2 ^ width l := by
  induction l with
  | nil => simp [pack, width]
  | cons f fs ih =>
    have hf : f.value % 2 ^ f.width < 2 ^ f.width := Nat.mod_lt _ (Nat.two_pow_pos _)
    calc pack (f :: fs) < 2 ^ f.width + 2 ^ f.width * pack fs := Nat.add_lt_add_right hf _
      _ = 2 ^ f.width * (pack fs + 1) := by ring
      _ ≤ 2 ^ f.width * 2 ^ width fs := Nat.mul_le_mul_left _ ih
      _ = 2 ^ width (f :: fs) := (pow_add 2 _ _).symm

theorem width_append (l₁ l₂ : List Field) : width (l₁ ++ l₂) = width l₁ + width l₂ := by
  induction l₁ with
  | nil => rw [nil_append, width, Nat.zero_add]
  | cons f fs ih => rw [cons_append, width, width, ih, Nat.add_assoc]

theorem pack_append (l₁ l₂ : List Field) : pack (l₁ ++ l₂) = pack l₁ + 2 ^ width l₁ * pack l₂ := by
  induction l₁ with
  | nil => simp [pack, width]
  | cons f fs ih =>
    rw [cons_append, pack, pack, width, ih, pow_add]
    ring

theorem toNat_ofNat_iff : (BitVec.ofNat w n).toNat = n ↔ n < 2 ^ w := by
  rw [BitVec.toNat_ofNat, Nat.mod_eq_iff_lt (Nat.two_pow_pos w).ne']

/-! ## Slices -/

/-- The fields above the lowest `n` bits, if a field starts there. -/
def dropBits : ℕ → List Field → Option (List Field)
  | 0, l => some l
  | _ + 1, [] => none
  | n + 1, f :: fs => if f.width ≤ n + 1 then dropBits (n + 1 - f.width) fs else none

/-- The fields of the lowest `n` bits, if a field ends there. -/
def takeBits : ℕ → List Field → Option (List Field)
  | 0, _ => some []
  | _ + 1, [] => none
  | n + 1, f :: fs =>
    if f.width ≤ n + 1 then (takeBits (n + 1 - f.width) fs).map (f :: ·) else none

/-- The fields of `w` bits from the bit `off` on, if they are whole fields. -/
def slice (off w : ℕ) (l : List Field) : Option (List Field) := (dropBits off l).bind (takeBits w)

theorem dropBits_spec (h : dropBits n l = some m) : ∃ l₀, l = l₀ ++ m ∧ width l₀ = n := by
  induction l generalizing n with
  | nil =>
    cases n with
    | zero => exact ⟨[], by simpa [dropBits] using h, rfl⟩
    | succ n => simp [dropBits] at h
  | cons f fs ih =>
    cases n with
    | zero => exact ⟨[], by simpa [dropBits] using h, rfl⟩
    | succ n =>
      obtain ⟨hle, h⟩ := Option.ite_none_right_eq_some.1 h
      obtain ⟨l₀, rfl, hw⟩ := ih h
      refine ⟨f :: l₀, rfl, ?_⟩
      rw [width, hw]
      omega

theorem takeBits_spec (h : takeBits n l = some m) : ∃ l₀, l = m ++ l₀ ∧ width m = n := by
  induction l generalizing n m with
  | nil =>
    cases n with
    | zero =>
      obtain rfl : [] = m := by simpa [takeBits] using h
      exact ⟨[], rfl, rfl⟩
    | succ n => simp [takeBits] at h
  | cons f fs ih =>
    cases n with
    | zero =>
      obtain rfl : [] = m := by simpa [takeBits] using h
      exact ⟨f :: fs, rfl, rfl⟩
    | succ n =>
      obtain ⟨hle, h⟩ := Option.ite_none_right_eq_some.1 h
      obtain ⟨m', hm', rfl⟩ := Option.map_eq_some_iff.1 h
      obtain ⟨l₀, rfl, hw⟩ := ih hm'
      refine ⟨l₀, rfl, ?_⟩
      rw [width, hw]
      omega

theorem dropBits_append (h : ∀ f ∈ l₁, 0 < f.width) :
    dropBits (width l₁ + n) (l₁ ++ l₂) = dropBits n l₂ := by
  induction l₁ with
  | nil => rw [width, Nat.zero_add, nil_append]
  | cons f fs ih =>
    obtain ⟨hf, hfs⟩ := forall_mem_cons.1 h
    obtain ⟨k, hk⟩ : ∃ k, width (f :: fs) + n = k + 1 :=
      ⟨f.width + width fs + n - 1, by rw [width]; omega⟩
    have hle : f.width ≤ k + 1 := by
      rw [← hk, width]
      omega
    have hrest : k + 1 - f.width = width fs + n := by
      rw [← hk, width]
      omega
    rw [hk, cons_append, dropBits, if_pos hle, hrest, ih hfs]

theorem slice_append (h : ∀ f ∈ l₁, 0 < f.width) :
    slice (width l₁ + off) w (l₁ ++ l₂) = slice off w l₂ := by
  rw [slice, dropBits_append h, slice]

/-- **The bits of a packed structure are the fields they were written from.** -/
theorem extract_pack (h : slice off w l = some m) : pack l / 2 ^ off % 2 ^ w = pack m := by
  obtain ⟨l', hdrop, htake⟩ := Option.bind_eq_some_iff.1 h
  obtain ⟨l₁, rfl, hl₁⟩ := dropBits_spec hdrop
  obtain ⟨l₂, rfl, hm⟩ := takeBits_spec htake
  subst hl₁ hm
  rw [pack_append, Nat.add_mul_div_left _ _ (Nat.two_pow_pos _), Nat.div_eq_of_lt (pack_lt l₁),
    Nat.zero_add, pack_append, Nat.add_mul_mod_self_left, Nat.mod_eq_of_lt (pack_lt m)]

theorem extractLsb'_pack {k : ℕ} (hk : off + w ≤ k) (h : slice off w l = some m) :
    (BitVec.ofNat k (pack l)).extractLsb' off w = BitVec.ofNat w (pack m) := by
  apply BitVec.eq_of_toNat_eq
  rw [BitVec.extractLsb'_toNat, BitVec.toNat_ofNat, BitVec.toNat_ofNat, Nat.shiftRight_eq_div_pow,
    ← extract_pack h, Nat.mod_mod]
  obtain ⟨d, rfl⟩ : ∃ d, k = off + (w + d) := ⟨k - (off + w), by omega⟩
  rw [pow_add, Nat.mod_mul_right_div_self, pow_add, Nat.mod_mul_right_mod]

theorem getLsbD_pack {k : ℕ} {b : Bool} (hk : off < k) (h : slice off 1 l = some [.flag b]) :
    (BitVec.ofNat k (pack l)).getLsbD off = b := by
  have hbit := extract_pack h
  rw [pow_one] at hbit
  rw [BitVec.getLsbD_ofNat, decide_eq_true hk, Bool.true_and, Nat.testBit_eq_decide_div_mod_eq,
    hbit]
  cases b <;> rfl

/-! ## Bytes -/

/-- The `n` lowest bytes of a word in little-endian order. -/
def leBytes : ℕ → ℕ → List ℕ
  | 0, _ => []
  | n + 1, x => x % 256 :: leBytes n (x / 256)

theorem length_leBytes (n x : ℕ) : (leBytes n x).length = n := by
  induction n generalizing x with
  | zero => rfl
  | succ n ih => rw [leBytes, length_cons, ih]

/-- **A word is read back from its bytes.** -/
theorem ofDigits_leBytes (n x : ℕ) : Nat.ofDigits 256 (leBytes n x) = x % 256 ^ n := by
  induction n generalizing x with
  | zero => simp [leBytes, Nat.mod_one]
  | succ n ih => rw [leBytes, Nat.ofDigits_cons, ih, pow_succ', Nat.mod_mul]

theorem lt_of_mem_leBytes {n x d : ℕ} (h : d ∈ leBytes n x) : d < 256 := by
  induction n generalizing x with
  | zero => exact absurd h not_mem_nil
  | succ n ih =>
    rcases mem_cons.1 h with rfl | h
    · exact Nat.mod_lt x (by decide)
    · exact ih h

theorem leBytes_ofDigits {l : List ℕ} (h : ∀ d ∈ l, d < 256) :
    leBytes l.length (Nat.ofDigits 256 l) = l := by
  induction l with
  | nil => rfl
  | cons d l ih =>
    obtain ⟨hd, hl⟩ := forall_mem_cons.1 h
    rw [length_cons, leBytes, Nat.ofDigits_cons, Nat.add_mul_mod_self_left, Nat.mod_eq_of_lt hd,
      Nat.add_mul_div_left _ _ (by decide), Nat.div_eq_of_lt hd, Nat.zero_add]
    exact congrArg (d :: ·) (ih hl)

theorem drop_leBytes (k n x : ℕ) : (leBytes n x).drop k = leBytes (n - k) (x / 256 ^ k) := by
  induction k generalizing n x with
  | zero => rw [drop_zero, Nat.sub_zero, pow_zero, Nat.div_one]
  | succ k ih =>
    cases n with
    | zero => rw [leBytes, drop_nil, Nat.zero_sub, leBytes]
    | succ n => rw [leBytes, drop_succ_cons, ih, Nat.add_sub_add_right, Nat.div_div_eq_div_mul,
        ← pow_succ']

theorem getElem?_leBytes {k n : ℕ} (h : k < n) (x : ℕ) :
    (leBytes n x)[k]? = some (x / 256 ^ k % 256) := by
  obtain ⟨m, hm⟩ : ∃ m, n - k = m + 1 := ⟨n - k - 1, by omega⟩
  rw [← head?_drop, drop_leBytes, hm, leBytes, head?_cons]

theorem take_leBytes {k n : ℕ} (h : k ≤ n) (x : ℕ) : (leBytes n x).take k = leBytes k x := by
  induction k generalizing n x with
  | zero => rfl
  | succ k ih =>
    obtain ⟨n, rfl⟩ : ∃ m, n = m + 1 := ⟨n - 1, by omega⟩
    rw [leBytes, take_succ_cons, ih (by omega), leBytes]

end OpenRdma.Layout
