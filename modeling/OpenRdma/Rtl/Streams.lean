import OpenRdma.Rtl.FrameIO

/-!
# Streams of bytes

A stream of bytes goes over a bus of 32 bytes in beats. It starts at some byte of its first beat and
fills all beats after it, but for the end of the last one. `IsBeat` says what the beat with number
`k` is: the byte `i` of it is the byte at the place `32 * k + i`, counted from the beginning of the
first beat. `IsStream` says this of all beats.
-/

namespace OpenRdma.Rtl

def byteAt {w : ℕ} (data : BitVec w) (i : ℕ) : BitVec 8 := data.extractLsb' (8 * i) 8

/-- The beat with number `k` of a stream that starts at byte `s`. -/
structure IsBeat (s : ℕ) (bytes : List (BitVec 8)) (k : ℕ) (ds : DataStream) : Prop where
  isFirst : ds.isFirst = decide (k = 0)
  isLast : ds.isLast = decide (s + bytes.length ≤ 32 * (k + 1))
  startByteIdx : ds.startByteIdx.toNat = if k = 0 then s else 0
  byteNum : ds.byteNum.toNat = if k = 0 then min (32 - s) bytes.length
    else min 32 (s + bytes.length - 32 * k)
  data : ∀ i < 32, s ≤ 32 * k + i → 32 * k + i < s + bytes.length →
    bytes[32 * k + i - s]? = some (byteAt ds.data i)

def beatCount (s : ℕ) (bytes : List (BitVec 8)) : ℕ := (s + bytes.length + 31) / 32

/-- The beats of a stream that starts at byte `s`. -/
structure IsStream (s : ℕ) (bytes : List (BitVec 8)) (beats : List DataStream) : Prop where
  start_lt : s < 32
  pos : 0 < bytes.length
  length : beats.length = beatCount s bytes
  beat : ∀ k ds, beats[k]? = some ds → IsBeat s bytes k ds

/-- Only the last beat says so. -/
def LastOnly : List DataStream → Prop
  | [] => False
  | [ds] => ds.isLast = true
  | ds :: beats => ds.isLast = false ∧ LastOnly beats

theorem lastOnly_cons {ds : DataStream} {beats : List DataStream} :
    LastOnly (ds :: beats) ↔ beats = [] ∧ ds.isLast = true ∨ LastOnly beats ∧
    ds.isLast = false := by
  cases beats with
  | nil => simp [LastOnly]
  | cons d ds => simp [LastOnly, and_comm]

theorem LastOnly.ne_nil {beats : List DataStream} (h : LastOnly beats) : beats ≠ [] := by
  rintro rfl
  exact h

/-! ## Bytes of shifted data -/

section Bytes

variable {w i : ℕ} (x : BitVec w)

theorem getLsbD_byteAt (i j : ℕ) :
    (byteAt x i).getLsbD j = (decide (j < 8) && x.getLsbD (8 * i + j)) :=
    BitVec.getLsbD_extractLsb' ..

theorem byteAt_setWidth {v : ℕ} (h : 8 * i + 8 ≤ v) : byteAt (x.setWidth v) i = byteAt x i := by
  refine BitVec.eq_of_getLsbD_eq fun j hj => ?_
  have hlt : 8 * i + j < v := by omega
  rw [getLsbD_byteAt, getLsbD_byteAt, BitVec.getLsbD_setWidth, decide_eq_true hlt, Bool.true_and]

theorem byteAt_extractLsb' (m : ℕ) {v : ℕ} (h : 8 * i + 8 ≤ v) :
    byteAt (x.extractLsb' (8 * m) v) i = byteAt x (m + i) := by
  refine BitVec.eq_of_getLsbD_eq fun j hj => ?_
  have hlt : 8 * i + j < v := by omega
  rw [getLsbD_byteAt, getLsbD_byteAt, BitVec.getLsbD_extractLsb', decide_eq_true hlt, Bool.true_and,
    Nat.mul_add, Nat.add_assoc]

theorem byteAt_ushiftRight (o i : ℕ) : byteAt (x >>> (8 * o)) i = byteAt x (i + o) := by
  refine BitVec.eq_of_getLsbD_eq fun j hj => ?_
  have heq : 8 * o + (8 * i + j) = 8 * (i + o) + j := by omega
  rw [getLsbD_byteAt, getLsbD_byteAt, BitVec.getLsbD_ushiftRight, heq]

theorem byteAt_shiftLeft {o : ℕ} (hi : 8 * i + 8 ≤ w) (ho : o ≤ i) :
    byteAt (x <<< (8 * o)) i = byteAt x (i - o) := by
  refine BitVec.eq_of_getLsbD_eq fun j hj => ?_
  have heq : 8 * i + j - 8 * o = 8 * (i - o) + j := by omega
  have hlt : 8 * i + j < w := by omega
  have hge : ¬ 8 * i + j < 8 * o := by omega
  rw [getLsbD_byteAt, getLsbD_byteAt, BitVec.getLsbD_shiftLeft, heq, decide_eq_true hlt,
    decide_eq_false hge, Bool.true_and, Bool.not_false, Bool.true_and]

theorem byteAt_append {n : ℕ} (hi lo : BitVec (8 * n)) (j : ℕ) :
    byteAt (hi ++ lo) j = if j < n then byteAt lo j else byteAt hi (j - n) := by
  refine BitVec.eq_of_getLsbD_eq fun b hb => ?_
  rw [getLsbD_byteAt, BitVec.getLsbD_append]
  by_cases hj : j < n
  · rw [if_pos hj, if_pos (show 8 * j + b < 8 * n by omega), getLsbD_byteAt]
  · have heq : 8 * j + b - 8 * n = 8 * (j - n) + b := by omega
    rw [if_neg hj, if_neg (show ¬ 8 * j + b < 8 * n by omega), getLsbD_byteAt, heq]

end Bytes

end OpenRdma.Rtl
