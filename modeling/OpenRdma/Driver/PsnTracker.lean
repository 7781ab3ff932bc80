import Mathlib.Data.Nat.Bitwise
import OpenRdma.Driver.Psn
import OpenRdma.Foundations.BitRow

/-!
# The acknowledgement trackers

`PsnTracker` keeps the first packet sequence number not yet acknowledged and a row of bits for the
numbers after it. `LocalAckTracker` feeds it with what the local card reports as received,
`RemoteAckTracker` with what the peer reports. The functions that mutate a tracker return it with
their result.

`PsnTracker.rstart_eq` computes the offset of a sequence number from the base: its sign extension
works on the unmasked 32-bit difference, so a number that is ahead of the base but past the wrap of
24 bits gets a negative offset.
-/

namespace OpenRdma.Driver

open BitRow Option

/-! ## Offsets -/

/-- `x as i32` for a `u32`. -/
def asI32 (x : ℕ) : ℤ := if x < 2 ^ 31 then x else x - 2 ^ 32

/-- `usize::try_from` for a signed integer. -/
def usizeTryFrom (x : ℤ) : Option ℕ := if 0 ≤ x then some x.toNat else none

theorem usizeTryFrom_of_nonneg {x : ℤ} (h : 0 ≤ x) : usizeTryFrom x = some x.toNat := if_pos h

theorem usizeTryFrom_of_neg {x : ℤ} (h : x < 0) : usizeTryFrom x = none := if_neg (by omega)

/-- Grow a row of bits to at least `n` bits. -/
def growTo (v : List Bool) (n : ℕ) : List Bool := if n > v.length then resize v n false else v

theorem bit_growTo (v : List Bool) (n i : ℕ) : bit (growTo v n) i = bit v i := by
  unfold growTo
  split
  · exact bit_resize (by omega) i
  · rfl

theorem growTo_zero (v : List Bool) : growTo v 0 = v := if_neg (by omega)

theorem le_length_growTo (v : List Bool) (n : ℕ) : n ≤ (growTo v n).length := by
  unfold growTo
  split
  · rw [length_resize]
  · omega

/-! ## The tracker of packet sequence numbers -/

/-- The base, and a bit for each number after it. -/
structure PsnTracker where
  basePsn : Psn := default
  inner : List Bool := []
  deriving DecidableEq

namespace PsnTracker

instance : Inhabited PsnTracker := ⟨{}⟩

/-- `PsnTracker::rstart`; its test `((x >> 23) & 1) != 0` is written with division and remainder. -/
def rstart (t : PsnTracker) (psn : Psn) : ℤ :=
  let x := wrappingSub32 psn.inner t.basePsn.inner
  if x / 2 ^ 23 % 2 ≠ 0 then asI32 (x ||| 0xFF000000) else asI32 x

/-- The base moves to the first bit that is not set. -/
def tryAdvance (t : PsnTracker) : PsnTracker × Option Psn :=
  let pos := firstZeroOrLen t.inner
  if pos = 0 then (t, none)
  else
    let psn := t.basePsn + pos
    ({ basePsn := psn, inner := shiftLeft t.inner pos }, some psn)

def ackBitmap (t : PsnTracker) (nowPsn : Psn) (bitmap : BitVec 128) : PsnTracker × Option Psn :=
  let rstart := t.rstart nowPsn
  let rend := rstart + 128
  let inner := (usizeTryFrom rend).elim t.inner fun x => growTo t.inner x
  -- `for i in rstart.max(0)..rend`, testing bit `i - rstart` of the bitmap
  let lo := max rstart 0
  let inner := setWhere (fun i => bitmap.getLsbD (i - rstart).toNat) lo.toNat (rend -
    lo).toNat inner
  tryAdvance { t with inner := inner }

def ackBefore (t : PsnTracker) (psn : Psn) : PsnTracker × Option Psn :=
  (usizeTryFrom (t.rstart psn)).elim (t, none) fun rstart =>
    let inner := if rstart ≥ t.inner.length then fill t.inner false else shiftLeft t.inner rstart
    ({ basePsn := psn, inner := inner }, some psn)

def ackRange (t : PsnTracker) (psnLow psnHigh : Psn) : PsnTracker × Option Psn :=
  if psnLow ≤ t.basePsn then t.ackBefore psnHigh
  else
    (usizeTryFrom (t.rstart psnLow)).elim (t, none) fun rstart =>
      (usizeTryFrom (t.rstart psnHigh)).elim (t, none) fun rend =>
        let inner := growTo t.inner (rend + 1)
        ({ t with inner := setWhere (fun _ => true) rstart (rend - rstart) inner }, none)

def ackOne (t : PsnTracker) (psn : Psn) : PsnTracker × Option Psn :=
  (usizeTryFrom (t.rstart psn)).elim (t, none) fun rstart =>
    let inner := growTo t.inner (rstart + 1)
    tryAdvance { t with inner := inner.set rstart true }

variable {t : PsnTracker} {p q : Psn}

theorem tryAdvance_basePsn (t : PsnTracker) :
    t.tryAdvance.1.basePsn = t.basePsn + firstZeroOrLen t.inner := by
  unfold tryAdvance
  dsimp only
  split_ifs with h
  · rw [h, Psn.add_zero]
  · rfl

theorem bit_tryAdvance (t : PsnTracker) (i : ℕ) :
    bit t.tryAdvance.1.inner i = bit t.inner (i + firstZeroOrLen t.inner) := by
  unfold tryAdvance
  dsimp only
  split_ifs with h
  · rw [h, Nat.add_zero]
  · rw [bit_shiftLeft]

/-! The row of bits each call leaves, before the base advances. -/

theorem ackBefore_of_neg (h : t.rstart p < 0) : t.ackBefore p = (t, none) := by
  rw [ackBefore, usizeTryFrom_of_neg h, elim_none]

/-- The row of bits after the base moved `n` further. -/
def dropBits (v : List Bool) (n : ℕ) : List Bool :=
  if n ≥ v.length then fill v false else shiftLeft v n

theorem bit_dropBits (v : List Bool) (n i : ℕ) : bit (dropBits v n) i = bit v (i + n) := by
  unfold dropBits
  split_ifs with h
  · rw [bit_fill_false, bit_of_length_le (by omega)]
  · rw [bit_shiftLeft]

theorem ackBefore_of_nonneg (h : 0 ≤ t.rstart p) :
    t.ackBefore p = ({ basePsn := p, inner := dropBits t.inner (t.rstart p).toNat }, some p) := by
  rw [ackBefore, usizeTryFrom_of_nonneg h, elim_some, dropBits]

theorem ackRange_of_le (h : p ≤ t.basePsn) : t.ackRange p q = t.ackBefore q := if_pos h

theorem ackRange_of_neg (h : ¬ p ≤ t.basePsn) (h' : t.rstart p < 0 ∨ t.rstart q < 0) :
    t.ackRange p q = (t, none) := by
  rw [ackRange, if_neg h]
  rcases h' with h' | h'
  · rw [usizeTryFrom_of_neg h', elim_none]
  · rw [usizeTryFrom_of_neg h']
    cases usizeTryFrom (t.rstart p) with
    | none => rfl
    | some => rfl

/-- The row of bits with the bits from `lo` to `hi` entered. -/
def enterRange (v : List Bool) (lo hi : ℕ) : List Bool :=
  setWhere (fun _ => true) lo (hi - lo) (growTo v (hi + 1))

theorem bit_enterRange {v : List Bool} {lo hi i : ℕ} :
    bit (enterRange v lo hi) i = true ↔ (lo ≤ i ∧ i < hi) ∨ bit v i = true := by
  unfold enterRange
  have hlen := le_length_growTo v (hi + 1)
  rcases lt_or_ge hi lo with h | h
  · rw [show hi - lo = 0 by omega, setWhere_zero, bit_growTo]
    refine ⟨Or.inr, ?_⟩
    rintro (h' | h')
    · omega
    · exact h'
  · rw [bit_setWhere _ (by omega), bit_growTo, Bool.or_eq_true, Bool.and_true, decide_eq_true_eq,
      show lo + (hi - lo) = hi by omega]

theorem ackRange_of_nonneg (h : ¬ p ≤ t.basePsn) (hp : 0 ≤ t.rstart p) (hq : 0 ≤ t.rstart q) :
    t.ackRange p q =
      ({ t with inner := enterRange t.inner (t.rstart p).toNat (t.rstart q).toNat }, none) := by
  rw [ackRange, if_neg h, usizeTryFrom_of_nonneg hp, usizeTryFrom_of_nonneg hq, elim_some,
    elim_some, enterRange]

theorem ackOne_of_neg (h : t.rstart p < 0) : t.ackOne p = (t, none) := by
  rw [ackOne, usizeTryFrom_of_neg h, elim_none]

/-- The row of bits with bit `n` entered. -/
def enterOne (v : List Bool) (n : ℕ) : List Bool := (growTo v (n + 1)).set n true

theorem bit_enterOne {v : List Bool} {n i : ℕ} : bit (enterOne v n) i = true ↔ i = n ∨
    bit v i = true := by
  have hlen := le_length_growTo v (n + 1)
  rw [enterOne, bit_set (by omega), bit_growTo, Bool.or_eq_true, decide_eq_true_eq]

theorem ackOne_of_nonneg (h : 0 ≤ t.rstart p) :
    t.ackOne p = tryAdvance { t with inner := enterOne t.inner (t.rstart p).toNat } := by
  rw [ackOne, usizeTryFrom_of_nonneg h, elim_some, enterOne]

/-- The row of bits with a bitmap entered at the offset `rstart`. -/
def enterBitmap (v : List Bool) (rstart : ℤ) (bm : BitVec 128) : List Bool :=
  setWhere (fun i => bm.getLsbD (i - rstart).toNat) (max rstart 0).toNat
    (rstart + 128 - max rstart 0).toNat (growTo v (rstart + 128).toNat)

theorem bit_enterBitmap {v : List Bool} {r : ℤ} {bm : BitVec 128} {i : ℕ} :
    bit (enterBitmap v r bm) i = true ↔
      (∃ x : ℕ, bm.getLsbD x = true ∧ (i : ℤ) = r + x) ∨ bit v i = true := by
  have hlen := le_length_growTo v (r + 128).toNat
  unfold enterBitmap
  rcases lt_or_ge (r + 128) 0 with hr | hr
  · rw [show (r + 128 - max r 0).toNat = 0 by omega, setWhere_zero, bit_growTo]
    refine ⟨Or.inr, ?_⟩
    rintro (⟨x, hx, hi⟩ | h)
    · have := BitVec.lt_of_getLsbD hx
      omega
    · exact h
  · rw [bit_setWhere _ (by omega), bit_growTo, Bool.or_eq_true, Bool.and_eq_true, decide_eq_true_eq]
    refine or_congr_left ⟨fun ⟨h₁, h₂⟩ => ⟨_, h₂, by omega⟩, ?_⟩
    rintro ⟨x, hx, hi⟩
    have := BitVec.lt_of_getLsbD hx
    refine ⟨by omega, ?_⟩
    rwa [show ((i : ℤ) - r).toNat = x by omega]

theorem ackBitmap_eq (bm : BitVec 128) :
    t.ackBitmap p bm = tryAdvance { t with inner := enterBitmap t.inner (t.rstart p) bm } := by
  unfold ackBitmap enterBitmap
  dsimp only
  rcases lt_or_ge (t.rstart p + 128) 0 with h | h
  · rw [usizeTryFrom_of_neg h, elim_none, show (t.rstart p + 128).toNat = 0 by omega, growTo_zero]
  · rw [usizeTryFrom_of_nonneg h, elim_some]

end PsnTracker

/-! ## The local and the remote tracker -/

/-- The tracker of what arrived. -/
structure LocalAckTracker where
  psnTracker : PsnTracker := default
  psnPre : Psn := default
  deriving DecidableEq

namespace LocalAckTracker

instance : Inhabited LocalAckTracker := ⟨{}⟩

def basePsn (t : LocalAckTracker) : Psn := t.psnTracker.basePsn

def ackOne (t : LocalAckTracker) (psn : Psn) : LocalAckTracker × Option Psn :=
  let x := t.psnTracker.ackOne psn
  ({ t with psnTracker := x.1 }, x.2)

def ackBitmap (t : LocalAckTracker) (basePsn : Psn) (bitmap : BitVec 128) :
    LocalAckTracker × Option Psn :=
  let x := t.psnTracker.ackRange t.psnPre basePsn
  let y := x.1.ackBitmap basePsn bitmap
  ({ psnTracker := y.1, psnPre := if t.psnPre < basePsn then basePsn else t.psnPre }, y.2.or x.2)

def nakBitmap (t : LocalAckTracker) (psnPre : Psn) (preBitmap : BitVec 128) (psnNow : Psn)
    (nowBitmap : BitVec 128) : LocalAckTracker × Option Psn :=
  let x := t.psnTracker.ackRange t.psnPre psnPre
  let y := x.1.ackBitmap psnPre preBitmap
  let z := y.1.ackBitmap psnNow nowBitmap
  ({ psnTracker := z.1, psnPre := if t.psnPre < psnNow then psnNow else t.psnPre },
    (z.2.or y.2).or x.2)

end LocalAckTracker

/-- The tracker of what the peer acknowledged. -/
structure RemoteAckTracker where
  psnTracker : PsnTracker := default
  msnPre : Msn := default
  psnPre : Psn := default
  deriving DecidableEq

namespace RemoteAckTracker

instance : Inhabited RemoteAckTracker := ⟨{}⟩

def ackBefore (t : RemoteAckTracker) (psn : Psn) : RemoteAckTracker × Option Psn :=
  let x := t.psnTracker.ackBefore psn
  ({ t with psnTracker := x.1 }, x.2)

def nakBitmap (t : RemoteAckTracker) (msn : Msn) (psnPre : Psn) (preBitmap : BitVec 128)
    (psnNow : Psn) (nowBitmap : BitVec 128) : RemoteAckTracker × Option Psn :=
  let x :=
    if msn = t.msnPre.wrappingAdd 1 then t.psnTracker.ackRange t.psnPre psnPre
    else (t.psnTracker, none)
  let y := x.1.ackBitmap psnPre preBitmap
  let z := y.1.ackBitmap psnNow nowBitmap
  let slid := t.psnPre < psnNow
  ({ psnTracker := z.1
     psnPre := if slid then psnNow else t.psnPre
     msnPre := if slid then msn else t.msnPre }, (z.2.or y.2).or x.2)

end RemoteAckTracker

/-! ## What the offset is -/

namespace PsnTracker

theorem or_highByte_of_lt {y : ℕ} (h : y < 2 ^ 24) : y ||| 0xFF000000 = y + 0xFF000000 := by
  rw [Nat.or_comm, show (0xFF000000 : ℕ) = 2 ^ 24 * 255 from rfl, ← Nat.two_pow_add_eq_or_of_lt h,
    Nat.add_comm]

theorem or_highByte_of_highByte {y : ℕ} (h : y < 2 ^ 24) :
    (y + 0xFF000000) ||| 0xFF000000 = y + 0xFF000000 := by
  rw [← or_highByte_of_lt h, Nat.or_assoc, Nat.or_self]

/-- **The offset of a sequence number from the base.** It is the signed distance on the circle,
except for a number ahead of the base past the wrap, which keeps its large negative difference. -/
theorem rstart_eq (t : PsnTracker) (p : Psn) :
    t.rstart p = if (p.inner : ℤ) - t.basePsn.inner < 2 ^ 23 then (p.inner : ℤ) - t.basePsn.inner
      else (p.inner : ℤ) - t.basePsn.inner - 2 ^ 24 := by
  have hp := p.inner_lt
  have hb := t.basePsn.inner_lt
  unfold rstart wrappingSub32
  dsimp only
  rcases lt_or_ge p.inner t.basePsn.inner with h | h
  · -- the unmasked difference keeps the high byte of the borrow
    set y := p.inner + 2 ^ 24 - t.basePsn.inner with hy
    have hx : (2 ^ 32 + p.inner - t.basePsn.inner) % 2 ^ 32 = y + 0xFF000000 := by omega
    rw [hx, or_highByte_of_highByte (by omega), ite_self]
    unfold asI32
    split_ifs <;> omega
  · have hx : (2 ^ 32 + p.inner - t.basePsn.inner) % 2 ^ 32 = p.inner - t.basePsn.inner := by omega
    rw [hx, or_highByte_of_lt (by omega)]
    unfold asI32
    split_ifs <;> omega

end PsnTracker

end OpenRdma.Driver
