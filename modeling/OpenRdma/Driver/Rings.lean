import OpenRdma.Rtl.Ringbuf

/-!
# The rings of descriptors in the driver

The driver counts what it pushed or popped in 32 bits and uses the lowest 12 as the slot; the card
sees the lowest 13. `ConsumerRing` finds out by a bit in the descriptors themselves what the card
has written, and clears the slots it read. `ProducerRing` compares its count with the pointer of the
card.

A call is a sequence of steps, since the card goes on in the meantime: the accesses to the memory
one after the other, and the one to the register of the pointer.
-/

namespace OpenRdma.Driver

open BitVec OpenRdma.Rtl

def bufSizeMask : BitVec 32 := 4095

def hwPtrMask : BitVec 32 := 8191

def bufferAddr (physAddr : BitVec 64) (index : BitVec 32) : BitVec 64 :=
  physAddr + BitVec.ofNat 64 (32 * index.toNat)

theorem toNat_and_bufSizeMask (n : ℕ) : (BitVec.ofNat 32 n &&& bufSizeMask).toNat = n % 4096 := by
  have hmask : bufSizeMask.toNat = 2 ^ 12 - 1 := rfl
  rw [toNat_and, hmask, Nat.and_two_pow_sub_one_eq_mod, toNat_ofNat]
  omega

theorem bufferAddr_ofNat (physAddr : BitVec 64) (n : ℕ) :
    bufferAddr physAddr (BitVec.ofNat 32 n &&& bufSizeMask) = (ringAt physAddr).slot n := by
  rw [bufferAddr, toNat_and_bufSizeMask]
  rfl

theorem bufferAddr_succ (physAddr : BitVec 64) (n : ℕ) :
    bufferAddr physAddr ((BitVec.ofNat 32 n &&& bufSizeMask) + 1 &&& bufSizeMask) =
    (ringAt physAddr).slot (n + 1) := by
  have hidx : (BitVec.ofNat 32 n &&& bufSizeMask) + 1 = BitVec.ofNat 32 (n % 4096 + 1) := by
    rw [ofNat_add, ← toNat_and_bufSizeMask, ofNat_toNat, setWidth_eq]
    rfl
  rw [hidx, bufferAddr_ofNat]
  change physAddr + BitVec.ofNat 64 (32 * ((n % 4096 + 1) % 4096)) = _
  rw [Nat.mod_add_mod]
  rfl

theorem setWidth_ofNat (n : ℕ) : (BitVec.ofNat 32 n).setWidth 13 = BitVec.ofNat 13 n := by
  refine eq_of_toNat_eq ?_
  rw [toNat_setWidth, toNat_ofNat, toNat_ofNat]
  omega

theorem setWidth_and_hwPtrMask (n : ℕ) : (BitVec.ofNat 32 n &&& hwPtrMask).setWidth 13 =
    BitVec.ofNat 13 n := by
  have hmask : hwPtrMask.toNat = 2 ^ 13 - 1 := rfl
  refine eq_of_toNat_eq ?_
  rw [toNat_setWidth, toNat_and, hmask, Nat.and_two_pow_sub_one_eq_mod,
    toNat_ofNat, toNat_ofNat]
  omega

/-! ## From the card -/

/-- Where a call of `ConsumerRing::try_pop` is: before it looks at the memory, with some descriptors
read and some left, or before it writes the tail. -/
inductive TryPop
  | start
  | readAndAdvance (popped : List RawDesc) (left : ℕ)
  | writeTailCsr (popped : List RawDesc)
  deriving DecidableEq

/-- `ConsumerRing`, with the call it is in. -/
structure ConsumerRing where
  physAddr : BitVec 64
  cachedTail : BitVec 32
  call : TryPop

namespace ConsumerRing

/-- How many descriptors `try_pop` takes from the ring: those of the next element, if they are
there. The second descriptor is looked at with the first one, which only the driver removes. -/
def ready (hasNext : RawDesc → Bool) (r : ConsumerRing) (mem : BitVec 64 → RawDesc) : Option ℕ :=
  let idxFirst := r.cachedTail &&& bufSizeMask
  let firstElement := mem (bufferAddr r.physAddr idxFirst)
  if firstElement.valid = true then
    if hasNext firstElement = true then
      let idxNext := (idxFirst + 1) &&& bufSizeMask
      let secondElement := mem (bufferAddr r.physAddr idxNext)
      if secondElement.valid = true then some 2 else none
    else some 1
  else none

variable {hasNext : RawDesc → Bool} {r : ConsumerRing} {mem : BitVec 64 → RawDesc} {n : ℕ}

theorem ready_eq (hn : r.cachedTail = BitVec.ofNat 32 n) : r.ready hasNext mem =
      if (mem ((ringAt r.physAddr).slot n)).valid = true then
        if hasNext (mem ((ringAt r.physAddr).slot n)) = true then
          if (mem ((ringAt r.physAddr).slot (n + 1))).valid = true then some 2 else none
        else some 1
      else none := by
  rw [← bufferAddr_succ, ← bufferAddr_ofNat, ready, hn]

/-- `read_and_advance`: the descriptor, the ring and the memory after it. -/
def readAndAdvance (r : ConsumerRing) (mem : BitVec 64 → RawDesc) :
    RawDesc × ConsumerRing × (BitVec 64 → RawDesc) :=
  let addr := bufferAddr r.physAddr (r.cachedTail &&& bufSizeMask)
  (mem addr, { r with cachedTail := r.cachedTail + 1 }, Function.update mem addr 0)

end ConsumerRing

/-! ## To the card -/

inductive PushKind
  | batchWrite
  | tryPushAtomic
  deriving DecidableEq

/-- A call that has found room: its descriptors and how many of them are written. -/
structure PushCall where
  kind : PushKind
  descs : List RawDesc
  written : ℕ
  deriving DecidableEq

/-- `ProducerRing`, with the call it is in. -/
structure ProducerRing where
  physAddr : BitVec 64
  cachedHead : BitVec 32
  call : Option PushCall

namespace ProducerRing

/-- `available`, with the tail that was read. -/
def available (r : ProducerRing) (hwTail : BitVec 32) : BitVec 32 :=
  let hwTailMod := hwTail &&& bufSizeMask
  let headMod := r.cachedHead &&& bufSizeMask
  let headWithGuard := r.cachedHead &&& hwPtrMask
  if hwTailMod = headMod then
    if headWithGuard = hwTail then 4096 else 0
  else
    let used := (headMod - hwTail + 4096) &&& bufSizeMask
    4096 - used

/-- The checks of a call before it writes. A batch that is empty is not written, and an empty slice
is. -/
def accepts (r : ProducerRing) (hwTail : BitVec 32) : PushKind → List RawDesc → Bool
  | .batchWrite, descs => 0 < descs.length ∧ descs.length ≤ 4096 ∧ descs.length ≤
      (r.available hwTail).toNat
  | .tryPushAtomic, descs => descs.length ≤ (r.available hwTail).toNat

/-- The slot of the next descriptor of a call. -/
def writeIndex (r : ProducerRing) (c : PushCall) : BitVec 32 :=
  match c.kind with
  | .batchWrite => (r.cachedHead + BitVec.ofNat 32 c.written) &&& bufSizeMask
  | .tryPushAtomic => (BitVec.ofNat 32 c.written + (r.cachedHead &&& bufSizeMask)) &&& bufSizeMask

variable {r : ProducerRing} {h t : ℕ}

theorem used_mod {a b : ℕ} (ha : a < 4096) (hb : b < 8192) :
    ((2 ^ 32 - b + a) % 2 ^ 32 + 4096) % 2 ^ 32 % 2 ^ 12 = (a + 8192 - b) % 4096 := by
  omega

theorem toNat_available (hhead : r.cachedHead = BitVec.ofNat 32 h) (hle : t ≤ h)
    (hsize : h ≤ t + 4096) : (r.available ((BitVec.ofNat 13 t).setWidth 32)).toNat = t + 4096 -
    h := by
  have hmask : bufSizeMask.toNat = 2 ^ 12 - 1 := rfl
  have hguard : hwPtrMask.toNat = 2 ^ 13 - 1 := rfl
  have hfull : (4096 : BitVec 32).toNat = 4096 := rfl
  have hzero : (0 : BitVec 32).toNat = 0 := rfl
  have htail : ((BitVec.ofNat 13 t).setWidth 32).toNat = t % 8192 := by
    rw [toNat_setWidth, toNat_ofNat]
    omega
  have htailMod : ((BitVec.ofNat 13 t).setWidth 32 &&& bufSizeMask).toNat = t % 4096 := by
    rw [toNat_and, htail, hmask, Nat.and_two_pow_sub_one_eq_mod]
    omega
  have hheadGuard : (BitVec.ofNat 32 h &&& hwPtrMask).toNat = h % 8192 := by
    rw [toNat_and, hguard, Nat.and_two_pow_sub_one_eq_mod, toNat_ofNat]
    omega
  have hheadMod := toNat_and_bufSizeMask h
  rw [available, hhead]
  simp only [← toNat_inj, htailMod, hheadMod, hheadGuard, htail]
  split
  · split
    · omega
    · omega
  · have hused : ((BitVec.ofNat 32 h &&& bufSizeMask) - (BitVec.ofNat 13 t).setWidth 32 + 4096 &&&
        bufSizeMask).toNat = (h - t) % 4096 := by
      rw [toNat_and, hmask, Nat.and_two_pow_sub_one_eq_mod, toNat_add,
        toNat_sub, hheadMod, htail, hfull,
        used_mod (Nat.mod_lt _ (by decide)) (Nat.mod_lt _ (by decide))]
      omega
    rw [toNat_sub, hused, hfull]
    omega

theorem bufferAddr_writeIndex (hhead : r.cachedHead = BitVec.ofNat 32 h) (c : PushCall) :
    bufferAddr r.physAddr (r.writeIndex c) = (ringAt r.physAddr).slot (h + c.written) := by
  rw [writeIndex, hhead]
  cases c.kind with
  | batchWrite =>
    rw [← ofNat_add, bufferAddr_ofNat]
  | tryPushAtomic =>
    have hidx : BitVec.ofNat 32 c.written + (BitVec.ofNat 32 h &&& bufSizeMask) =
        BitVec.ofNat 32 (h % 4096 + c.written) := by
      rw [ofNat_add, ← toNat_and_bufSizeMask, ofNat_toNat, setWidth_eq,
        BitVec.add_comm]
    rw [hidx, bufferAddr_ofNat]
    change r.physAddr + BitVec.ofNat 64 (32 * ((h % 4096 + c.written) % 4096)) = _
    rw [Nat.mod_add_mod]
    rfl

end ProducerRing

end OpenRdma.Driver
