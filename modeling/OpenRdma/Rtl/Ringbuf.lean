import Mathlib.Algebra.BigOperators.Group.List.Basic
import Mathlib.Data.BitVec
import Mathlib.Data.Nat.Digits.Defs
import OpenRdma.Foundations.Memory

/-!
# The rings of descriptors on the card

`mkRingbufH2c` reads descriptors from a ring in host memory, block by block of 16, and
`mkRingbufC2h` writes them to one, in blocks of 4. A pointer into a ring of 4096 slots has 13 bits:
the slot and a guard bit, by which a full ring differs from an empty one. The side that moves a
pointer keeps a shadow of it that runs ahead: it counts what was asked for, the pointer what was
answered.

Rules that would change nothing are left out.

A descriptor is 256 bits. A packed structure has its first field in its highest bits, so that the
place of a field follows from the widths of the fields after it. The read proxy gathers the
descriptors of one request: the last one comes first in the vector it gives out, after it the one
before it.
-/

namespace OpenRdma.Rtl

/-- A descriptor as the card reads it. -/
abbrev RawDesc := BitVec 256

/-- The bits of 32 bytes in memory, the first byte in the lowest bits. -/
def rawDesc (bytes : List ℕ) : RawDesc := BitVec.ofNat 256 (Nat.ofDigits 256 bytes)

/-- The lowest bit of the field `i` of a packed structure with fields of these widths. -/
def fieldPos (widths : List ℕ) (i : ℕ) : ℕ := (widths.drop (i + 1)).sum

namespace RawDesc

/-- The widths of the head of 16 bits, `RingbufDescCommonHead`, and of the rest. -/
def headWidths : List ℕ := [1, 1, 5, 1, 8, 240]

def valid (d : RawDesc) : Bool := d.getLsbD (fieldPos headWidths 0)

def hasNextFrag (d : RawDesc) : Bool := d.getLsbD (fieldPos headWidths 1)

def opCode (d : RawDesc) : BitVec 8 := d.extractLsb' (fieldPos headWidths 4) 8

end RawDesc

/-- `mkRingbufDescriptorReadProxy` for requests of at most two descriptors. The FIFOs at its ends
are those of the connections. -/
structure ReadProxy where
  segBuf : RawDesc × RawDesc
  curSegCnt : BitVec 2

/-- What the read proxy gives out: the vector of descriptors and the index of the first of the
request. -/
abbrev DescFrags := (RawDesc × RawDesc) × BitVec 2

namespace ReadProxy

/-- The rule of the proxy, for one descriptor. -/
def fillAllReqSegments (s : ReadProxy) (raw : RawDesc) : ReadProxy × Option DescFrags :=
  if raw.hasNextFrag then (⟨(raw, s.segBuf.1), s.curSegCnt + 1⟩, none)
  else (⟨(raw, s.segBuf.1), 0⟩, some ((raw, s.segBuf.1), s.curSegCnt))

/-- What the read proxy gives out for descriptors that enter one after the other. -/
def frags (s : ReadProxy) : List RawDesc → List DescFrags
  | [] => []
  | raw :: raws =>
    let (s', out) := s.fillAllReqSegments raw
    out.toList ++ s'.frags raws

end ReadProxy

/-! ## The rings -/

open BitVec

/-- `Fix128kBRingBufPointer`: the guard bit and the slot. -/
abbrev RingbufPointer := BitVec 13

def RingbufPointer.idx (p : RingbufPointer) : BitVec 12 := p.setWidth 12

/-- The address of the slot of a pointer. -/
def RingbufPointer.addr (baseAddr : BitVec 64) (p : RingbufPointer) : BitVec 64 :=
  baseAddr + (p.idx.setWidth 64 <<< 5)

/-- `DescDataStream`, a descriptor in each beat. -/
structure DescDataStream where
  data : RawDesc
  isFirst : Bool
  isLast : Bool
  deriving DecidableEq

/-! ## From the card to the host -/

structure RingbufDmaWriteReq where
  addr : BitVec 64
  zeroBasedDescWriteCnt : BitVec 2
  deriving DecidableEq

/-- The state of `mkRingbufC2h`. -/
structure RingbufC2h where
  baseAddrReg : BitVec 64
  inputQ : List RawDesc
  bufQ : List RawDesc
  validCounter : BitVec 4
  headReg : RingbufPointer
  tailReg : RingbufPointer
  headShadowReg : RingbufPointer
  dmaWriteAddrQ : List RingbufDmaWriteReq
  dmaWriteDataQ : List DescDataStream
  dmaWriteRespQ : List Bool
  inFlightWriteReqHeaadUpdateQ : List RingbufPointer
  batchDelayCounterReg : BitVec 4
  isSendingDescBodyReg : Bool
  zeroBasedDescWriteCntReg : BitVec 2
  isWriteStreamFirstBeatReg : Bool

namespace RingbufC2h

/-- The state after a reset, with a base address and anything in the register without a reset
value. -/
def init (baseAddr : BitVec 64) (zeroBasedDescWriteCnt : BitVec 2) : RingbufC2h :=
  ⟨baseAddr, [], [], 0, 0, 0, 0, [], [], [], [], 0, false, zeroBasedDescWriteCnt, true⟩

def forwardInput (r : RingbufC2h) : Option RingbufC2h :=
  match r.inputQ with
  | [] => none
  | desc :: descs =>
    if r.bufQ.length < 8 then
      some { r with inputQ := descs, bufQ := r.bufQ ++ [desc], validCounter := r.validCounter + 1 }
    else none

def handleBatchDelay (r : RingbufC2h) : Option RingbufC2h :=
  if r.bufQ = [] then
    if r.batchDelayCounterReg = 0 then none else some { r with batchDelayCounterReg := 0 }
  else if r.batchDelayCounterReg = -1 then none
  else some { r with batchDelayCounterReg := r.batchDelayCounterReg + 1 }

/-- The slots that may be written. -/
def freeSlotCnt (r : RingbufC2h) : RingbufPointer := 4096 - (r.headShadowReg - r.tailReg)

def minBits {w : ℕ} (a b : BitVec w) : BitVec w := if a ≤ b then a else b

/-- How many descriptors the next burst has, less one: no more than fit in the block, are there and
have a free slot. -/
def zeroBasedDescWriteCnt (r : RingbufC2h) : BitVec 2 :=
  let zeroBasedFreeSlotCnt : RingbufPointer := 4095 - (r.headShadowReg - r.tailReg)
  let zeroBasedAvailableDescToWrite : RingbufPointer := (r.validCounter - 1).setWidth 13
  let headShadowRingBufWriteBlockOffset : BitVec 2 := r.headShadowReg.setWidth 2
  let zeroBasedMaxDescWriteCntIfAlignedToWriteBlock : RingbufPointer :=
    3 - headShadowRingBufWriteBlockOffset.setWidth 13
  (minBits (minBits zeroBasedMaxDescWriteCntIfAlignedToWriteBlock zeroBasedAvailableDescToWrite)
    zeroBasedFreeSlotCnt).setWidth 2

def prepareDmaWrite (r : RingbufC2h) : Option RingbufC2h :=
  if r.isSendingDescBodyReg = false ∧ r.batchDelayCounterReg = -1 ∧ r.bufQ ≠ [] ∧
    0 < r.freeSlotCnt ∧
      r.dmaWriteAddrQ.length < 2 then
    some { r with
      dmaWriteAddrQ := r.dmaWriteAddrQ ++ [⟨r.headShadowReg.addr r.baseAddrReg,
        r.zeroBasedDescWriteCnt⟩]
      zeroBasedDescWriteCntReg := r.zeroBasedDescWriteCnt
      isSendingDescBodyReg := true }
  else none

/-- The descriptor that is sent is the last of its burst. -/
def isLast (r : RingbufC2h) : Bool := r.zeroBasedDescWriteCntReg = 0

/-- What `doDmaWrite` does with the next descriptor. -/
def send (r : RingbufC2h) (desc : RawDesc) (descs : List RawDesc) : RingbufC2h :=
  { r with
    bufQ := descs
    validCounter := r.validCounter - 1
    headShadowReg := r.headShadowReg + 1
    dmaWriteDataQ := r.dmaWriteDataQ ++ [⟨desc, r.isWriteStreamFirstBeatReg, r.isLast⟩]
    inFlightWriteReqHeaadUpdateQ :=
      r.inFlightWriteReqHeaadUpdateQ ++ if r.isLast then [r.headShadowReg + 1] else []
    isSendingDescBodyReg := !r.isLast
    zeroBasedDescWriteCntReg := r.zeroBasedDescWriteCntReg - 1
    isWriteStreamFirstBeatReg := r.isLast }

def doDmaWrite (r : RingbufC2h) : Option RingbufC2h :=
  match r.bufQ with
  | [] => none
  | desc :: descs =>
    if r.isSendingDescBodyReg = true ∧ r.dmaWriteDataQ.length < 2 ∧
        (r.isLast = true → r.inFlightWriteReqHeaadUpdateQ.length < 1) then
      some (r.send desc descs)
    else none

def handleWriteResp (r : RingbufC2h) : Option RingbufC2h :=
  match r.dmaWriteRespQ, r.inFlightWriteReqHeaadUpdateQ with
  | _ :: resps, newHead :: heads =>
    some { r with dmaWriteRespQ := resps, inFlightWriteReqHeaadUpdateQ := heads, headReg := newHead }
  | _, _ => none

inductive Rule
  | forwardInput
  | handleBatchDelay
  | prepareDmaWrite
  | doDmaWrite
  | handleWriteResp
  deriving DecidableEq

def fire (r : RingbufC2h) : Rule → Option RingbufC2h
  | .forwardInput => r.forwardInput
  | .handleBatchDelay => r.handleBatchDelay
  | .prepareDmaWrite => r.prepareDmaWrite
  | .doDmaWrite => r.doDmaWrite
  | .handleWriteResp => r.handleWriteResp

end RingbufC2h

/-! ## From the host to the card -/

structure RingbufDmaReadReq where
  addr : BitVec 64
  zeroBasedDescReadCnt : BitVec 4
  deriving DecidableEq

/-- The state of `mkRingbufH2c`. -/
structure RingbufH2c where
  baseAddrReg : BitVec 64
  bufQ : List RawDesc
  outputQ : List RawDesc
  headReg : RingbufPointer
  tailReg : RingbufPointer
  tailShadowReg : RingbufPointer
  dmaReqQ : List RingbufDmaReadReq
  dmaRespQ : List DescDataStream
  isWaitingDmaRespReg : Bool

namespace RingbufH2c

/-- The state after a reset, with a base address. -/
def init (baseAddr : BitVec 64) : RingbufH2c := ⟨baseAddr, [], [], 0, 0, 0, [], [], false⟩

/-- The connection of `bufQ` to `outputQ`. -/
def forwardOutput (r : RingbufH2c) : Option RingbufH2c :=
  match r.bufQ with
  | [] => none
  | desc :: descs =>
    if r.outputQ.length < 16 then some { r with bufQ := descs, outputQ := r.outputQ ++ [desc] }
      else none

/-- The head and the shadow of the tail are in the same block of 16. -/
def isHeadAndTailShadowInTheSameReadBlock (r : RingbufH2c) : Bool :=
  (r.headReg >>> 4).setWidth 11 = (r.tailShadowReg >>> 4).setWidth 11

/-- How many descriptors the next burst has, less one: up to the head or to the end of the block. -/
def zeroBasedDescReadCnt (r : RingbufH2c) : BitVec 4 :=
  if r.isHeadAndTailShadowInTheSameReadBlock then r.headReg.setWidth 4 -
    r.tailShadowReg.setWidth 4 - 1
  else 15 - r.tailShadowReg.setWidth 4

/-- The pointer after the next burst. -/
def newTailShadow (r : RingbufH2c) : RingbufPointer :=
  if r.isHeadAndTailShadowInTheSameReadBlock then r.headReg else ((r.tailShadowReg >>> 4) + 1) <<< 4

def sendDmaReq (r : RingbufH2c) : Option RingbufH2c :=
  if r.isWaitingDmaRespReg = false ∧ r.headReg ≠ r.tailShadowReg ∧ r.bufQ = [] ∧
    r.dmaReqQ.length < 2 then
    some { r with
      dmaReqQ := r.dmaReqQ ++ [⟨r.tailShadowReg.addr r.baseAddrReg, r.zeroBasedDescReadCnt⟩]
      tailShadowReg := r.newTailShadow
      isWaitingDmaRespReg := true }
  else none

/-- `recvDmaResp`, and whether its assertion holds. -/
def recvDmaResp (r : RingbufH2c) : Option (RingbufH2c × Bool) :=
  match r.dmaRespQ with
  | [] => none
  | ds :: resps =>
    if r.isWaitingDmaRespReg = true ∧ r.bufQ.length < 16 then
      let newTail := r.tailReg + 1
      some ({ r with
        dmaRespQ := resps
        bufQ := r.bufQ ++ [ds.data]
        tailReg := newTail
        isWaitingDmaRespReg := !ds.isLast }, !ds.isLast || newTail = r.tailShadowReg)
    else none

end RingbufH2c

/-! ## Slots -/

/-- The ring of slots from a base address on. -/
def ringAt (baseAddr : BitVec 64) : RingSlots (BitVec 64) where
  size := 4096
  slot n := baseAddr + BitVec.ofNat 64 (32 * (n % 4096))
  slot_ne := by
    intro m n h₁ h₂ heq
    have hmod := congrArg BitVec.toNat ((BitVec.add_right_inj baseAddr).1 heq)
    rw [BitVec.toNat_ofNat, BitVec.toNat_ofNat] at hmod
    omega

theorem addr_ofNat (baseAddr : BitVec 64) (n : ℕ) :
    RingbufPointer.addr baseAddr (BitVec.ofNat 13 n) = (ringAt baseAddr).slot n := by
  rw [RingbufPointer.addr, ringAt]
  congr 1
  refine eq_of_toNat_eq ?_
  rw [toNat_shiftLeft, RingbufPointer.idx, toNat_setWidth, toNat_setWidth, toNat_ofNat,
    toNat_ofNat, Nat.shiftLeft_eq]
  omega

theorem slot_add_size (baseAddr : BitVec 64) (n : ℕ) :
    (ringAt baseAddr).slot (n + 4096) = (ringAt baseAddr).slot n := by
  rw [ringAt]
  change baseAddr + BitVec.ofNat 64 (32 * ((n + 4096) % 4096)) = _
  rw [Nat.add_mod_right]

theorem slot_succ (baseAddr : BitVec 64) {n : ℕ} (h : n % 4096 ≠ 4095) :
    (ringAt baseAddr).slot n + 32 = (ringAt baseAddr).slot (n + 1) := by
  have hmod : 32 * ((n + 1) % 4096) = 32 * (n % 4096) + 32 := by omega
  change baseAddr + BitVec.ofNat 64 (32 * (n % 4096)) + BitVec.ofNat 64 32 =
    baseAddr + BitVec.ofNat 64 (32 * ((n + 1) % 4096))
  rw [hmod, BitVec.ofNat_add, BitVec.add_assoc]

end OpenRdma.Rtl
