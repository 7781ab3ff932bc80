import OpenRdma.Link.ReportDescs
import OpenRdma.Rtl.SimpleNic

/-!
# Receiving frames from the simple NIC

The driver takes a descriptor from the receive ring and reads the frame at the slot it names. The
card places slots 2048 bytes apart, the driver looks for them 128 bytes apart: they agree on the
first slot only.
-/

namespace OpenRdma.Rtl

/-- The head of the descriptor of a frame. -/
def newPacketHead : DescHead := ⟨true, false, true, 0⟩

def SimpleNicRxQueueDesc.fields (d : SimpleNicRxQueueDesc) : List Layout.Field :=
  newPacketHead.fields ++ [⟨16, 0⟩, ⟨32, d.len.toNat⟩, ⟨32, d.slotIdx.toNat⟩, ⟨32, 0⟩,
    ⟨64, 0⟩, ⟨64, 0⟩]

def SimpleNicRxQueueDesc.image (d : SimpleNicRxQueueDesc) : List ℕ := descBytes (packDesc d.fields)

end OpenRdma.Rtl

namespace OpenRdma.Driver

namespace SimpleNicRxQueueDesc

/-- `SimpleNicRxQueueDesc::slot_idx`, the second field of the word 2. -/
def slotIdx (bytes : List ℕ) : BitVec 32 := chunkField bytes 2 32 32

/-- `SimpleNicRxQueueDesc::len`, the first field of the word 3. -/
def len (bytes : List ℕ) : BitVec 32 := chunkField bytes 3 0 32

end SimpleNicRxQueueDesc

def frameSlotSize : ℕ := 128

/-- `FrameRxQueue::recv_nonblocking` with a descriptor from the ring and the `rxBufLen` bytes of the
buffer at `base`. There is no result if the range is not in the buffer: `MmapMut::get` panics. -/
def recvNonblocking (rxBufLen : ℕ) (memory : ℕ → BitVec 8) (base : ℕ) (desc : List ℕ) :
    Option (List (BitVec 8)) :=
  let pos := (SimpleNicRxQueueDesc.slotIdx desc).toNat * frameSlotSize
  let len := (SimpleNicRxQueueDesc.len desc).toNat
  if pos + len ≤ rxBufLen then some (readAt memory (base + pos) len) else none

end OpenRdma.Driver

namespace OpenRdma.Link

open Layout List OpenRdma.Driver OpenRdma.Rtl

/-! ## The descriptor -/

section

variable (d : Rtl.SimpleNicRxQueueDesc)
include d

theorem width_fields : width d.fields.reverse = 256 := by
  simp [Rtl.SimpleNicRxQueueDesc.fields, DescHead.fields, width, Field.flag]

theorem slotIdx_image : SimpleNicRxQueueDesc.slotIdx d.image = d.slotIdx :=
  chunkField_packDesc (width_fields d) rfl

theorem len_image : SimpleNicRxQueueDesc.len d.image = d.len :=
  chunkField_packDesc (width_fields d) rfl

theorem recvNonblocking_image (rxBufLen : ℕ) (memory : ℕ → BitVec 8) (base : ℕ) :
    recvNonblocking rxBufLen memory base d.image = if d.slotIdx.toNat * 128 + d.len.toNat ≤
    rxBufLen then
      some (readAt memory (base + d.slotIdx.toNat * 128) d.len.toNat) else none := by
  rw [recvNonblocking, slotIdx_image, len_image]
  rfl

end

/-! ## The card and the driver -/

/-- The card and the frames the driver received. -/
structure NicSystem where
  card : SimpleNicRx
  received : List (List (BitVec 8))

/-- A step of the card, or a call of `recv_nonblocking` that finds a descriptor. -/
inductive NicLabel
  | card (l : NicRxLabel)
  | recvNonblocking

namespace NicSystem

def init : NicSystem := ⟨.init, []⟩

/-- One step, with `m₀` in the memory at the beginning. The buffer of the driver is where the card
writes, and the ring gives the descriptors of the card in order. -/
def step (rxBufLen : ℕ) (chunk : BitVec 4) (m₀ : ℕ → BitVec 8) (s : NicSystem) :
    NicLabel → Option NicSystem
  | .card l => (s.card.step chunk l).map fun card => { s with card }
  | .recvNonblocking => do
    let desc ← s.card.descs[s.received.length]?
    let frame ← recvNonblocking rxBufLen (s.card.memory m₀) s.card.rxBufferBaseAddrReg.toNat
      desc.image
    return { s with received := s.received ++ [frame] }

/-- Frames have at most 2048 bytes, and a slot is given to a frame only after the frame that had it
before was received. -/
def Drained (s : NicSystem) : NicLabel → Prop
  | .card .forwardRxDsLengthToChunkCalc => s.card.placed < s.received.length + 1024
  | .card l => s.card.FitsSlot l
  | .recvNonblocking => True

/-- The frame `i` is received as it came in. -/
def Delivers (rxBufLen : ℕ) (chunk : BitVec 4) (m₀ : ℕ → BitVec 8) (i : ℕ) : Prop :=
  ∀ ls s, Run (step rxBufLen chunk m₀) Drained init ls s → i < s.received.length →
    s.received[i]? = s.card.frames[i]?

variable {rxBufLen : ℕ} {chunk : BitVec 4} {m₀ : ℕ → BitVec 8} {s s' : NicSystem}

/-! ## Frames of the first slot -/

/-- What is received of the first slot is what came in. -/
structure Inv (chunk : BitVec 4) (m₀ : ℕ → BitVec 8) (s : NicSystem) : Prop where
  card : s.card.Inv chunk m₀
  placed : s.card.placed ≤ s.received.length + 1024
  received : s.received.length ≤ s.card.descs.length
  first : ∀ i, i < s.received.length → i % 1024 = 0 → s.received[i]? = s.card.frames[i]?

theorem step_card {l : NicRxLabel} {c : SimpleNicRx} {received : List (List (BitVec 8))}
    {c' : SimpleNicRx} (h : c.step chunk l = some c') :
    step rxBufLen chunk m₀ ⟨c, received⟩ (.card l) = some ⟨c', received⟩ := by
  rw [step, h]
  rfl

theorem Drained.fitsSlot {l : NicRxLabel} (h : s.Drained (.card l)) : s.card.FitsSlot l := by
  cases l with
  | forwardRxDsLengthToChunkCalc => trivial
  | _ => exact h

theorem Inv.step {l : NicLabel} (h : Inv chunk m₀ s) (hchunk : chunk = 9 ∨ chunk = 12)
    (hl : s.Drained l) (hs : s.step rxBufLen chunk m₀ l = some s') : Inv chunk m₀ s' := by
  cases l with
  | card l =>
    obtain ⟨c', hc, rfl⟩ := Option.map_eq_some_iff.1 hs
    have hfacts := SimpleNicRx.changes_of_step hc
    obtain ⟨fs, hframes⟩ := hfacts.frames
    refine ⟨h.card.step hchunk hl.fitsSlot hc, ?_, h.received.trans hfacts.descs, fun i hi h0 => ?_⟩
    · obtain heq | ⟨rfl, heq⟩ := hfacts.placed
      · rw [heq]
        exact h.placed
      · rw [heq]
        exact hl
    · have hlt : i < s.card.frames.length := (hi.trans_le h.received).trans_le h.card.le
      rw [h.first i hi h0, ← hframes, getElem?_append_left hlt]
  | recvNonblocking =>
    obtain ⟨desc, hdesc, hs⟩ := Option.bind_eq_some_iff.1 hs
    obtain ⟨frame, hframe, hs⟩ := Option.bind_eq_some_iff.1 hs
    cases hs
    have hlt : s.received.length < s.card.descs.length := (List.getElem?_eq_some_iff.1 hdesc).1
    have hplaced := h.placed
    refine ⟨h.card, ?_, ?_, fun i hi h0 => ?_⟩
    · rw [length_append]
      exact hplaced.trans (by omega)
    · rw [length_append]
      exact hlt
    · rw [length_append, length_singleton] at hi
      rcases Nat.lt_succ_iff_lt_or_eq.1 hi with hi | rfl
      · rw [getElem?_append_left hi]
        exact h.first i hi h0
      · -- both look for the slot at the start of the buffer
        obtain ⟨f, hf⟩ : ∃ f, s.card.frames[s.received.length]? = some f :=
          ⟨_, getElem?_eq_getElem (hlt.trans_le h.card.le)⟩
        have hsize := (h.card.sizes f (mem_of_getElem? hf)).2
        obtain rfl := Option.some.inj (hdesc.symm.trans (h.card.descs _ f hlt hf))
        have hholds := h.card.kept _ f hlt hf hplaced
        have hlen : (BitVec.ofNat 32 f.length).toNat = f.length := by
          rw [BitVec.toNat_ofNat]
          omega
        have hread := hholds.readAt_eq
        rw [recvNonblocking_image, hlen, h0, h.card.base] at hframe
        obtain ⟨-, hframe⟩ := Option.ite_none_right_eq_some.1 hframe
        rw [SimpleNicRx.slotAddr, h0] at hread
        rw [getElem?_concat_length, hf, ← hframe]
        exact congrArg some hread

/-! ## Frames of the other slots -/

/-- The card after `n` frames that were all written. -/
def idle (n : ℕ) (frames : List (List (BitVec 8))) (dmaWrites : List NicDmaWrite)
    (descs : List Rtl.SimpleNicRxQueueDesc) : SimpleNicRx :=
  ⟨[], BitVec.ofNat 10 n, 0, 0, [], [], [], [], [], [], [], frames, dmaWrites, descs⟩

theorem responses_one (chunk : BitVec 4) (slot : BitVec 10) :
    (SimpleNicRx.chunkReq chunk 0 slot 1).preCalc.responses =
      [⟨(SimpleNicRx.chunkReq chunk 0 slot 1).startAddr, 1, true, true⟩] := by
  have hcnt : (SimpleNicRx.chunkReq chunk 0 slot 1).preCalc.zeroBasedChunkCnt = 0 := by
    simp [AddressChunkReq.preCalc, SimpleNicRx.chunkReq]
  rw [PreCalcResult.responses, PreCalcResult.firstBeat, hcnt]
  rfl

/-- The write of a frame of one byte, the frame `n`. -/
def oneByteWrite (chunk : BitVec 4) (n : ℕ) (v : BitVec 8) : NicDmaWrite :=
  ⟨n, (SimpleNicRx.chunkReq chunk 0 (BitVec.ofNat 10 n) 1).startAddr, 1, [v]⟩

/-- The descriptor of a frame of one byte. -/
def oneByteDesc (n : ℕ) : Rtl.SimpleNicRxQueueDesc := ⟨(BitVec.ofNat 10 n).setWidth 32, 1⟩

/-- The card after one more frame of one byte. -/
def afterOneByte (chunk : BitVec 4) (n : ℕ) (frames : List (List (BitVec 8)))
    (writes : List NicDmaWrite) (descs : List Rtl.SimpleNicRxQueueDesc) (v : BitVec 8) :
    SimpleNicRx :=
  idle (n + 1) (frames ++ [[v]]) (writes ++ [oneByteWrite chunk n v]) (descs ++ [oneByteDesc n])

variable {n : ℕ} {frames received : List (List (BitVec 8))} {writes : List NicDmaWrite}
  {descs : List Rtl.SimpleNicRxQueueDesc} {v : BitVec 8}

theorem steps_oneByte (chunk : BitVec 4) (frames : List (List (BitVec 8)))
    (writes : List NicDmaWrite) (v : BitVec 8) (hn : descs.length = n) : ∃ c₁ c₂ c₃,
    (idle n frames writes descs).step chunk (.calcPacketLenAndPutToBuffer [v] true) = some c₁ ∧
    c₁.step chunk .forwardRxDsLengthToChunkCalc = some c₂ ∧
    c₂.step chunk .forwardRxDmaChunkSplitReq = some c₃ ∧
    c₃.step chunk .forwardRxChunkedDataStreamToDma =
    some (afterOneByte chunk n frames writes descs v) ∧ c₁.placed = n := by
  subst hn
  have hcur : BitVec.ofNat 10 (descs.length + 1) = BitVec.ofNat 10 descs.length + 1 :=
    BitVec.ofNat_add _ 1
  refine ⟨_, { idle (descs.length + 1) (frames ++ [[v]]) writes descs with
    rxAddrChunker := [⟨(SimpleNicRx.chunkReq chunk 0 (BitVec.ofNat 10 descs.length) 1).startAddr, 1,
      true, true⟩]
    rxSplitorStreams := [[v]]
    rxDescMetaPipelineQ := [(BitVec.ofNat 10 descs.length, 1)] }, _, rfl, ?_, rfl, ?_, rfl⟩
  · simp only [idle, hcur, ← responses_one]
    rfl
  · have hcnt (r : AddressChunkResp) (hr : r.len = 1) :
      SimpleNicRx.alignBlockCntForDmaBurst r = 1 := by
      rw [SimpleNicRx.alignBlockCntForDmaBurst, hr]
      rfl
    simp only [SimpleNicRx.step, SimpleNicRx.forwardRxChunkedDataStreamToDma, idle, nil_append,
      hcnt]
    rfl

theorem recvNonblocking_oneByte (hlen : 1024 * frameSlotSize ≤ rxBufLen)
    (m : ℕ → BitVec 8) (n : ℕ) : recvNonblocking rxBufLen m (0 : BitVec 64).toNat
    (oneByteDesc n).image = some [m (128 * (n % 1024))] := by
  have hslot : (oneByteDesc n).slotIdx.toNat = n % 1024 := by
    simp only [oneByteDesc, BitVec.toNat_setWidth, BitVec.toNat_ofNat]
    omega
  have hone : (oneByteDesc n).len.toNat = 1 := rfl
  have hzero : (0 : BitVec 64).toNat = 0 := rfl
  rw [frameSlotSize] at hlen
  rw [recvNonblocking_image, hslot, hone, hzero, if_pos (by omega), Nat.zero_add, Nat.mul_comm]
  rfl

/-- A frame of one byte comes in, is written and is received. -/
def oneByteFrame (v : BitVec 8) : List NicLabel :=
  (SimpleNicRx.oneBeatFrame [v]).map .card ++ [.recvNonblocking]

theorem run_oneByteFrame (hlen : 1024 * frameSlotSize ≤ rxBufLen) {ls : List NicLabel}
    (h : Run (step rxBufLen chunk m₀) Drained init ls ⟨idle n frames writes descs, received⟩)
    (hdescs : descs.length = n) (hreceived : received.length = n) (v : BitVec 8) :
    Run (step rxBufLen chunk m₀) Drained init (ls ++ oneByteFrame v)
      ⟨afterOneByte chunk n frames writes descs v,
        received ++ [[(afterOneByte chunk n frames writes descs v).memory m₀
          (128 * (n % 1024))]]⟩ := by
  obtain ⟨c₁, c₂, c₃, hs₁, hs₂, hs₃, hs₄, hplaced⟩ := steps_oneByte chunk frames writes v hdescs
  have h₁ := h.snoc (l := NicLabel.card (.calcPacketLenAndPutToBuffer [v] true))
    (Nat.le_of_ble_eq_true rfl) (step_card hs₁)
  have h₂ := h₁.snoc (l := NicLabel.card .forwardRxDsLengthToChunkCalc)
    (show c₁.placed < received.length + 1024 by omega) (step_card hs₂)
  have h₃ := h₂.snoc (l := NicLabel.card .forwardRxDmaChunkSplitReq) trivial (step_card hs₃)
  have h₄ := h₃.snoc (l := NicLabel.card .forwardRxChunkedDataStreamToDma) trivial (step_card hs₄)
  have hdesc : (afterOneByte chunk n frames writes descs v).descs[received.length]? =
    some (oneByteDesc n) := by
    rw [hreceived, ← hdescs]
    exact getElem?_concat_length
  have h₅ := h₄.snoc (l := NicLabel.recvNonblocking) trivial (Option.bind_eq_some_iff.2 ⟨_, hdesc,
    Option.bind_eq_some_iff.2 ⟨_, recvNonblocking_oneByte hlen _ n, rfl⟩⟩)
  rw [append_assoc, append_assoc, append_assoc, append_assoc] at h₅
  exact h₅

theorem exists_run (hlen : 1024 * frameSlotSize ≤ rxBufLen) (chunk : BitVec 4)
    (m₀ : ℕ → BitVec 8) (n : ℕ) : ∃ ls frames writes descs received,
    Run (step rxBufLen chunk m₀) Drained init ls ⟨idle n frames writes descs, received⟩ ∧
    frames.length = n ∧
      descs.length = n ∧ received.length = n := by
  induction n with
  | zero => exact ⟨[], [], [], [], [], .nil, rfl, rfl, rfl⟩
  | succ n ih =>
    obtain ⟨ls, frames, writes, descs, received, hrun, hframes, hdescs, hreceived⟩ := ih
    exact ⟨_, _, _, _, _, run_oneByteFrame hlen hrun hdescs hreceived 0,
      by rw [length_append, hframes]; rfl, by rw [length_append, hdescs]; rfl,
      by rw [length_append, hreceived]; rfl⟩

theorem memory_afterOneByte (hn : n % 1024 ≠ 0) :
    (afterOneByte chunk n frames writes descs v).memory m₀ (128 * (n % 1024)) =
      (idle n frames writes descs).memory m₀ (128 * (n % 1024)) := by
  have haddr : (oneByteWrite chunk n v).addr.toNat = 2048 * (n % 1024) :=
    SimpleNicRx.startAddr_chunkReq chunk n 1
  rw [SimpleNicRx.memory_of_append (s := idle n frames writes descs) (w := oneByteWrite chunk n v)
    rfl]
  exact overwrite_of_notMem (by rw [haddr]; omega)

/-- **A frame is received as it came in exactly if it is in the first slot.** -/
theorem delivers_iff (hlen : 1024 * frameSlotSize ≤ rxBufLen) (hchunk : chunk = 9 ∨ chunk = 12)
    (m₀ : ℕ → BitVec 8) (i : ℕ) : Delivers rxBufLen chunk m₀ i ↔ i % 1024 = 0 := by
  constructor
  · intro hall
    by_contra hi
    obtain ⟨ls, frames, writes, descs, received, hrun, hframes, hdescs, hreceived⟩ :=
      exists_run hlen chunk m₀ i
    -- a byte that is not what stands where the driver looks
    have hlast := run_oneByteFrame hlen hrun hdescs hreceived
      ((idle i frames writes descs).memory m₀ (128 * (i % 1024)) + 1)
    have heq := hall _ _ hlast (by rw [length_append, hreceived]; exact Nat.lt_succ_self i)
    rw [memory_afterOneByte hi] at heq
    change (received ++ _)[i]? = (frames ++ _)[i]? at heq
    rw [← hreceived, getElem?_concat_length, hreceived, ← hframes,
      getElem?_concat_length] at heq
    have hself := (List.cons.inj (Option.some.inj heq)).1
    rw [left_eq_add] at hself
    exact absurd hself (by decide)
  · intro h0 ls s hrun hi
    have hinv : Inv chunk m₀ s := hrun.invariant (I := fun _ s => Inv chunk m₀ s)
      ⟨SimpleNicRx.inv_init chunk m₀, Nat.zero_le _, Nat.le_refl 0,
        fun i hi => absurd hi (Nat.not_lt_zero i)⟩
      fun _ _ _ _ hI hok hs => hI.step hchunk hok hs
    exact hinv.first i hi h0

/-- A frame of the byte 7 is the first one, and it is received. -/
theorem delivers_first : ∃ s, Run (step 2097152 9 fun _ => 0) Drained init (oneByteFrame 7) s ∧
    s.card.frames[0]? = some [7] ∧ s.received[0]? = s.card.frames[0]? := by
  have hnil : Run (step 2097152 9 fun _ => 0) Drained init [] ⟨idle 0 [] [] [], []⟩ := .nil
  have h₁ := run_oneByteFrame (by decide) hnil rfl rfl 7
  exact ⟨_, h₁, rfl, (delivers_iff (by decide) (.inl rfl) _ 0).2 rfl _ _ h₁ Nat.one_pos⟩

/-- **The second frame is not received.** Two frames of one byte, 1 and 2, come in: the driver reads
what was in the memory before instead of the second one. -/
theorem run_second_frame_lost : ∃ s,
    Run (step 2097152 9 fun _ => 0) Drained init (oneByteFrame 1 ++ oneByteFrame 2) s ∧
      s.card.frames = [[1], [2]] ∧ s.received = [[1], [0]] := by
  have hnil : Run (step 2097152 9 fun _ => 0) Drained init [] ⟨idle 0 [] [] [], []⟩ := .nil
  have h₁ := run_oneByteFrame (by decide) hnil rfl rfl 1
  have h₂ := run_oneByteFrame (by decide) h₁ rfl rfl 2
  exact ⟨_, h₂, rfl, by decide +kernel⟩

end NicSystem

end OpenRdma.Link
