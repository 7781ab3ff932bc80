import OpenRdma.Foundations.Memory
import OpenRdma.Rtl.AddressChunker

/-!
# The receive path of the simple NIC

Frames that are not of RDMA are written to a buffer of 1024 slots of 2048 bytes, one after the
other. The length of a frame is counted while it comes in, the range of its slot is cut at the
bursts of the bus, and the frame is cut accordingly; with its last piece a descriptor with the
number of the slot is given out. The base address of the buffer that the driver configures is put in
a queue nothing reads, so the writes go to the buffer at address 0.
-/

namespace OpenRdma.Rtl

open List Option

/-! ## The rules -/

/-- A DMA write of `forwardRxChunkedDataStreamToDma`, its meta data and the stream that goes with
it, and the number of the frame, counted by the descriptors. -/
structure NicDmaWrite where
  frame : ℕ
  addr : BitVec 64
  totalLen : BitVec 32
  data : List (BitVec 8)
  deriving DecidableEq

/-- The write is to the `n` bytes from `a` on. -/
def NicDmaWrite.Inside (w : NicDmaWrite) (a n : ℕ) : Prop :=
  a ≤ w.addr.toNat ∧ w.addr.toNat + w.totalLen.toNat ≤ a + n

/-- `SimpleNicRxQueueDesc`, without the reserved fields and the head. -/
structure SimpleNicRxQueueDesc where
  slotIdx : BitVec 32
  len : BitVec 32
  deriving DecidableEq

/-- The receive side of `mkSimpleNic` with the queue the command for it ends in. The chunker is
given by the responses to come, the splitter by the streams it holds. The queues are not bounded, so
that more orders of the rules are possible than in the card. The last three fields are the history:
the frames that came in, the writes and the descriptors. -/
structure SimpleNicRx where
  setRawPacketReceiveMetaReqQ : List (BitVec 64)
  curSlotIdxReg : BitVec 10
  rxBufferBaseAddrReg : BitVec 64
  rawEthernetPacketLengthReg : BitVec 16
  rawEthernetPacketLengthQueue : List (BitVec 16)
  rxAddrChunker : List AddressChunkResp
  rxSplitorIncoming : List (BitVec 8)
  rxSplitorStreams : List (List (BitVec 8))
  rxSplitorStreamAlignBlockCount : List (BitVec 12)
  forwardRxChunkedDataStreamToDmaPipelineQ : List AddressChunkResp
  rxDescMetaPipelineQ : List (BitVec 10 × BitVec 16)
  frames : List (List (BitVec 8))
  dmaWrites : List NicDmaWrite
  descs : List SimpleNicRxQueueDesc
  deriving DecidableEq

/-- A command is answered, a beat comes in, or a rule fires. -/
inductive NicRxLabel
  | setRawPacketReceiveMeta (baseAddr : BitVec 64)
  | calcPacketLenAndPutToBuffer (beat : List (BitVec 8)) (isLast : Bool)
  | forwardRxDsLengthToChunkCalc
  | forwardRxDmaChunkSplitReq
  | forwardRxChunkedDataStreamToDma
  deriving DecidableEq

namespace SimpleNicRx

def init : SimpleNicRx := ⟨[], 0, 0, 0, [], [], [], [], [], [], [], [], [], []⟩

/-- `calcPacketLenAndPutToBuffer`. A beat has 32 bytes, and the last one of a frame has one to
32. -/
def calcPacketLenAndPutToBuffer (s : SimpleNicRx) (beat : List (BitVec 8)) (isLast : Bool) :
    Option SimpleNicRx :=
  if 1 ≤ beat.length ∧ beat.length ≤ 32 ∧ (isLast = false → beat.length = 32) then
    let newLength := s.rawEthernetPacketLengthReg + BitVec.ofNat 16 beat.length
    if isLast then
      some { s with
        rxSplitorIncoming := []
        rxSplitorStreams := s.rxSplitorStreams ++ [s.rxSplitorIncoming ++ beat]
        rawEthernetPacketLengthReg := 0
        rawEthernetPacketLengthQueue := s.rawEthernetPacketLengthQueue ++ [newLength]
        frames := s.frames ++ [s.rxSplitorIncoming ++ beat] }
    else
      some { s with
        rxSplitorIncoming := s.rxSplitorIncoming ++ beat
        rawEthernetPacketLengthReg := newLength }
  else none

/-- The request for the chunks of a frame, with `chunk` the logarithm of
`PCIE_MAX_BYTE_IN_BURST`. -/
def chunkReq (chunk : BitVec 4) (base : BitVec 64) (slotIdx : BitVec 10) (totalLen : BitVec 16) :
    AddressChunkReq where
  startAddr := base + slotIdx.setWidth 64 <<< 11
  len := totalLen.setWidth 32
  chunk := chunk

def forwardRxDsLengthToChunkCalc (chunk : BitVec 4) (s : SimpleNicRx) : Option SimpleNicRx :=
  match s.rawEthernetPacketLengthQueue with
  | [] => none
  | totalLen :: lens =>
    some { s with
      rawEthernetPacketLengthQueue := lens
      curSlotIdxReg := s.curSlotIdxReg + 1
      rxAddrChunker := s.rxAddrChunker ++
        (chunkReq chunk s.rxBufferBaseAddrReg s.curSlotIdxReg totalLen).preCalc.responses
      rxDescMetaPipelineQ := s.rxDescMetaPipelineQ ++ [(s.curSlotIdxReg, totalLen)] }

/-- The number of words of a chunk. -/
def alignBlockCntForDmaBurst (chunkInfo : AddressChunkResp) : BitVec 12 :=
  ((chunkInfo.len + 3) >>> 2).setWidth 12

def forwardRxDmaChunkSplitReq (s : SimpleNicRx) : Option SimpleNicRx :=
  match s.rxAddrChunker with
  | [] => none
  | chunkInfo :: chunks =>
    some { s with
      rxAddrChunker := chunks
      rxSplitorStreamAlignBlockCount :=
        s.rxSplitorStreamAlignBlockCount ++ [alignBlockCntForDmaBurst chunkInfo]
      forwardRxChunkedDataStreamToDmaPipelineQ :=
        s.forwardRxChunkedDataStreamToDmaPipelineQ ++ [chunkInfo] }

/-- `forwardRxChunkedDataStreamToDma`, for all beats of a stream that the splitter cuts off: as many
words as were asked for, or the rest of the frame. -/
def forwardRxChunkedDataStreamToDma (s : SimpleNicRx) : Option SimpleNicRx :=
  match s.forwardRxChunkedDataStreamToDmaPipelineQ, s.rxSplitorStreamAlignBlockCount,
    s.rxSplitorStreams with
  | chunkInfo :: chunks, cnt :: cnts, stream :: streams =>
    let rest := stream.drop (4 * cnt.toNat)
    let s' := { s with
      forwardRxChunkedDataStreamToDmaPipelineQ := chunks
      rxSplitorStreamAlignBlockCount := cnts
      rxSplitorStreams := if rest = [] then streams else rest :: streams
      dmaWrites := s.dmaWrites ++
        [⟨s.descs.length, chunkInfo.startAddr, chunkInfo.len, stream.take (4 * cnt.toNat)⟩] }
    if chunkInfo.isLast then
      match s.rxDescMetaPipelineQ with
      | [] => none
      | (slotIdx, totalLen) :: metas =>
        some { s' with
          rxDescMetaPipelineQ := metas
          descs := s.descs ++ [⟨slotIdx.setWidth 32, totalLen.setWidth 32⟩] }
    else some s'
  | _, _, _ => none

/-- One step. The queue of the command holds one entry. -/
def step (chunk : BitVec 4) (s : SimpleNicRx) : NicRxLabel → Option SimpleNicRx
  | .setRawPacketReceiveMeta baseAddr =>
    if s.setRawPacketReceiveMetaReqQ = [] then
      some { s with setRawPacketReceiveMetaReqQ := [baseAddr] }
    else none
  | .calcPacketLenAndPutToBuffer beat isLast => s.calcPacketLenAndPutToBuffer beat isLast
  | .forwardRxDsLengthToChunkCalc => s.forwardRxDsLengthToChunkCalc chunk
  | .forwardRxDmaChunkSplitReq => s.forwardRxDmaChunkSplitReq
  | .forwardRxChunkedDataStreamToDma => s.forwardRxChunkedDataStreamToDma

/-! ## The chunks of a frame -/

/-- Where the slot of a frame starts in the buffer. -/
def slotAddr (frame : ℕ) : ℕ := 2048 * (frame % 1024)

/-- The responses cut the range from `a` to `e` such that all but the last, which is marked, are of
whole words. -/
structure Cuts (a : ℕ) (rs : List AddressChunkResp) (e : ℕ) : Prop where
  tiles : Tiles a (rs.map (·.range)) e
  last : rs.map (·.isLast) = replicate (rs.length - 1) false ++ [true]
  words : ∀ r ∈ rs.dropLast, 4 ∣ r.len.toNat

variable {a e : ℕ} {r : AddressChunkResp} {rs : List AddressChunkResp}

theorem Cuts.ne_nil (h : Cuts a rs e) : rs ≠ [] := by
  rintro rfl
  exact absurd h.last (by simp)

theorem Cuts.lt (h : Cuts a rs e) : a < e := by
  obtain ⟨r, rs, rfl⟩ := exists_cons_of_ne_nil h.ne_nil
  have hsum := h.tiles.2.2.sum
  have hpos := h.tiles.2.1
  omega

theorem Cuts.cons (h : Cuts a (r :: rs) e) : r.startAddr.toNat = a ∧ a + r.len.toNat ≤ e ∧
    (rs = [] ∧ r.isLast = true ∧ a + r.len.toNat = e ∨
      r.isLast = false ∧ 4 ∣ r.len.toNat ∧ Cuts (a + r.len.toNat) rs e) := by
  obtain ⟨⟨hstart, hpos, htiles⟩, hlast, hwords⟩ := h
  cases rs with
  | nil =>
    have hend : a + r.len.toNat = e := htiles
    exact ⟨hstart, hend.le, .inl ⟨rfl, by simpa using hlast, hend⟩⟩
  | cons r' rs =>
    simp only [map_cons, length_cons, Nat.add_sub_cancel, replicate_succ, cons_append,
      cons.injEq] at hlast
    rw [dropLast_cons_cons, forall_mem_cons] at hwords
    have hcuts : Cuts (a + r.len.toNat) (r' :: rs) e := ⟨htiles, by simpa using hlast.2, hwords.2⟩
    exact ⟨hstart, hcuts.lt.le, .inr ⟨hlast.1, hwords.1, hcuts⟩⟩

theorem words_of_aligned (h : Tiles a (rs.map (·.range)) e) (ha : 4 ∣ a)
    (haligned : ∀ r ∈ rs.tail, 4 ∣ r.startAddr.toNat) : ∀ r ∈ rs.dropLast, 4 ∣ r.len.toNat := by
  induction rs generalizing a with
  | nil => exact fun r hr => absurd hr not_mem_nil
  | cons r rs ih =>
    cases rs with
    | nil => exact fun r hr => absurd hr not_mem_nil
    | cons r' rs =>
      rw [dropLast_cons_cons, forall_mem_cons]
      obtain ⟨-, -, hnext, hpos, htiles⟩ := h
      obtain ⟨hdvd, haligned⟩ := forall_mem_cons.1 haligned
      have ha' : 4 ∣ a + r.len.toNat := hnext ▸ hdvd
      exact ⟨(Nat.dvd_add_right ha).1 ha', ih ⟨hnext, hpos, htiles⟩ ha' haligned⟩

theorem startAddr_chunkReq (chunk : BitVec 4) (i : ℕ) (len : BitVec 16) :
    (chunkReq chunk 0 (BitVec.ofNat 10 i) len).startAddr.toNat = slotAddr i := by
  have hzero : (0 : BitVec 64).toNat = 0 := rfl
  simp only [chunkReq, slotAddr, BitVec.toNat_add, BitVec.toNat_shiftLeft, BitVec.toNat_setWidth,
    BitVec.toNat_ofNat]
  omega

theorem cuts_chunkReq {chunk : BitVec 4} (hchunk : chunk = 9 ∨ chunk = 12) (i : ℕ) {n : ℕ}
    (hpos : 0 < n) (hn : n ≤ 2048) : Cuts (slotAddr i)
      (chunkReq chunk 0 (BitVec.ofNat 10 i) (BitVec.ofNat 16 n)).preCalc.responses
      (slotAddr i + n) := by
  have hstart := startAddr_chunkReq chunk i (BitVec.ofNat 16 n)
  have hlen : (chunkReq chunk 0 (BitVec.ofNat 10 i) (BitVec.ofNat 16 n)).len.toNat = n := by
    simp only [chunkReq, BitVec.toNat_setWidth, BitVec.toNat_ofNat]
    omega
  have hslot : slotAddr i + n ≤ 2 ^ 21 := by
    rw [slotAddr]
    omega
  generalize hreq : chunkReq chunk 0 (BitVec.ofNat 10 i) (BitVec.ofNat 16 n) = req at hstart hlen
  have hc : req.chunk = chunk := by rw [← hreq, chunkReq]
  have hrange : 9 ≤ chunk.toNat ∧ chunk.toNat ≤ 12 := by rcases hchunk with rfl | rfl <;> decide
  have hchunks : Chunks req req.preCalc.responses := by
    refine AddressChunkReq.Fits.chunks ⟨by omega, by omega, by rw [hc]; omega, by rw [hc]; omega⟩ ?_
    rw [AddressChunkReq.Fits]
    omega
  have htiles := hchunks.tiles
  rw [hstart, hlen] at htiles
  refine ⟨htiles, hchunks.last, words_of_aligned htiles ⟨512 * (i % 1024),
    by rw [slotAddr]; omega⟩ ?_⟩
  intro r hr
  refine Nat.dvd_trans ?_ (hchunks.aligned r hr)
  exact Nat.pow_dvd_pow 2 (show 2 ≤ req.chunk.toNat by rw [hc]; omega)

/-! ## One step -/

variable {chunk : BitVec 4} {m₀ : ℕ → BitVec 8} {s s' : SimpleNicRx}
variable {l : NicRxLabel}

/-- The number of frames that were given a slot. -/
def placed (s : SimpleNicRx) : ℕ := s.descs.length + s.rxDescMetaPipelineQ.length

/-- What a step changes of the command, of the frames and of the slots. -/
structure Changes (s s' : SimpleNicRx) (l : NicRxLabel) : Prop where
  queue : (∃ b, l = .setRawPacketReceiveMeta b ∧ s.setRawPacketReceiveMetaReqQ = []) ∨
    s'.setRawPacketReceiveMetaReqQ = s.setRawPacketReceiveMetaReqQ
  arrived : (∃ beat isLast, l = .calcPacketLenAndPutToBuffer beat isLast) ∨ s'.frames = s.frames
  frames : s.frames <+: s'.frames
  descs : s.descs.length ≤ s'.descs.length
  placed : s'.placed = s.placed ∨ l = .forwardRxDsLengthToChunkCalc ∧ s'.placed = s.placed + 1

theorem changes_of_step (hs : s.step chunk l = some s') : Changes s s' l := by
  cases l with
  | setRawPacketReceiveMeta baseAddr =>
    obtain ⟨hnil, rfl⟩ := ite_some_none_eq_some.1 hs
    exact ⟨.inl ⟨baseAddr, rfl, hnil⟩, .inr rfl, prefix_rfl, Nat.le_refl _, .inl rfl⟩
  | calcPacketLenAndPutToBuffer beat isLast =>
    obtain ⟨-, hs⟩ := Option.ite_none_right_eq_some.1 hs
    split at hs
    · cases hs
      exact ⟨.inr rfl, .inl ⟨beat, isLast, rfl⟩, prefix_append _ _, Nat.le_refl _, .inl rfl⟩
    · cases hs
      exact ⟨.inr rfl, .inr rfl, prefix_rfl, Nat.le_refl _, .inl rfl⟩
  | forwardRxDsLengthToChunkCalc =>
    simp only [step, forwardRxDsLengthToChunkCalc] at hs
    split at hs
    · cases hs
    · cases hs
      refine ⟨.inr rfl, .inr rfl, prefix_rfl, Nat.le_refl _, .inr ⟨rfl, ?_⟩⟩
      rw [placed, length_append]
      rfl
  | forwardRxDmaChunkSplitReq =>
    simp only [step, forwardRxDmaChunkSplitReq] at hs
    split at hs
    · cases hs
    · cases hs
      exact ⟨.inr rfl, .inr rfl, prefix_rfl, Nat.le_refl _, .inl rfl⟩
  | forwardRxChunkedDataStreamToDma =>
    simp only [step, forwardRxChunkedDataStreamToDma] at hs
    split at hs
    · split at hs
      · split at hs
        · cases hs
        · next hq =>
          cases hs
          refine ⟨.inr rfl, .inr rfl, prefix_rfl, ?_, .inl ?_⟩
          · rw [length_append]
            exact Nat.le_add_right _ _
          · rw [placed, placed, length_append, hq]
            exact Nat.add_right_comm _ 1 _
      · cases hs
        exact ⟨.inr rfl, .inr rfl, prefix_rfl, Nat.le_refl _, .inl rfl⟩
    · cases hs

/-! ## What the queues hold -/

def chunksOf (chunk : BitVec 4) (metas : List (BitVec 10 × BitVec 16)) : List AddressChunkResp :=
  metas.flatMap fun m => (chunkReq chunk 0 m.1 m.2).preCalc.responses

/-- The chunks to come. -/
def pending (s : SimpleNicRx) : List AddressChunkResp :=
  s.forwardRxChunkedDataStreamToDmaPipelineQ ++ s.rxAddrChunker

/-- The memory after the writes, if it was `m₀`. -/
def memory (m₀ : ℕ → BitVec 8) (s : SimpleNicRx) : ℕ → BitVec 8 :=
  s.dmaWrites.foldl (fun m w => overwrite m w.addr.toNat w.data) m₀

/-- Between two frames. -/
structure Between (chunk : BitVec 4) (s : SimpleNicRx) : Prop where
  chunks : s.pending = chunksOf chunk s.rxDescMetaPipelineQ
  streams : s.rxSplitorStreams = s.frames.drop s.descs.length

/-- Within a frame `f`: `taken` bytes of it are written, and the chunks `rest` are to come. -/
structure Within (chunk : BitVec 4) (m₀ : ℕ → BitVec 8) (s : SimpleNicRx) (f : List (BitVec 8))
    (fs : List (List (BitVec 8))) (taken : ℕ) (rest : List AddressChunkResp) : Prop where
  placed : s.rxDescMetaPipelineQ ≠ []
  frames : s.frames.drop s.descs.length = f :: fs
  cuts : Cuts (slotAddr s.descs.length + taken) rest (slotAddr s.descs.length + f.length)
  chunks : s.pending = rest ++ chunksOf chunk s.rxDescMetaPipelineQ.tail
  streams : s.rxSplitorStreams = f.drop taken :: fs
  holds : HoldsAt (s.memory m₀) (slotAddr s.descs.length) (f.take taken)

/-- The frames have at most 2048 bytes, and what the queues hold belongs to them. -/
structure Inv (chunk : BitVec 4) (m₀ : ℕ → BitVec 8) (s : SimpleNicRx) : Prop where
  base : s.rxBufferBaseAddrReg = 0
  length : s.rawEthernetPacketLengthReg.toNat = s.rxSplitorIncoming.length
  sizes : ∀ f ∈ s.frames, 0 < f.length ∧ f.length ≤ 2048
  le : s.descs.length ≤ s.frames.length
  lens : s.rxDescMetaPipelineQ.map Prod.snd ++ s.rawEthernetPacketLengthQueue =
    (s.frames.drop s.descs.length).map fun f => BitVec.ofNat 16 f.length
  slots : s.rxDescMetaPipelineQ.map Prod.fst =
    (range' s.descs.length s.rxDescMetaPipelineQ.length).map (BitVec.ofNat 10)
  cur : s.curSlotIdxReg = BitVec.ofNat 10 s.placed
  counts : s.rxSplitorStreamAlignBlockCount =
    s.forwardRxChunkedDataStreamToDmaPipelineQ.map alignBlockCntForDmaBurst
  current : s.Between chunk ∨ ∃ f fs taken rest, s.Within chunk m₀ f fs taken rest
  descs : ∀ i f, i < s.descs.length → s.frames[i]? = some f →
    s.descs[i]? = some ⟨BitVec.ofNat 32 (i % 1024), BitVec.ofNat 32 f.length⟩
  kept : ∀ i f, i < s.descs.length → s.frames[i]? = some f → s.placed ≤ i + 1024 →
    HoldsAt (s.memory m₀) (slotAddr i) f
  writes : ∀ w ∈ s.dmaWrites, w.frame < s.frames.length ∧ w.Inside (slotAddr w.frame) 2048

theorem inv_init (chunk : BitVec 4) (m₀ : ℕ → BitVec 8) : Inv chunk m₀ init where
  base := rfl
  length := rfl
  sizes := fun _ hf => absurd hf not_mem_nil
  le := Nat.le_refl 0
  lens := rfl
  slots := rfl
  cur := rfl
  counts := rfl
  current := .inl ⟨rfl, rfl⟩
  descs := fun _ _ hi => absurd hi (Nat.not_lt_zero _)
  kept := fun _ _ hi => absurd hi (Nat.not_lt_zero _)
  writes := fun _ hw => absurd hw not_mem_nil

theorem Inv.exists_within (h : Inv chunk m₀ s) (hchunk : chunk = 9 ∨ chunk = 12)
    (hp : s.pending ≠ []) : ∃ f fs taken rest, s.Within chunk m₀ f fs taken rest := by
  refine h.current.elim (fun hb => ?_) id
  cases hms : s.rxDescMetaPipelineQ with
  | nil => exact absurd (hb.chunks.trans (by rw [hms]; rfl)) hp
  | cons m ms =>
    have hlens := h.lens
    have hslots := h.slots
    rw [hms] at hlens
    rw [hms] at hslots
    cases hfs : s.frames.drop s.descs.length with
    | nil =>
      rw [hfs] at hlens
      cases hlens
    | cons f fs =>
      rw [hfs] at hlens
      have hm : m = (BitVec.ofNat 10 s.descs.length, BitVec.ofNat 16 f.length) :=
        Prod.ext (cons.inj hslots).1 (cons.inj hlens).1
      have hsize := h.sizes f (mem_of_mem_drop (hfs ▸ mem_cons_self))
      refine ⟨f, fs, 0, (chunkReq chunk 0 m.1 m.2).preCalc.responses, by simp [hms], hfs, ?_,
        ?_, ?_, ?_⟩
      · rw [hm]
        exact cuts_chunkReq hchunk _ hsize.1 hsize.2
      · rw [hb.chunks, hms]
        rfl
      · rw [hb.streams, hfs, drop_zero]
      · exact holdsAt_nil _ _

/-! ## The rules keep it -/

theorem Inv.calcPacketLenAndPutToBuffer {beat : List (BitVec 8)} {isLast : Bool}
    (h : Inv chunk m₀ s) (hbeat : s.rawEthernetPacketLengthReg.toNat + beat.length ≤ 2048)
    (hs : s.calcPacketLenAndPutToBuffer beat isLast = some s') : Inv chunk m₀ s' := by
  obtain ⟨⟨hpos, -⟩, hs⟩ := Option.ite_none_right_eq_some.1 hs
  have hlen := h.length
  have hnew : (s.rawEthernetPacketLengthReg + BitVec.ofNat 16 beat.length).toNat =
      (s.rxSplitorIncoming ++ beat).length := by
    rw [BitVec.toNat_add, BitVec.toNat_ofNat, List.length_append]
    omega
  cases isLast with
  | false =>
    cases hs
    exact { h with
      length := hnew
      current := h.current.imp (fun hb => ⟨hb.chunks, hb.streams⟩) fun ⟨f, fs, taken, rest, hw⟩ =>
        ⟨f, fs, taken, rest, hw.placed, hw.frames, hw.cuts, hw.chunks, hw.streams, hw.holds⟩ }
  | true =>
    cases hs
    generalize hf : s.rxSplitorIncoming ++ beat = f at hnew
    have hdrop : (s.frames ++ [f]).drop s.descs.length = s.frames.drop s.descs.length ++ [f] :=
      List.drop_append_of_le_length h.le
    have hget {i : ℕ} {g : List (BitVec 8)} (hi : i < s.descs.length)
      (hg : (s.frames ++ [f])[i]? = some g) :
        s.frames[i]? = some g := by
      rwa [List.getElem?_append_left (Nat.lt_of_lt_of_le hi h.le)] at hg
    exact { h with
      length := rfl
      sizes := by
        rw [List.forall_mem_append]
        refine ⟨h.sizes, List.forall_mem_singleton.2 ?_⟩
        have := congrArg List.length hf
        rw [List.length_append] at this
        omega
      le := h.le.trans (by rw [List.length_append]; exact Nat.le_add_right _ _)
      lens := by
        rw [hdrop, List.map_append, ← h.lens, List.append_assoc]
        refine congrArg (_ ++ ·) (congrArg (_ ++ ·) (congrArg (fun x => [x]) ?_))
        change _ = BitVec.ofNat 16 f.length
        rw [← hnew, BitVec.ofNat_toNat, BitVec.setWidth_eq]
      current := by
        refine h.current.imp (fun hb => ⟨hb.chunks, ?_⟩) fun ⟨g, fs, taken, rest, hw⟩ =>
          ⟨g, fs ++ [f], taken, rest, hw.placed, ?_, hw.cuts, hw.chunks, ?_, hw.holds⟩
        · rw [hdrop, ← hb.streams]
        · rw [hdrop, hw.frames, List.cons_append]
        · rw [hw.streams, List.cons_append]
      descs := fun i g hi hg => h.descs i g hi (hget hi hg)
      kept := fun i g hi hg => h.kept i g hi (hget hi hg)
      writes := fun w hw => ⟨by rw [List.length_append]; exact Nat.lt_add_right _ (h.writes w hw).1,
        (h.writes w hw).2⟩ }

theorem Inv.forwardRxDsLengthToChunkCalc (h : Inv chunk m₀ s)
    (hs : s.forwardRxDsLengthToChunkCalc chunk = some s') : Inv chunk m₀ s' := by
  rw [SimpleNicRx.forwardRxDsLengthToChunkCalc] at hs
  split at hs
  · cases hs
  · next totalLen lens hq =>
    cases hs
    have hlens := h.lens
    rw [hq] at hlens
    have hplaced : (s.rxDescMetaPipelineQ ++ [(s.curSlotIdxReg, totalLen)]).length =
        s.rxDescMetaPipelineQ.length + 1 := length_append
    have hpending : s.forwardRxChunkedDataStreamToDmaPipelineQ ++ (s.rxAddrChunker ++
        (chunkReq chunk s.rxBufferBaseAddrReg s.curSlotIdxReg totalLen).preCalc.responses) =
        s.pending ++ chunksOf chunk [(s.curSlotIdxReg, totalLen)] := by
      rw [h.base, pending, append_assoc, chunksOf, flatMap_singleton]
    exact { h with
      lens := by rw [map_append, append_assoc, ← hlens]; rfl
      slots := by
        rw [hplaced, range'_1_concat, map_append, map_append, h.slots, h.cur]
        rfl
      cur := by
        change s.curSlotIdxReg + 1 = BitVec.ofNat 10 (s.descs.length + _)
        rw [hplaced, h.cur]
        exact (BitVec.ofNat_add _ 1).symm
      current := by
        refine h.current.imp (fun hb => ⟨?_, hb.streams⟩) fun ⟨f, fs, taken, rest, hw⟩ =>
          ⟨f, fs, taken, rest, by simp, hw.frames, hw.cuts, ?_, hw.streams, hw.holds⟩
        · refine hpending.trans ?_
          rw [hb.chunks, chunksOf, chunksOf, chunksOf, flatMap_append]
        · refine hpending.trans ?_
          rw [hw.chunks, tail_append_of_ne_nil hw.placed, chunksOf, chunksOf, chunksOf,
            flatMap_append, append_assoc]
      kept := fun i f hi hf hle => h.kept i f hi hf (by
        rw [placed, hplaced] at hle
        exact Nat.le_of_succ_le hle) }

theorem Inv.forwardRxDmaChunkSplitReq (h : Inv chunk m₀ s)
    (hs : s.forwardRxDmaChunkSplitReq = some s') : Inv chunk m₀ s' := by
  rw [SimpleNicRx.forwardRxDmaChunkSplitReq] at hs
  split at hs
  · cases hs
  · next chunkInfo chunks hq =>
    cases hs
    have hpending : s.forwardRxChunkedDataStreamToDmaPipelineQ ++ [chunkInfo] ++
      chunks = s.pending := by
      rw [pending, hq, append_assoc, singleton_append]
    exact { h with
      counts := by rw [map_append, ← h.counts]; rfl
      current := h.current.imp (fun hb => ⟨hpending.trans hb.chunks, hb.streams⟩)
        fun ⟨f, fs, taken, rest, hw⟩ =>
        ⟨f, fs, taken, rest, hw.placed, hw.frames, hw.cuts, hpending.trans hw.chunks, hw.streams,
          hw.holds⟩ }

theorem toNat_alignBlockCnt (hle : r.len.toNat ≤ 2048) :
    (alignBlockCntForDmaBurst r).toNat = (r.len.toNat + 3) / 4 := by
  have hthree : (3 : BitVec 32).toNat = 3 := rfl
  rw [alignBlockCntForDmaBurst, BitVec.toNat_setWidth, BitVec.toNat_ushiftRight, BitVec.toNat_add]
  omega

theorem cutOff_eq {f : List (BitVec 8)} {taken : ℕ} (hsize : f.length ≤ 2048)
    (h : Cuts (a + taken) (r :: rs) (a + f.length)) :
    (f.drop taken).take (4 * (alignBlockCntForDmaBurst r).toNat) = (f.drop taken).take r.len.toNat ∧
      (f.drop taken).drop (4 * (alignBlockCntForDmaBurst r).toNat) =
      f.drop (taken + r.len.toNat) := by
  obtain ⟨-, hle, ⟨-, -, hend⟩ | ⟨-, hdvd, -⟩⟩ := h.cons
  · have hlen : (f.drop taken).length = r.len.toNat := by rw [length_drop]; omega
    rw [toNat_alignBlockCnt (by omega), drop_drop]
    rw [length_drop] at hlen
    refine ⟨?_, (drop_of_length_le (by omega)).trans (drop_of_length_le (by omega)).symm⟩
    rw [take_of_length_le (by rw [length_drop]; omega), take_of_length_le (by
      rw [length_drop, hlen])]
  · rw [toNat_alignBlockCnt (by omega), show 4 * ((r.len.toNat + 3) / 4) = r.len.toNat by omega,
      drop_drop]
    exact ⟨rfl, rfl⟩

theorem Inv.forward_cases (h : Inv chunk m₀ s) (hchunk : chunk = 9 ∨ chunk = 12)
    (hs : s.forwardRxChunkedDataStreamToDma = some s') : ∃ f fs taken chunkInfo chunks rest,
      s.Within chunk m₀ f fs taken (chunkInfo :: rest) ∧
      s.forwardRxChunkedDataStreamToDmaPipelineQ = chunkInfo :: chunks ∧
      chunks ++ s.rxAddrChunker = rest ++ chunksOf chunk s.rxDescMetaPipelineQ.tail ∧
      let s₁ := { s with
        forwardRxChunkedDataStreamToDmaPipelineQ := chunks
        rxSplitorStreamAlignBlockCount := chunks.map alignBlockCntForDmaBurst
        rxSplitorStreams := if chunkInfo.isLast then fs else f.drop (taken + chunkInfo.len.toNat) ::
          fs
        dmaWrites := s.dmaWrites ++ [⟨s.descs.length, chunkInfo.startAddr, chunkInfo.len,
          (f.drop taken).take chunkInfo.len.toNat⟩] }
      if chunkInfo.isLast then
        ∃ m ms, s.rxDescMetaPipelineQ = m :: ms ∧ s' = { s₁ with
          rxDescMetaPipelineQ := ms, descs := s.descs ++ [⟨m.1.setWidth 32, m.2.setWidth 32⟩] }
      else s' = s₁ := by
  rw [SimpleNicRx.forwardRxChunkedDataStreamToDma] at hs
  split at hs
  · next chunkInfo chunks cnt cnts stream streams hq hcnt hstreams =>
    have hcounts := h.counts
    rw [hq, hcnt] at hcounts
    cases hcounts
    obtain ⟨f, fs, taken, rest, hw⟩ := h.exists_within hchunk (by simp [pending, hq])
    obtain ⟨r, rest, rfl⟩ := exists_cons_of_ne_nil hw.cuts.ne_nil
    have hchunks := hw.chunks
    rw [pending, hq] at hchunks
    obtain ⟨rfl, hrest⟩ := cons.inj hchunks
    obtain ⟨rfl, rfl⟩ := cons.inj (hstreams.symm.trans hw.streams)
    have hsize := (h.sizes f (mem_of_mem_drop (hw.frames ▸ mem_cons_self))).2
    obtain ⟨htake, hdrop⟩ := cutOff_eq hsize hw.cuts
    refine ⟨f, streams, taken, chunkInfo, chunks, rest, hw, hq, hrest, ?_⟩
    obtain ⟨-, hle, ⟨-, hlast, hend⟩ | ⟨hlast, -, hcuts⟩⟩ := hw.cuts.cons
    · obtain ⟨m, ms, hms⟩ := exists_cons_of_ne_nil hw.placed
      have hnil : f.drop (taken + chunkInfo.len.toNat) = [] := drop_of_length_le (by omega)
      simp only [htake, hdrop, hlast, hms, hnil, if_true, some.injEq] at hs ⊢
      exact ⟨m, ms, rfl, hs.symm⟩
    · have hlt := hcuts.lt
      have hne : f.drop (taken + chunkInfo.len.toNat) ≠ [] := by
        rw [Ne, drop_eq_nil_iff]
        omega
      simp only [htake, hdrop, hlast, hne, if_false, Bool.false_eq_true, some.injEq] at hs ⊢
      exact hs.symm
  · cases hs

theorem memory_of_append {w : NicDmaWrite} (h : s'.dmaWrites = s.dmaWrites ++ [w]) :
    s'.memory m₀ = overwrite (s.memory m₀) w.addr.toNat w.data := by
  rw [memory, h, foldl_append]
  rfl

theorem slotAddr_disjoint {i j : ℕ} (hlt : i < j) (hle : j < i + 1024) :
    slotAddr i + 2048 ≤ slotAddr j ∨ slotAddr j + 2048 ≤ slotAddr i := by
  rw [slotAddr, slotAddr]
  omega

theorem Inv.forwardRxChunkedDataStreamToDma (h : Inv chunk m₀ s) (hchunk : chunk = 9 ∨ chunk = 12)
    (hs : s.forwardRxChunkedDataStreamToDma = some s') : Inv chunk m₀ s' := by
  obtain ⟨f, fs, taken, r, chunks, rest, hw, -, hrest, hs'⟩ := h.forward_cases hchunk hs
  obtain ⟨hstart, hle, hcases⟩ := hw.cuts.cons
  have hsize := (h.sizes f (mem_of_mem_drop (hw.frames ▸ mem_cons_self))).2
  have hpos := length_pos_of_ne_nil hw.placed
  have hframe : s.frames[s.descs.length]? = some f := by
    rw [← head?_drop, hw.frames, head?_cons]
  have hlt : s.descs.length < s.frames.length := (List.getElem?_eq_some_iff.1 hframe).1
  have hdata : ((f.drop taken).take r.len.toNat).length = r.len.toNat := by
    rw [length_take, length_drop]
    omega
  have htaken : (f.take taken).length = taken := by
    rw [length_take]
    omega
  -- the write adds the chunk to the slot
  have hholds : HoldsAt (overwrite (s.memory m₀) r.startAddr.toNat
    ((f.drop taken).take r.len.toNat))
      (slotAddr s.descs.length) (f.take (taken + r.len.toNat)) := by
    have happ := hw.holds.overwrite_append ((f.drop taken).take r.len.toNat)
    rwa [htaken, ← take_add, ← hstart] at happ
  -- and leaves the other slots
  have hkept (i : ℕ) (g : List (BitVec 8)) (hi : i < s.descs.length) (hg : s.frames[i]? = some g)
      (hplaced : s.placed ≤ i + 1024) :
      HoldsAt (overwrite (s.memory m₀) r.startAddr.toNat ((f.drop taken).take r.len.toNat))
      (slotAddr i) g := by
    have hgsize := (h.sizes g (mem_of_getElem? hg)).2
    rw [placed] at hplaced
    refine (h.kept i g hi hg hplaced).overwrite_disjoint ?_
    have hdisj := slotAddr_disjoint hi (by omega)
    omega
  have hwrites : ∀ w ∈ s.dmaWrites ++ [⟨s.descs.length, r.startAddr, r.len,
      (f.drop taken).take r.len.toNat⟩], w.frame < s.frames.length ∧
      w.Inside (slotAddr w.frame) 2048 := by
    rw [forall_mem_append]
    refine ⟨h.writes, List.forall_mem_singleton.2 ⟨hlt, ?_, ?_⟩⟩
    · change slotAddr s.descs.length ≤ r.startAddr.toNat
      omega
    · change r.startAddr.toNat + r.len.toNat ≤ slotAddr s.descs.length + 2048
      omega
  obtain ⟨hnil, hlast, hend⟩ | ⟨hlast, -, hcuts⟩ := hcases
  · simp only [hlast, if_true] at hs'
    obtain ⟨m, ms, hms, rfl⟩ := hs'
    have hlens := h.lens
    have hslots := h.slots
    rw [hms, hw.frames] at hlens
    rw [hms] at hslots
    have hm : m = (BitVec.ofNat 10 s.descs.length, BitVec.ofNat 16 f.length) :=
      Prod.ext (cons.inj hslots).1 (cons.inj hlens).1
    have hlength : (s.descs ++ [SimpleNicRxQueueDesc.mk (m.1.setWidth 32)
      (m.2.setWidth 32)]).length =
        s.descs.length + 1 := length_append
    have hdrop : s.frames.drop (s.descs.length + 1) = fs := by
      rw [← drop_drop, hw.frames, drop_one, tail_cons]
    have hplaced : s.placed = s.descs.length + 1 + ms.length := by
      rw [placed, hms, length_cons]
      omega
    refine { h with
      le := ?_
      lens := ?_
      slots := ?_
      cur := ?_
      counts := rfl
      current := .inl ⟨?_, ?_⟩
      descs := ?_
      kept := ?_
      writes := hwrites }
    · rw [hlength]
      exact hlt
    · rw [hlength, hdrop]
      exact (cons.inj hlens).2
    · rw [hlength]
      exact (cons.inj hslots).2
    · rw [h.cur, hplaced, placed, hlength]
    · rw [hnil, hms] at hrest
      exact hrest
    · rw [hlength, hdrop]
    · intro i g hi hg
      rw [hlength] at hi
      rcases Nat.lt_succ_iff_lt_or_eq.1 hi with hi | rfl
      · rw [getElem?_append_left hi]
        exact h.descs i g hi hg
      · obtain rfl := some.inj (hframe.symm.trans hg)
        rw [getElem?_concat_length, hm]
        refine congrArg some (congrArg₂ _ (BitVec.eq_of_toNat_eq ?_) (BitVec.eq_of_toNat_eq ?_))
        · simp only [BitVec.toNat_setWidth, BitVec.toNat_ofNat]
        · simp only [BitVec.toNat_setWidth, BitVec.toNat_ofNat]
          omega
    · intro i g hi hg hle'
      rw [hlength] at hi
      rw [memory_of_append (s := s) rfl]
      rcases Nat.lt_succ_iff_lt_or_eq.1 hi with hi | rfl
      · refine hkept i g hi hg ?_
        rw [hplaced, ← hlength]
        exact hle'
      · obtain rfl := some.inj (hframe.symm.trans hg)
        have hwhole : f.take (taken + r.len.toNat) = f := take_of_length_le (by omega)
        rw [hwhole] at hholds
        exact hholds
  · simp only [hlast, Bool.false_eq_true, if_false] at hs'
    subst hs'
    have hmem : memory m₀ { s with
        forwardRxChunkedDataStreamToDmaPipelineQ := chunks
        rxSplitorStreamAlignBlockCount := chunks.map alignBlockCntForDmaBurst
        rxSplitorStreams := f.drop (taken + r.len.toNat) :: fs
        dmaWrites := s.dmaWrites ++ [⟨s.descs.length, r.startAddr, r.len,
          (f.drop taken).take r.len.toNat⟩] } =
        overwrite (s.memory m₀) r.startAddr.toNat ((f.drop taken).take r.len.toNat) :=
      memory_of_append (w := ⟨s.descs.length, r.startAddr, r.len, (f.drop taken).take r.len.toNat⟩)
        rfl
    refine { h with
      counts := rfl
      current := .inr ⟨f, fs, taken + r.len.toNat, rest, hw.placed, hw.frames, ?_, hrest, rfl, ?_⟩
      kept := ?_
      writes := hwrites }
    · rw [← Nat.add_assoc]
      exact hcuts
    · rw [hmem]
      exact hholds
    · intro i g hi hg hle'
      rw [hmem]
      exact hkept i g hi hg hle'

/-- The frame that is coming in has at most 2048 bytes. -/
def FitsSlot (s : SimpleNicRx) : NicRxLabel → Prop
  | .calcPacketLenAndPutToBuffer beat _ => s.rawEthernetPacketLengthReg.toNat + beat.length ≤ 2048
  | _ => True

theorem Inv.step (h : Inv chunk m₀ s) (hchunk : chunk = 9 ∨ chunk = 12)
    (hl : s.FitsSlot l) (hs : s.step chunk l = some s') : Inv chunk m₀ s' := by
  cases l with
  | setRawPacketReceiveMeta baseAddr =>
    obtain ⟨-, rfl⟩ := ite_some_none_eq_some.1 hs
    exact { h with
      current := h.current.imp (fun hb => ⟨hb.chunks, hb.streams⟩) fun ⟨f, fs, taken, rest, hw⟩ =>
        ⟨f, fs, taken, rest, hw.placed, hw.frames, hw.cuts, hw.chunks, hw.streams, hw.holds⟩ }
  | calcPacketLenAndPutToBuffer beat isLast => exact h.calcPacketLenAndPutToBuffer hl hs
  | forwardRxDsLengthToChunkCalc => exact h.forwardRxDsLengthToChunkCalc hs
  | forwardRxDmaChunkSplitReq => exact h.forwardRxDmaChunkSplitReq hs
  | forwardRxChunkedDataStreamToDma => exact h.forwardRxChunkedDataStreamToDma hchunk hs

/-! ## Where the writes go -/

/-- Frames come in after the command was answered. -/
def AfterCommand (s : SimpleNicRx) : NicRxLabel → Prop
  | .calcPacketLenAndPutToBuffer _ _ => s.setRawPacketReceiveMetaReqQ ≠ []
  | _ => True

instance (s : SimpleNicRx) (l : NicRxLabel) : Decidable (s.AfterCommand l) := by
  unfold AfterCommand
  split <;> infer_instance

/-- The buffer is configured to be at address 0, and the frame that is coming in has at most 2048
bytes. -/
def InBuffer (s : SimpleNicRx) : NicRxLabel → Prop
  | .calcPacketLenAndPutToBuffer beat _ =>
    s.setRawPacketReceiveMetaReqQ = [0] ∧ s.rawEthernetPacketLengthReg.toNat + beat.length ≤ 2048
  | _ => True

instance (s : SimpleNicRx) (l : NicRxLabel) : Decidable (s.InBuffer l) := by
  unfold InBuffer
  split <;> infer_instance

theorem InBuffer.fitsSlot (h : s.InBuffer l) : s.FitsSlot l := by
  cases l with
  | calcPacketLenAndPutToBuffer beat isLast => exact h.2
  | _ => trivial

/-- Every write is inside of the slot of its frame in the configured buffer, and inside of the
buffer. -/
def WritesConfigured (s : SimpleNicRx) : Prop :=
  ∀ b ∈ s.setRawPacketReceiveMetaReqQ, ∀ w ∈ s.dmaWrites,
    w.Inside (b.toNat + slotAddr w.frame) 2048 ∧ w.Inside b.toNat 2097152

theorem configured_step (h : s.frames ≠ [] → s.setRawPacketReceiveMetaReqQ = [0])
    (hl : s.InBuffer l) (hs : s.step chunk l = some s') :
    s'.frames ≠ [] → s'.setRawPacketReceiveMetaReqQ = [0] := by
  intro hne
  have hfacts := changes_of_step hs
  obtain ⟨beat, isLast, rfl⟩ | hframes := hfacts.arrived
  · obtain ⟨b, hb, -⟩ | hqueue := hfacts.queue
    · cases hb
    · exact hqueue.trans hl.1
  · have hzero := h (hframes ▸ hne)
    obtain ⟨b, -, hnil⟩ | hqueue := hfacts.queue
    · cases hnil.symm.trans hzero
    · exact hqueue.trans hzero

/-- **As long as the buffer is configured at address 0 and the frames have at most 2048 bytes, every
write is inside of the slot of its frame**, in every state of every run. -/
theorem run_writesConfigured (hchunk : chunk = 9 ∨ chunk = 12) {ls : List NicRxLabel}
    (h : Run (step chunk) InBuffer init ls s) : s.WritesConfigured := by
  have hinv : Inv chunk (fun _ => 0) s ∧ (s.frames ≠ [] → s.setRawPacketReceiveMetaReqQ = [0]) :=
    h.invariant (I := fun _ s => Inv chunk (fun _ => 0) s ∧
        (s.frames ≠ [] → s.setRawPacketReceiveMetaReqQ = [0]))
      ⟨inv_init chunk _, fun hne => absurd rfl hne⟩
      fun _ _ _ _ hI hok hs => ⟨hI.1.step hchunk hok.fitsSlot hs, configured_step hI.2 hok hs⟩
  intro b hb w hw
  obtain ⟨hlt, hlo, hhi⟩ := hinv.1.writes w hw
  rw [hinv.2 (ne_nil_of_length_pos (Nat.zero_lt_of_lt hlt))] at hb
  obtain rfl := mem_singleton.1 hb
  have hzero : (0 : BitVec 64).toNat = 0 := rfl
  have hslot : slotAddr w.frame = 2048 * (w.frame % 1024) := rfl
  refine ⟨⟨?_, ?_⟩, ⟨?_, ?_⟩⟩ <;> omega

/-- A frame of one beat and its way to the memory. -/
def oneBeatFrame (beat : List (BitVec 8)) : List NicRxLabel :=
  [.calcPacketLenAndPutToBuffer beat true, .forwardRxDsLengthToChunkCalc,
    .forwardRxDmaChunkSplitReq, .forwardRxChunkedDataStreamToDma]

/-- Two frames, with the buffer at address 0. -/
theorem run_writesConfigured_two_frames :
    ∃ s, Run (step 9) InBuffer init (.setRawPacketReceiveMeta 0 :: oneBeatFrame [1, 2] ++
      oneBeatFrame [3]) s ∧ s.dmaWrites = [⟨0, 0, 2, [1, 2]⟩, ⟨1, 2048, 1, [3]⟩] ∧
    s.WritesConfigured :=
  ⟨_, .of_isSome (by decide +kernel), by decide +kernel,
    run_writesConfigured (.inl rfl) (.of_isSome _)⟩

/-- **The configured address is never used.** With the buffer at `0x10000`, a frame is written to
address 0. And a frame of 2049 bytes is written over the end of its slot. -/
theorem run_not_writesConfigured :
    (∃ s, Run (step 9) AfterCommand init (.setRawPacketReceiveMeta 0x10000 :: oneBeatFrame [1]) s ∧
      s.dmaWrites = [⟨0, 0, 1, [1]⟩] ∧ ¬ s.WritesConfigured) ∧
    ∃ ls s, Run (step 12) AfterCommand init (.setRawPacketReceiveMeta 0 :: ls) s ∧
      s.dmaWrites.map (fun w => (w.frame, w.addr, w.totalLen)) = [(0, 0, 2049)] ∧
      ¬ s.WritesConfigured := by
  constructor
  · refine ⟨_, .of_isSome (by decide +kernel), by decide +kernel, fun hall => ?_⟩
    obtain ⟨⟨hlo, -⟩, -⟩ := hall 0x10000 (by decide +kernel) ⟨0, 0, 1, [1]⟩ (by decide +kernel)
    exact absurd hlo (by decide)
  · refine ⟨replicate 64 (.calcPacketLenAndPutToBuffer (replicate 32 0) false) ++ oneBeatFrame [0],
      _, .of_isSome (by decide +kernel), by decide +kernel, fun hall => ?_⟩
    obtain ⟨⟨-, hhi⟩, -⟩ := hall 0 (by decide +kernel) _
      (mem_of_head? (eq_some_of_isSome (by decide +kernel)))
    exact absurd hhi (by decide +kernel)

end SimpleNicRx

end OpenRdma.Rtl
