import OpenRdma.Driver.Fragmentation
import OpenRdma.Link.SendDescs
import OpenRdma.Rtl.AddressChunker

/-!
# First transmission and retransmission

A work request is sent as the chunks of `WrChunkFragmenter` and sent again as those of
`WrPacketFragmenter`. The card cuts every chunk into packets at the path MTU and numbers them from
the number of the chunk on.

* `stamp`: the headers of a range that is cut into packets. Those of both fragmentations are the
  ones of the range of the request (`Sends.sent_chunksOf`).
-/

namespace OpenRdma.Rtl

open OpenRdma.Driver OpenRdma.Link List

def genRdmaOpCode (wrOpCode : WorkReqOpCode) (isFirst isLast : Bool) : Option RdmaOpCode :=
  match isFirst, isLast, wrOpCode with
  | false, false, .rdmaWrite | false, false, .rdmaWriteWithImm => some .rdmaWriteMiddle
  | false, false, .send | false, false, .sendWithImm | false, false, .sendWithInv =>
    some .sendMiddle
  | false, false, .rdmaReadResp => some .rdmaReadResponseMiddle
  | false, true, .rdmaWrite => some .rdmaWriteLast
  | false, true, .rdmaWriteWithImm => some .rdmaWriteLastWithImmediate
  | false, true, .send => some .sendLast
  | false, true, .sendWithImm => some .sendLastWithImmediate
  | false, true, .sendWithInv => some .sendLastWithInvalidate
  | false, true, .rdmaReadResp => some .rdmaReadResponseLast
  | true, false, .rdmaWrite | true, false, .rdmaWriteWithImm => some .rdmaWriteFirst
  | true, false, .send | true, false, .sendWithImm | true, false, .sendWithInv => some .sendFirst
  | true, false, .rdmaReadResp => some .rdmaReadResponseFirst
  | true, true, .rdmaWrite => some .rdmaWriteOnly
  | true, true, .rdmaWriteWithImm => some .rdmaWriteOnlyWithImmediate
  | true, true, .send => some .sendOnly
  | true, true, .sendWithImm => some .sendOnlyWithImmediate
  | true, true, .sendWithInv => some .sendOnlyWithInvalidate
  | true, true, .rdmaReadResp => some .rdmaReadResponseOnly
  | true, true, .rdmaRead => some .rdmaReadRequest
  | true, true, .atomicCmpAndSwp => some .compareSwap
  | true, true, .atomicFetchAndAdd => some .fetchAdd
  | true, true, .rdmaAck => some .acknowledge
  | _, _, _ => none

/-- What `genPacketHeaderStep1` finds for the header of a packet, with the length of its payload. -/
structure PacketHeader where
  psn : BitVec 24
  remoteAddr : BitVec 64
  len : BitVec 32
  dlen : BitVec 32
  opcode : Option RdmaOpCode
  isRetry : Bool
  deriving DecidableEq

/-- The header without the retry bit. -/
def PacketHeader.noRetry (h : PacketHeader) : PacketHeader := { h with isRetry := false }

namespace WorkQueueElem

variable (wqe : WorkQueueElem)

/-- The request to the chunker of `sendChunkByRemoteAddrReqAndPayloadGenReq`. -/
def remoteAddrChunkReq : AddressChunkReq := ⟨wqe.raddr, wqe.len, getPmtuSizeByPmtuEnum wqe.pmtu⟩

/-- `genPacketHeaderStep1` for a packet with payload, with the register it leaves. -/
def genPacketHeaderStep1 (psnReg : BitVec 24) (packetInfo : AddressChunkResp) :
    PacketHeader × BitVec 24 :=
  let isFirstPacket := wqe.isFirst && packetInfo.isFirst
  let isLastPacket := wqe.isLast && packetInfo.isLast
  let psn := if packetInfo.isFirst then wqe.psn else psnReg
  (⟨psn, packetInfo.startAddr, packetInfo.len, if isFirstPacket then wqe.totalLen
    else packetInfo.len, genRdmaOpCode wqe.opcode isFirstPacket isLastPacket, wqe.isRetry⟩, psn + 1)

/-- `genPacketHeaderStep1` for an element without payload. The address and the length are those of a
read, and undefined for the others. -/
def headerWithoutPayload (u : BitVec 64 × BitVec 32) : PacketHeader :=
  let (remoteAddr, dlen) := if wqe.opcode = .rdmaRead then (wqe.raddr, wqe.totalLen) else u
  ⟨wqe.psn, remoteAddr, 0, dlen, genRdmaOpCode wqe.opcode wqe.isFirst wqe.isLast, wqe.isRetry⟩

/-- The headers of the packets of an element with payload, with the register they leave. -/
def headers (psnReg : BitVec 24) : List AddressChunkResp → List PacketHeader × BitVec 24
  | [] => ([], psnReg)
  | r :: rs =>
    let (header, psnReg) := wqe.genPacketHeaderStep1 psnReg r
    let (rest, psnReg) := headers psnReg rs
    (header :: rest, psnReg)

end WorkQueueElem

/-- `mkPacketGen`: the headers of the packets of the elements that arrive one after the other. -/
def packetGen (u : BitVec 64 × BitVec 32) : BitVec 24 → List WorkQueueElem → List PacketHeader
  | _, [] => []
  | psnReg, wqe :: wqes =>
    if wqe.hasPayload then
      let (headers, psnReg) := wqe.headers psnReg wqe.remoteAddrChunkReq.preCalc.responses
      headers ++ packetGen u psnReg wqes
    else wqe.headerWithoutPayload u :: packetGen u psnReg wqes

/-- The headers of the packets of the elements, but for the retry bit. -/
def sent (u : BitVec 64 × BitVec 32) (psnReg : BitVec 24) (wqes : List WorkQueueElem) :
    List PacketHeader :=
  (packetGen u psnReg wqes).map PacketHeader.noRetry

/-! ## The packets of a range -/

/-- The headers of the packets of a message, of which the first has the number `psn`. -/
def stamp (op : WorkReqOpCode) (totalLen : BitVec 32) (last : Bool) :
    BitVec 24 → Bool → List (ℕ × ℕ) → List PacketHeader
  | _, _, [] => []
  | psn, first, p :: ps =>
    ⟨psn, BitVec.ofNat 64 p.1, BitVec.ofNat 32 p.2, if first then totalLen else BitVec.ofNat 32 p.2,
      genRdmaOpCode op first (last && ps.isEmpty), false⟩ ::
      stamp op totalLen last (psn + 1) false ps

variable {op : WorkReqOpCode} {totalLen : BitVec 32} {psn psnReg : BitVec 24} {first last : Bool}

theorem stamp_append {ps qs : List (ℕ × ℕ)} (hps : ps ≠ []) (hqs : qs ≠ []) :
    stamp op totalLen last psn first (ps ++ qs) =
      stamp op totalLen false psn first ps ++
      stamp op totalLen last (psn + BitVec.ofNat 24 ps.length) false qs := by
  induction ps generalizing psn first with
  | nil => exact absurd rfl hps
  | cons p ps ih =>
    have hempty : (ps ++ qs).isEmpty = false := by simp [hqs]
    rw [cons_append, stamp, stamp, hempty, Bool.and_false, Bool.false_and, cons_append]
    cases ps with
    | nil => rfl
    | cons q ps =>
      have hnum : psn + 1 + BitVec.ofNat 24 (q :: ps).length = psn +
        BitVec.ofNat 24 ((q :: ps).length + 1) := by
        rw [Nat.add_comm _ 1, BitVec.ofNat_add, BitVec.add_assoc]
        rfl
      rw [ih (cons_ne_nil q ps), hnum, length_cons (a := p)]

namespace WorkQueueElem

variable {wqe : WorkQueueElem} {r : AddressChunkResp} {rs : List AddressChunkResp}

/-- Only the last response is marked as such. -/
def LastMarked (rs : List AddressChunkResp) : Prop :=
  rs ≠ [] → rs.map (·.isLast) = List.replicate (rs.length - 1) false ++ [true]

theorem LastMarked.cons (h : LastMarked (r :: rs)) : r.isLast = rs.isEmpty ∧ LastMarked rs := by
  have hmap := h (cons_ne_nil r rs)
  cases rs with
  | nil => exact ⟨by simpa using hmap, fun hne => absurd rfl hne⟩
  | cons q rs => simpa [LastMarked, replicate_succ] using hmap

theorem headers_rest (hfirst : ∀ r ∈ rs, r.isFirst = false) (hlast : LastMarked rs) :
    (wqe.headers psnReg rs).1.map PacketHeader.noRetry =
      stamp wqe.opcode wqe.totalLen wqe.isLast psnReg false (rs.map (·.range)) := by
  induction rs generalizing psnReg with
  | nil => rfl
  | cons r rs ih =>
    obtain ⟨hr, hrs⟩ := forall_mem_cons.1 hfirst
    rw [map_cons, stamp, ← ih hrs hlast.cons.2]
    simp [headers, genPacketHeaderStep1, hr, hlast.cons.1, PacketHeader.noRetry,
      AddressChunkResp.range]

/-- **An element is sent as the packets of its range**, numbered from its own number on. -/
theorem headers_eq (h : Chunks wqe.remoteAddrChunkReq rs) :
    (wqe.headers psnReg rs).1.map PacketHeader.noRetry =
      stamp wqe.opcode wqe.totalLen wqe.isLast wqe.psn wqe.isFirst
        (pieces (2 ^ wqe.remoteAddrChunkReq.chunk.toNat) (2 ^ wqe.remoteAddrChunkReq.chunk.toNat)
          (wqe.raddr.toNat + wqe.len.toNat) wqe.raddr.toNat) := by
  have hrange : rs.map (·.range) = pieces _ _ (wqe.raddr.toNat + wqe.len.toNat) wqe.raddr.toNat :=
    eq_pieces_of_tiles (Nat.two_pow_pos _) h.tiles (by simpa using h.nonempty)
      (by rw [← map_tail]; exact forall_mem_map.2 h.aligned) (forall_mem_map.2 h.within)
  rw [← hrange]
  obtain ⟨r, rs, rfl⟩ := exists_cons_of_ne_nil h.nonempty
  obtain ⟨hr, hrs⟩ := cons.inj (show r.isFirst :: rs.map (·.isFirst) = _ from h.first)
  have hfirst : ∀ q ∈ rs, q.isFirst = false := fun q hq =>
    eq_of_mem_replicate (hrs ▸ mem_map_of_mem (f := AddressChunkResp.isFirst) hq)
  have hlast := LastMarked.cons fun _ => h.last
  rw [map_cons, stamp, ← headers_rest hfirst hlast.2]
  simp [headers, genPacketHeaderStep1, hr, hlast.1, PacketHeader.noRetry, AddressChunkResp.range]

theorem sent_cons (u : BitVec 64 × BitVec 32) (psnReg : BitVec 24) (wqes : List WorkQueueElem)
    (hpayload : wqe.hasPayload = true) (hdomain : wqe.remoteAddrChunkReq.InDomain)
    (hfits : wqe.remoteAddrChunkReq.Fits) : ∃ psnReg', sent u psnReg (wqe :: wqes) =
      stamp wqe.opcode wqe.totalLen wqe.isLast wqe.psn wqe.isFirst
        (pieces (2 ^ wqe.remoteAddrChunkReq.chunk.toNat) (2 ^ wqe.remoteAddrChunkReq.chunk.toNat)
          (wqe.raddr.toNat + wqe.len.toNat) wqe.raddr.toNat) ++ sent u psnReg' wqes := by
  refine ⟨(wqe.headers psnReg wqe.remoteAddrChunkReq.preCalc.responses).2, ?_⟩
  rw [← headers_eq ((AddressChunkReq.chunks_responses hdomain).2 hfits), sent, sent,
    ← map_append, packetGen, if_pos hpayload]

end WorkQueueElem

/-! ## The packets of a work request -/

section Chunks

variable {it : IntoIterChunk} {k S e c : ℕ}

/-- The position is that of a first chunk. -/
def isFirstPos (pos : ChunkPos) : Bool := pos = .first ∨ pos = .only

/-- The position is that of a last chunk. -/
def isLastPos (pos : ChunkPos) : Bool := pos = .last ∨ pos = .only

/-- The chunks of the iterator have payload and a path MTU of `2 ^ k`, and no position yet. -/
structure Sends (it : IntoIterChunk) (k : ℕ) : Prop where
  payload : workReqNeedPayloadGen it.builder.opcode = true
  chunk : (getPmtuSizeByPmtuEnum (BitVec.ofNat 3 it.builder.pmtu)).toNat = k
  pmtu : it.pmtu = 2 ^ k
  isFirst : it.builder.isFirst = false
  isLast : it.builder.isLast = false

theorem ofNat_add_inner (p : Psn) (n : ℕ) :
    BitVec.ofNat 24 (p + n).inner = BitVec.ofNat 24 p.inner + BitVec.ofNat 24 n := by
  rw [Psn.add_inner]
  exact BitVec.eq_of_toNat_eq (by simp)

theorem chunk_eq (addr len : ℕ) (pos : ChunkPos) :
    it.chunk addr len pos = { it.builder.setChunkMeta it.psn it.laddr addr (len % 2 ^ 32) pos with
      isRetry := it.isRetry || it.builder.isRetry } := by
  rw [IntoIterChunk.chunk]
  cases it.isRetry <;> rfl

theorem Sends.sent_chunk (h : Sends it k) (hk₁ : 8 ≤ k) (hk₂ : k ≤ 12) {len : ℕ} (hlen : 0 < len)
    (hlt : len < 2 ^ 32) (hfit : c + len ≤ 2 ^ 64) (hcross : c % 2 ^ 32 + len ≤ 2 ^ 32)
    (pos : ChunkPos) (u : BitVec 64 × BitVec 32) (psnReg : BitVec 24) (wqes : List WorkQueueElem) :
    ∃ psnReg', sent u psnReg ((it.chunk c len pos).wqe :: wqes) =
      stamp it.builder.opcode (BitVec.ofNat 32 it.builder.totalLen) (isLastPos pos)
        (BitVec.ofNat 24 it.psn.inner) (isFirstPos pos) (pieces (2 ^ k) (2 ^ k) (c + len) c) ++
        sent u psnReg' wqes := by
  obtain ⟨wqe, hwqe⟩ : ∃ wqe, (it.chunk c len pos).wqe = wqe := ⟨_, rfl⟩
  rw [chunk_eq] at hwqe
  have hraddr : wqe.raddr.toNat = c := by
    rw [← hwqe]
    exact Nat.mod_eq_of_lt (show c < 2 ^ 64 by omega)
  have hlen' : wqe.len.toNat = len := by
    rw [← hwqe]
    exact (Nat.mod_mod _ _).trans (Nat.mod_eq_of_lt hlt)
  have hchunk : wqe.remoteAddrChunkReq.chunk.toNat = k := by
    rw [← hwqe]
    exact h.chunk
  have hpayload : wqe.hasPayload = true := by
    have hne : ¬ wqe.len = 0#32 := by
      intro hzero
      rw [hzero] at hlen'
      exact hlen.ne hlen'
    have hop : wqe.opcode = it.builder.opcode := by rw [← hwqe]; rfl
    simp [WorkQueueElem.hasPayload, hop, h.payload, hne]
  have hdomain : wqe.remoteAddrChunkReq.InDomain :=
    ⟨hlen'.symm ▸ hlen, by
      change wqe.raddr.toNat + wqe.len.toNat ≤ _
      omega, hchunk.symm ▸ hk₁, hchunk.symm ▸ hk₂⟩
  have hfits : wqe.remoteAddrChunkReq.Fits := by
    change wqe.raddr.toNat % 2 ^ 32 + wqe.len.toNat ≤ _
    rwa [hraddr, hlen']
  have hcons := WorkQueueElem.sent_cons u psnReg wqes hpayload hdomain hfits
  rw [hchunk, hraddr, hlen'] at hcons
  rw [chunk_eq, hwqe]
  have hfirst : wqe.isFirst = isFirstPos pos := by
    simp [← hwqe, WrChunk.wqe, WrChunk.setChunkMeta, isFirstPos, h.isFirst]
  have hlast : wqe.isLast = isLastPos pos := by
    simp [← hwqe, WrChunk.wqe, WrChunk.setChunkMeta, isLastPos, h.isLast]
  rw [hfirst, hlast] at hcons
  rw [← hwqe] at hcons ⊢
  exact hcons

theorem numPackets_eq_length (hk₁ : 8 ≤ k) (hk₂ : k ≤ 12) {m : ℕ} (hm : 2 ^ k ∣ m) (hc : c < m)
    (hle : m - c ≤ wrChunkSize) : numPackets (m - c) (2 ^ k) =
    (pieces (2 ^ k) (2 ^ k) m c).length := by
  have hP := Nat.two_pow_pos k
  have hcount := packetCount_eq hP c (m - c)
  rw [packetCount, Nat.add_sub_cancel' hc.le, ← length_pieces hP dvd_rfl hP,
    if_neg (by omega)] at hcount
  rw [hcount, numPackets, Word.divCeil, Word.divCeil]
  rw [wrChunkSize_eq] at hle
  -- the range ends at a boundary, so the part before the first one counts as a packet of its own
  rcases (by omega : k = 8 ∨ k = 9 ∨ k = 10 ∨ k = 11 ∨ k = 12) with
    rfl | rfl | rfl | rfl | rfl <;> omega

theorem nextPos_of_not_last {pos : ChunkPos} (h : isLastPos pos = false) (isLast : Bool) :
    isLastPos (IntoIter.nextPos isLast pos) = isLast ∧ isFirstPos (IntoIter.nextPos isLast pos) =
    false := by
  revert h
  cases pos <;> cases isLast <;> decide

/-- **The chunks of an iterator are sent as the packets of its range**, however large they are. -/
theorem Sends.sent_chunksOf (h : Sends it k) (hk₁ : 8 ≤ k) (hk₂ : k ≤ 12) (hdvd : 2 ^ k ∣ S)
    (hS0 : 0 < S) (hS : S ≤ wrChunkSize) (he : e ≤ 2 ^ 64) (hc : c < e) (hcross : c %
    2 ^ 32 + (e - c) ≤ 2 ^ 32) (hpos : isLastPos it.inner.currentPos = decide (e ≤ cut S (2 ^ k) c))
    (u : BitVec 64 × BitVec 32) (psnReg : BitVec 24) :
    sent u psnReg ((it.chunksOf (pieces S (2 ^ k) e c)).map WrChunk.wqe) =
      stamp it.builder.opcode (BitVec.ofNat 32 it.builder.totalLen) true
      (BitVec.ofNat 24 it.psn.inner)
        (isFirstPos it.inner.currentPos) (pieces (2 ^ k) (2 ^ k) e c) := by
  have hP := Nat.two_pow_pos k
  have hS' : wrChunkSize < 2 ^ 32 := by decide
  induction c using pieces_induction hP hdvd hS0 e generalizing it psnReg with
  | last c hle =>
    have hlen : e - c ≤ S := by
      unfold cut at hle
      omega
    obtain ⟨psnReg', hsent⟩ := h.sent_chunk hk₁ hk₂ (show 0 < e - c by omega) (by omega)
      (by omega) hcross it.inner.currentPos u psnReg []
    rw [hpos, decide_eq_true hle, Nat.add_sub_cancel' hc.le] at hsent
    rw [pieces_of_le hle]
    exact hsent.trans (append_nil _)
  | more c hlt ih =>
    have hcut := lt_cut hP hdvd hS0 c
    have hmod := cut_mod hdvd hS0 c
    have hlen : cut S (2 ^ k) c - c ≤ S := by
      unfold cut
      omega
    rw [pieces_of_lt hP hdvd hS0 hlt, IntoIterChunk.chunksOf, map_cons]
    generalize cut S (2 ^ k) c = m at hlt hcut hmod hlen ih hpos ⊢
    rw [decide_eq_false (by omega)] at hpos
    obtain ⟨psnReg', hsent⟩ := h.sent_chunk hk₁ hk₂ (show 0 < m - c by omega) (by omega)
      (show c + (m - c) ≤ 2 ^ 64 by omega) (by omega) it.inner.currentPos u psnReg
      (((it.after m (m - c) (pieces S (2 ^ k) e m).length).chunksOf (pieces S (2 ^ k) e m)).map
        WrChunk.wqe)
    rw [hpos, Nat.add_sub_cancel' hcut.le] at hsent
    rw [Nat.add_sub_cancel' hcut.le, hsent]
    -- the chunks that follow start at a boundary, after the packets of this one
    obtain ⟨hlast, hfirst⟩ := nextPos_of_not_last hpos ((pieces S (2 ^ k) e m).length == 1)
    have hone : ((pieces S (2 ^ k) e m).length == 1) = decide (e ≤ cut S (2 ^ k) m) :=
      decide_eq_decide.2 (length_pieces_eq_one_iff hP hdvd hS0)
    have hsends : Sends (it.after m (m - c) (pieces S (2 ^ k) e m).length) k :=
      ⟨h.payload, h.chunk, h.pmtu, h.isFirst, h.isLast⟩
    have hm : 2 ^ k ∣ m := Nat.dvd_of_mod_eq_zero hmod
    have hne : ∀ e c, pieces (2 ^ k) (2 ^ k) e c ≠ [] := fun e c =>
      ne_nil_of_length_pos (length_pieces hP dvd_rfl hP c ▸ numPieces_pos e c)
    have hnum : BitVec.ofNat 24 (it.psn + numPackets (m - c) it.pmtu).inner =
        BitVec.ofNat 24 it.psn.inner + BitVec.ofNat 24 (pieces (2 ^ k) (2 ^ k) m c).length := by
      rw [ofNat_add_inner, h.pmtu, numPackets_eq_length hk₁ hk₂ hm hcut (by omega)]
    rw [pieces_append hP hm hcut hlt, stamp_append (hne m c) (hne e m), ← hnum, ← hfirst]
    exact congrArg _ (ih hsends hlt (by omega) (hlast.trans hone) psnReg')

end Chunks

section Request

variable {wr : SendWrRdma} {qp : QpParams} {psn : Psn} {k P : ℕ}

theorem chunk_of_pmtu {n : ℕ} (h : convertIbvMtuToU16 n = some (2 ^ k)) :
    (getPmtuSizeByPmtuEnum (BitVec.ofNat 3 n)).toNat = k := by
  have key {j : ℕ} (hj : some (2 ^ j) = some (2 ^ k)) : j = k :=
    Nat.pow_right_injective le_rfl (Option.some.inj hj)
  unfold convertIbvMtuToU16 at h
  split at h
  · exact key (j := 8) h
  · exact key (j := 9) h
  · exact key (j := 10) h
  · exact key (j := 11) h
  · exact key (j := 12) h
  · cases h

theorem sent_startIter (hpayload : workReqNeedPayloadGen wr.opcode = true)
    (hpmtu : convertIbvMtuToU16 qp.pmtu = some (2 ^ k)) (hk₁ : 8 ≤ k) (hk₂ : k ≤
      12) (hlen : 0 < wr.length)
    (hcross : wr.raddr % 2 ^ 32 + wr.length ≤ 2 ^ 32) {S : ℕ} (hdvd : 2 ^ k ∣ S) (hS0 : 0 < S)
    (hS : S ≤ wrChunkSize) (isRetry : Bool) (u : BitVec 64 × BitVec 32) (psnReg : BitVec 24) :
    sent u psnReg (((startIter wr qp psn S (2 ^ k) isRetry).chunksOf (wrPieces wr S (2 ^ k))).map
      WrChunk.wqe) = stamp wr.opcode (BitVec.ofNat 32 wr.length) true (BitVec.ofNat 24 psn.inner)
    true
        (wrPieces wr (2 ^ k) (2 ^ k)) := by
  have hraddr := wr.raddr_lt
  have hsends : Sends (startIter wr qp psn S (2 ^ k) isRetry) k :=
    ⟨hpayload, chunk_of_pmtu hpmtu, rfl, rfl, rfl⟩
  have hone := length_pieces_eq_one_iff (e := wr.raddr + wr.length) (c := wr.raddr)
    (Nat.two_pow_pos k) hdvd hS0
  rw [length_pieces (Nat.two_pow_pos k) hdvd hS0] at hone
  have hpos : isLastPos (startIter wr qp psn S (2 ^ k) isRetry).inner.currentPos =
        decide (wr.raddr + wr.length ≤ cut S (2 ^ k) wr.raddr) ∧
      isFirstPos (startIter wr qp psn S (2 ^ k) isRetry).inner.currentPos = true := by
    simp only [startIter, hone]
    split_ifs with h
    · exact ⟨(decide_eq_true h).symm, rfl⟩
    · exact ⟨(decide_eq_false h).symm, rfl⟩
  have hsent := hsends.sent_chunksOf hk₁ hk₂ hdvd hS0 hS (show wr.raddr + wr.length ≤
    2 ^ 64 by omega) (Nat.lt_add_of_pos_right hlen) (by omega) hpos.1 u psnReg
  rwa [hpos.2] at hsent

/-- The packets of a work request are the same, but for the retry bit, when it is sent and when it
is sent again, whatever the register of the generator holds. -/
def RetransmitsSame (wr : SendWrRdma) (qp : QpParams) (psn : Psn) : Prop :=
  ∃ chunks packets, wrChunkFragmenter wr qp psn = some chunks ∧
    wrPacketFragmenter wr qp psn = some packets ∧ ∀ u psnReg psnReg',
    sent u psnReg (chunks.map WrChunk.wqe) = sent u psnReg' (packets.map WrChunk.wqe)

/-- **A request with payload is sent again as it was sent, exactly when cutting it into chunks
overflows no address.** -/
theorem retransmitsSame_iff (hpmtu : convertIbvMtuToU16 qp.pmtu = some P)
    (hpayload : workReqNeedPayloadGen wr.opcode = true) (hlen : 0 < wr.length)
    (hcross : wr.raddr % 2 ^ 32 + wr.length ≤ 2 ^ 32) :
    RetransmitsSame wr qp psn ↔ lastChunkStart wr P + wrChunkSize < 2 ^ 64 ∧ wr.laddr + wr.length <
    2 ^ 64 := by
  obtain ⟨k, hk₁, hk₂, rfl⟩ := convertIbvMtuToU16_eq hpmtu
  have hdvd := two_pow_dvd_wrChunkSize hk₂
  rcases lt_or_ge (wr.raddr + wr.length) (2 ^ 64) with hfit | hover
  · rw [← cutsFit_chunks_iff hk₂, RetransmitsSame, wrChunkFragmenter_eq hpmtu hk₂ hfit,
      wrPacketFragmenter_eq hpmtu (by omega) hfit]
    constructor
    · rintro ⟨chunks, packets, hchunks, -⟩
      split_ifs at hchunks with h
      exact h
    · intro h
      rw [if_pos h, if_pos (cutsFit_packets hk₂ hlen h)]
      refine ⟨_, _, rfl, rfl, fun u psnReg psnReg' => ?_⟩
      rw [sent_startIter hpayload hpmtu hk₁ hk₂ hlen hcross hdvd (by decide) le_rfl,
        sent_startIter hpayload hpmtu hk₁ hk₂ hlen hcross dvd_rfl (Nat.two_pow_pos k)
          (Nat.le_of_dvd (by decide) hdvd)]
  · -- the end of the range overflows, and the last chunk would reach it
    refine iff_of_false ?_ fun h => ?_
    · rintro ⟨chunks, -, hchunks, -⟩
      rw [wrChunkFragmenter_of_overflow hover] at hchunks
      cases hchunks
    · have hlt := Nat.lt_mul_div_succ (wr.raddr % 2 ^ k + wr.length - 1) (show 0 <
        wrChunkSize by decide)
      rw [Nat.mul_add] at hlt
      unfold lastChunkStart at h
      omega

/-- A write of 300 bytes across a packet boundary is sent again as it was sent. -/
theorem retransmitsSame_unaligned : RetransmitsSame
    (sampleWr .rdmaWrite 0x20ff 300 (by decide) (by decide)) sampleQp 5 :=
  (retransmitsSame_iff rfl (by decide) (by decide) (by decide)).2 ⟨by decide, by decide⟩

/-- One byte in the last `2 ^ 16` addresses: the first transmission traps, the retransmission is a
packet. -/
theorem not_retransmitsSame_top :
    wrChunkFragmenter (sampleWr .rdmaWrite 0xffffffffffff0000 1 (by decide) (by decide))
    sampleQp 5 = none ∧
      (wrPacketFragmenter (sampleWr .rdmaWrite 0xffffffffffff0000 1 (by decide) (by decide))
        sampleQp 5).map (fun packets => sent (0, 0) 0 (packets.map WrChunk.wqe)) =
          some [⟨5, 0xffffffffffff0000, 1, 1, some .rdmaWriteOnly, false⟩] ∧
      ¬ RetransmitsSame (sampleWr .rdmaWrite 0xffffffffffff0000 1 (by decide) (by decide))
      sampleQp 5 := by
  have hnone : wrChunkFragmenter (sampleWr .rdmaWrite 0xffffffffffff0000 1 (by decide) (by decide))
    sampleQp 5 =
      none := by decide +kernel
  refine ⟨hnone, by decide +kernel, ?_⟩
  rintro ⟨chunks, -, hchunks, -⟩
  cases hchunks

end Request

end OpenRdma.Rtl
