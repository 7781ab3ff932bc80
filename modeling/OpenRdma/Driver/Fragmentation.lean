import OpenRdma.Driver.Fragmenter
import OpenRdma.Foundations.Pieces

/-!
# How many sequence numbers a work request takes

Three computations have to agree on the number of packets of a work request: `numPsn`, from which
the sequence numbers are reserved, the packet fragmenter that retransmits it, and the packets
counted along the chunks it is first sent in.
-/

namespace OpenRdma.Driver

open Word Iterator List Fragmenter

/-! ## The iterator over the pieces -/

theorem mask_eq_cut {c S k : ℕ} (h : c + S < 2 ^ 64) (hk : k ≤ 64) (hdvd : 2 ^ k ∣ S) :
    (c + S) &&& compl 64 (2 ^ k - 1) = cut S (2 ^ k) c := by
  rw [and_compl_two_pow h hk, cut, Nat.add_mod, Nat.mod_eq_zero_of_dvd hdvd, Nat.add_zero,
    Nat.mod_mod]

theorem Fragmenter.numSegments_eq {S k base length : ℕ} (hk : k ≤ 64) (hdvd : 2 ^ k ∣ S)
    (h : length = 0 ∨ base + S < 2 ^ 64) : Fragmenter.numSegments ⟨S, 2 ^ k, base, base + length⟩ =
      some (numPieces S (2 ^ k) (base + length) base) := by
  unfold numSegments numPieces
  dsimp only
  split_ifs with hle
  · rfl
  · have hS : base + S < 2 ^ 64 := by omega
    rw [checkedAdd_of_lt hS, Option.map_some, mask_eq_cut hS hk hdvd]

namespace IntoIter

variable {it : IntoIter} {k : ℕ}

theorem next_of_overflow (hcount : it.count ≠ 0) (h : 2 ^ 64 ≤ it.currentAddr + it.segmentSize) :
    it.next = none := by
  rw [next, if_neg hcount, checkedAdd_of_le h, Option.bind_none]

theorem next_eq (hcount : it.count ≠ 0) (halign : it.align = 2 ^ k) (hk : k ≤ 64)
    (hdvd : 2 ^ k ∣ it.segmentSize) (hS0 : 0 < it.segmentSize) (hle : it.currentAddr ≤ it.endAddr)
    (hend : it.endAddr < 2 ^ 64) (h : it.currentAddr + it.segmentSize < 2 ^ 64) :
    it.next = some (some
      ({ addr := it.currentAddr
         len := min (cut it.segmentSize (2 ^ k) it.currentAddr) it.endAddr - it.currentAddr
         pos := it.currentPos },
       { it with
         currentAddr := min (cut it.segmentSize (2 ^ k) it.currentAddr) it.endAddr
         count := it.count - 1
         currentPos := nextPos (it.count - 1 == 1) it.currentPos })) := by
  have hlt := lt_cut (Nat.two_pow_pos k) hdvd hS0 it.currentAddr
  rw [next, if_neg hcount, checkedAdd_of_lt h, Option.bind_some]
  dsimp only
  rw [halign, mask_eq_cut h hk hdvd, checkedSub_of_le (by omega), Option.bind_some,
    checkedAdd_of_lt (by omega), Option.map_some]
  congr 4
  omega

end IntoIter

namespace IntoIterChunk

variable {it : IntoIterChunk} {f : Fragment} {inner : IntoIter}

theorem next_of_fail (h : it.inner.next = none) : it.next = none := by
  rw [next, h, Option.bind_none]

theorem next_of_overflow (h : it.inner.next = some (some (f, inner)))
    (hl : 2 ^ 64 ≤ it.laddr + f.len) : it.next = none := by
  rw [next, h, Option.bind_some, Option.elim_some]
  dsimp only
  rw [checkedAdd_of_le hl, Option.map_none]

/-- The chunk of one piece. -/
def chunk (it : IntoIterChunk) (addr len : ℕ) (pos : ChunkPos) : WrChunk :=
  let chunk := it.builder.setChunkMeta it.psn it.laddr addr (len % 2 ^ 32) pos
  if it.isRetry then chunk.setIsRetry else chunk

theorem next_of_item (h : it.inner.next = some (some (f, inner))) (hl : it.laddr + f.len < 2 ^ 64) :
    it.next = some (some (it.chunk f.addr f.len f.pos,
      { it with inner := inner
                psn := it.psn + numPackets f.len it.pmtu
                laddr := it.laddr + f.len })) := by
  rw [next, h, Option.bind_some, Option.elim_some]
  dsimp only
  rw [checkedAdd_of_lt hl, Option.map_some, chunk]

/-- The iterator after a piece of length `len`, with `rest` pieces to come. -/
def after (it : IntoIterChunk) (currentAddr len rest : ℕ) : IntoIterChunk :=
  { it with
    inner := { it.inner with
      currentAddr := currentAddr
      count := rest
      currentPos := IntoIter.nextPos (rest == 1) it.inner.currentPos }
    psn := it.psn + numPackets len it.pmtu
    laddr := it.laddr + len }

/-- The chunks of a list of pieces, from the state the iterator is in. -/
def chunksOf (it : IntoIterChunk) : List (ℕ × ℕ) → List WrChunk
  | [] => []
  | (addr, len) :: ps =>
    it.chunk addr len it.inner.currentPos :: chunksOf (it.after (addr + len) len ps.length) ps

variable {k : ℕ} (hk : k ≤ 64)

include hk

theorem next_eq (hcount : it.inner.count ≠ 0) (halign : it.inner.align = 2 ^ k)
    (hdvd : 2 ^ k ∣ it.inner.segmentSize) (hS0 : 0 < it.inner.segmentSize)
    (hle : it.inner.currentAddr ≤ it.inner.endAddr) (hend : it.inner.endAddr < 2 ^ 64) :
    let c := it.inner.currentAddr
    let c' := min (cut it.inner.segmentSize (2 ^ k) c) it.inner.endAddr
    it.next =
      if c + it.inner.segmentSize < 2 ^ 64 ∧ it.laddr + (c' - c) < 2 ^ 64 then
        some (some (it.chunk c (c' - c) it.inner.currentPos,
          it.after c' (c' - c) (it.inner.count - 1)))
      else none := by
  intro c c'
  rcases lt_or_ge (c + it.inner.segmentSize) (2 ^ 64) with h | h
  · have hin := IntoIter.next_eq hcount halign hk hdvd hS0 hle hend h
    rcases lt_or_ge (it.laddr + (c' - c)) (2 ^ 64) with hl | hl
    · rw [if_pos ⟨h, hl⟩, next_of_item hin hl]
      rfl
    · rw [if_neg (by omega), next_of_overflow hin hl]
  · rw [if_neg (by omega), next_of_fail (IntoIter.next_of_overflow hcount h)]

/-- **The chunks of an iterator**: those of its pieces, unless an address overflows. -/
theorem toList_eq {S e : ℕ} (hdvd : 2 ^ k ∣ S) (hS0 : 0 < S) (he : e < 2 ^ 64)
    (halign : it.inner.align = 2 ^ k) (hseg : it.inner.segmentSize = S)
    (hend : it.inner.endAddr = e) (hle : it.inner.currentAddr ≤ e)
    (hcount : it.inner.count = numPieces S (2 ^ k) e it.inner.currentAddr) : it.toList =
      if (∀ p ∈ pieces S (2 ^ k) e it.inner.currentAddr, p.1 + S < 2 ^ 64) ∧
          it.laddr + (e - it.inner.currentAddr) < 2 ^ 64 then
        some (it.chunksOf (pieces S (2 ^ k) e it.inner.currentAddr))
      else none := by
  have hP := Nat.two_pow_pos k
  unfold toList
  generalize hc : it.inner.currentAddr = c at hle hcount ⊢
  induction c using pieces_induction hP hdvd hS0 e generalizing it with
  | last c h =>
    have hcount0 : it.inner.count ≠ 0 := by
      rw [hcount, numPieces_of_le hS0 h]
      decide
    have hnext := next_eq hk hcount0 halign (hseg ▸ hdvd) (hseg ▸ hS0) (by omega) (by omega)
    dsimp only at hnext
    rw [hc, hseg, hend, Nat.min_eq_right h] at hnext
    rw [hcount, numPieces_of_le hS0 h, pieces_of_le h]
    simp only [forall_mem_singleton]
    split_ifs at hnext ⊢ with hok
    · rw [collect_of_item hnext]
      rfl
    · rw [collect_of_fail hnext]
  | more c h ih =>
    have hlt := lt_cut hP hdvd hS0 c
    have hlen := length_pieces (e := e) hP hdvd hS0 (cut S (2 ^ k) c)
    have hcount0 : it.inner.count ≠ 0 := by
      rw [hcount, numPieces_of_lt hP hdvd hS0 h]
      omega
    have hnext := next_eq hk hcount0 halign (hseg ▸ hdvd) (hseg ▸ hS0) (by omega) (by omega)
    dsimp only at hnext
    rw [hc, hseg, hend, Nat.min_eq_left h.le, hcount, numPieces_of_lt hP hdvd hS0 h,
      Nat.add_sub_cancel] at hnext
    rw [hcount, numPieces_of_lt hP hdvd hS0 h, pieces_of_lt hP hdvd hS0 h]
    simp only [forall_mem_cons]
    split_ifs at hnext with hok
    · have halign' : (it.after (cut S (2 ^ k) c) (cut S (2 ^ k) c - c)
          (numPieces S (2 ^ k) e (cut S (2 ^ k) c))).inner.align = 2 ^ k := halign
      have hrest := ih halign' hseg hend rfl h.le rfl
      change collect IntoIterChunk.next (numPieces S (2 ^ k) e (cut S (2 ^ k) c)) _ = _ at hrest
      have hladdr : it.laddr + (cut S (2 ^ k) c - c) + (e - cut S (2 ^ k) c) =
        it.laddr + (e - c) := by
        omega
      rw [collect_of_item hnext, hrest]
      dsimp only [after]
      simp only [hok.1, true_and, hladdr]
      split_ifs
      · rw [chunksOf, Nat.add_sub_cancel' hlt.le, hlen]
        rfl
      · rfl
    · rw [collect_of_fail hnext, if_neg]
      rintro ⟨⟨h₁, _⟩, h₂⟩
      exact hok ⟨h₁, by omega⟩

omit hk in
@[simp] theorem chunk_psn (addr len : ℕ) (pos : ChunkPos) :
    (it.chunk addr len pos).psn = it.psn := by
  unfold chunk
  split_ifs <;> rfl

omit hk in
@[simp] theorem chunk_len (addr len : ℕ) (pos : ChunkPos) :
    (it.chunk addr len pos).len = len % 2 ^ 32 := by
  unfold chunk
  split_ifs <;> rfl

omit hk in
@[simp] theorem chunk_opcode (addr len : ℕ) (pos : ChunkPos) :
    (it.chunk addr len pos).opcode = it.builder.opcode := by
  unfold chunk
  split_ifs <;> rfl

omit hk in
theorem opcode_chunksOf (ps : List (ℕ × ℕ)) :
    ∀ c ∈ it.chunksOf ps, c.opcode = it.builder.opcode := by
  induction ps generalizing it with
  | nil => simp [chunksOf]
  | cons p ps ih =>
    intro c hc
    rcases mem_cons.1 hc with rfl | hc
    · exact chunk_opcode _ _ _
    · have := ih c hc
      exact this

omit hk in
theorem length_chunksOf (ps : List (ℕ × ℕ)) : (it.chunksOf ps).length = ps.length := by
  induction ps generalizing it with
  | nil => rfl
  | cons p ps ih => rw [chunksOf, length_cons, ih, length_cons]

omit hk in
theorem map_len_chunksOf (ps : List (ℕ × ℕ)) :
    (it.chunksOf ps).map WrChunk.len = ps.map fun p => p.2 % 2 ^ 32 := by
  induction ps generalizing it with
  | nil => rfl
  | cons p ps ih => rw [chunksOf, map_cons, map_cons, ih, chunk_len]

omit hk in
theorem map_psn_chunksOf {ps : List (ℕ × ℕ)} (h : ∀ p ∈ ps, numPackets p.2 it.pmtu = 1) :
    (it.chunksOf ps).map WrChunk.psn = (List.range ps.length).map (it.psn + ·) := by
  induction ps generalizing it with
  | nil => rfl
  | cons p ps ih =>
    rw [forall_mem_cons] at h
    have hps : ∀ q ∈ ps, numPackets q.2 (it.after (p.1 + p.2) p.2 ps.length).pmtu = 1 := h.2
    rw [chunksOf, map_cons, ih hps, chunk_psn, length_cons, range_succ_eq_map, map_cons,
      Psn.add_zero, map_map]
    congr 1
    refine map_congr_left fun i _ => ?_
    change it.psn + numPackets p.2 it.pmtu + i = it.psn + (i + 1)
    rw [h.1, Psn.add_add, Nat.add_comm]

end IntoIterChunk

/-! ## The fragments of a work request -/

section WorkRequest

variable {wr : SendWrRdma} {qp : QpParams} {psn : Psn} {k : ℕ}
variable {S k addr P length : ℕ}

/-- The iterator over the chunks of a work request, at its start. -/
def startIter (wr : SendWrRdma) (qp : QpParams) (psn : Psn) (S P : ℕ) (isRetry : Bool) :
    IntoIterChunk :=
  { inner := { segmentSize := S
               align := P
               currentAddr := wr.raddr
               currentPos := if numPieces S P (wr.raddr + wr.length) wr.raddr =
                 1 then .only else .first
               endAddr := wr.raddr + wr.length
               count := numPieces S P (wr.raddr + wr.length) wr.raddr }
    psn := psn
    builder := ((WrChunk.newWithOpcode wr.opcode).setQpParams qp).setIbvParams wr
    laddr := wr.laddr
    pmtu := P
    isRetry := isRetry }

/-- The pieces of a work request. -/
def wrPieces (wr : SendWrRdma) (S P : ℕ) : List (ℕ × ℕ) :=
  pieces S P (wr.raddr + wr.length) wr.raddr

theorem length_wrPieces_pos (hdvd : 2 ^ k ∣ S) (hS0 : 0 < S) :
    0 < (wrPieces wr S (2 ^ k)).length := by
  rw [wrPieces, length_pieces (Nat.two_pow_pos k) hdvd hS0]
  exact numPieces_pos _ _

section

variable (hpmtu : convertIbvMtuToU16 qp.pmtu = some (2 ^ k))
include hpmtu

theorem chunkFragmenter_eq (hk : k ≤ 64) (hfit : wr.raddr + wr.length < 2 ^ 64) (hdvd : 2 ^ k ∣ S)
    (h : wr.length = 0 ∨ wr.raddr + S < 2 ^ 64) (isRetry : Bool) :
    chunkFragmenter wr qp psn S isRetry = some (startIter wr qp psn S (2 ^ k) isRetry) := by
  rw [chunkFragmenter, hpmtu, Option.bind_some, new, checkedAdd_of_lt hfit,
    Option.map_some, Option.bind_some, intoIter, numSegments_eq hk hdvd h,
    Option.bind_some, if_pos (numPieces_pos _ _)]
  rfl

theorem chunkFragmenter_of_overflow (hfit : wr.raddr + wr.length < 2 ^ 64) (hlen : 0 < wr.length)
    (h : 2 ^ 64 ≤ wr.raddr + S) (isRetry : Bool) : chunkFragmenter wr qp psn S isRetry = none := by
  rw [chunkFragmenter, hpmtu, Option.bind_some, new, checkedAdd_of_lt hfit,
    Option.map_some, Option.bind_some, intoIter, numSegments,
    if_neg (show ¬ wr.raddr ≥ wr.raddr + wr.length by omega), checkedAdd_of_le h, Option.map_none,
    Option.bind_none, Option.map_none]

/-- **The chunks of a work request**: those of its pieces, unless an address overflows. -/
theorem toList_chunkFragmenter (hk : k ≤ 64)
    (hfit : wr.raddr + wr.length < 2 ^ 64) (hdvd : 2 ^ k ∣ S) (hS0 : 0 < S) (isRetry : Bool) :
    (chunkFragmenter wr qp psn S isRetry).bind IntoIterChunk.toList =
      if (∀ p ∈ wrPieces wr S (2 ^ k), p.1 + S < 2 ^ 64) ∧ wr.laddr + wr.length < 2 ^ 64 then
        some ((startIter wr qp psn S (2 ^ k) isRetry).chunksOf (wrPieces wr S (2 ^ k)))
      else none := by
  by_cases h : wr.length = 0 ∨ wr.raddr + S < 2 ^ 64
  · have halign : (startIter wr qp psn S (2 ^ k) isRetry).inner.align = 2 ^ k := rfl
    rw [chunkFragmenter_eq hpmtu hk hfit hdvd h, Option.bind_some,
      IntoIterChunk.toList_eq hk hdvd hS0 hfit halign rfl rfl (Nat.le_add_right _ _) rfl]
    simp only [startIter, Nat.add_sub_cancel_left]
    rfl
  · rw [chunkFragmenter_of_overflow hpmtu hfit (by omega) (by omega), Option.bind_none, if_neg]
    rintro ⟨hall, _⟩
    have hmem : ∃ p ∈ wrPieces wr S (2 ^ k), p.1 = wr.raddr := by
      unfold wrPieces
      rw [pieces]
      split_ifs
      · exact ⟨_, mem_cons_self, rfl⟩
      · exact ⟨_, mem_singleton_self _, rfl⟩
    obtain ⟨p, hp, hpa⟩ := hmem
    have := hall p hp
    omega

end

/-! ## The number of sequence numbers reserved -/

/-- The sequence numbers a work request reserves: one for a read, `num_psn` for the others. -/
def reservedPsns (wr : SendWrRdma) (pmtu : ℕ) : Option ℕ :=
  if wr.opcode = .rdmaRead then some 1 else numPsn pmtu wr.raddr wr.length

/-- The gap `num_psn` leaves out: the way to the next packet boundary, or zero where the boundary
is past the last address. -/
def boundaryGap (P addr : ℕ) : ℕ := if addr % P = 0 ∨ 2 ^ 64 < addr + P then 0 else P - addr % P

theorem gap_eq (hk₁ : 8 ≤ k) (hk₂ : k ≤ 12) (h : addr < 2 ^ 64) :
    (saturatingAdd 64 addr (2 ^ k - 1) &&& compl 64 (2 ^ k - 1)) - addr =
    boundaryGap (2 ^ k) addr := by
  rw [saturatingAdd, and_compl_two_pow (by omega) (by omega), boundaryGap]
  rcases (by omega : k = 8 ∨ k = 9 ∨ k = 10 ∨ k = 11 ∨ k = 12) with
    rfl | rfl | rfl | rfl | rfl <;> split_ifs <;> omega

/-- The packets `num_psn` counts: one less than the range meets when the range starts off a packet
boundary and reaches the next packet. -/
def psnCount (P addr length : ℕ) : ℕ :=
  if addr % P + length ≤ P then 1
  else if addr % P = 0 then divCeil length P else divCeil (addr % P + length) P - 1

theorem divCeil_eq_one {d : ℕ} (h₁ : 0 < d) (h₂ : d ≤ P) : divCeil d P = 1 := by
  rw [divCeil_of_pos (by omega) h₁, show d - P = 0 by omega, divCeil_zero (by omega)]

theorem mod_add_le_of_overflow (hk : k ≤ 64) (hfit : addr + length < 2 ^ 64)
    (h : 2 ^ 64 < addr + 2 ^ k) : addr % 2 ^ k + length ≤ 2 ^ k := by
  obtain ⟨m, hm⟩ := Nat.pow_dvd_pow 2 hk
  have hdiv := Nat.div_add_mod addr (2 ^ k)
  have h₁ : m < addr / 2 ^ k + 2 := by
    by_contra hge
    have := Nat.mul_le_mul_left (2 ^ k) (not_lt.1 hge)
    rw [Nat.mul_add] at this
    omega
  have h₂ := Nat.mul_le_mul_left (2 ^ k) (show m ≤ addr / 2 ^ k + 1 by omega)
  rw [Nat.mul_add] at h₂
  omega

theorem psnCount_eq (hk : k ≤ 64) (hfit : addr + length < 2 ^ 64) :
    max (divCeil (if boundaryGap (2 ^ k) addr ≤ length then length - boundaryGap (2 ^ k) addr
      else length) (2 ^ k)) 1 = psnCount (2 ^ k) addr length := by
  have hP := Nat.two_pow_pos k
  have hone : ∀ d ≤ 2 ^ k, max (divCeil d (2 ^ k)) 1 = 1 := by
    intro d hd
    rcases Nat.eq_zero_or_pos d with rfl | hd'
    · rw [divCeil_zero hP]
      rfl
    · rw [divCeil_eq_one hd' hd]
      rfl
  unfold boundaryGap psnCount
  by_cases h0 : addr % 2 ^ k = 0
  · rw [if_pos (Or.inl h0), if_pos (Nat.zero_le _), Nat.sub_zero, if_pos h0, h0, Nat.zero_add]
    split_ifs with hle
    · exact hone length hle
    · rw [divCeil_of_pos hP (by omega)]
      omega
  by_cases hover : 2 ^ 64 < addr + 2 ^ k
  · have hle := mod_add_le_of_overflow hk hfit hover
    rw [if_pos (Or.inr hover), if_pos (Nat.zero_le _), Nat.sub_zero, if_pos hle,
      hone length (by omega)]
  · rw [if_neg (show ¬ (addr % 2 ^ k = 0 ∨ 2 ^ 64 < addr + 2 ^ k) by tauto)]
    split_ifs with h₁ h₂ h₂
    · exact hone _ (by omega)
    · rw [divCeil_of_pos hP (show 0 < addr % 2 ^ k + length by omega),
        show length - (2 ^ k - addr % 2 ^ k) = addr % 2 ^ k + length - 2 ^ k by omega,
        divCeil_of_pos hP (by omega)]
      omega
    · exact hone _ (by omega)
    · omega

theorem psnCount_le (addr : ℕ) (hk₁ : 8 ≤ k) (hk₂ : k ≤ 12) (hlen : length < 2 ^ 32) :
    psnCount (2 ^ k) addr length ≤ 2 ^ 24 := by
  unfold psnCount divCeil
  rcases (by omega : k = 8 ∨ k = 9 ∨ k = 10 ∨ k = 11 ∨ k = 12) with
    rfl | rfl | rfl | rfl | rfl <;> split_ifs <;> omega

/-- **The value of `num_psn`**: one short when the remote address is not aligned and the range
reaches the next packet. -/
theorem numPsn_eq {pmtu : ℕ} (hpmtu : convertIbvMtuToU16 pmtu = some P)
    (hfit : addr + length < 2 ^ 64) (hlen : length < 2 ^ 32) :
    numPsn pmtu addr length = some (psnCount P addr length) := by
  obtain ⟨k, hk₁, hk₂, rfl⟩ := convertIbvMtuToU16_eq hpmtu
  have hle := psnCount_le addr hk₁ hk₂ hlen
  rw [numPsn, hpmtu, Option.bind_some]
  dsimp only
  rw [gap_eq hk₁ hk₂ (by omega), checkedSub_getD, psnCount_eq (by omega) hfit, if_pos (by omega)]

/-! ## The three counts -/

/-- The packets of a work request, as the packet fragmenter counts them. -/
def packetCount (P addr length : ℕ) : ℕ := numPieces P P (addr + length) addr

/-- The packets of a work request, as they are counted along its chunks. -/
def chunkPacketCount (P addr length : ℕ) : ℕ :=
  if addr % P + length ≤ wrChunkSize then divCeil length P else divCeil (addr % P + length) P

theorem wrChunkSize_eq : wrChunkSize = 2 ^ 16 := by decide

theorem two_pow_dvd_wrChunkSize (hk : k ≤ 12) : 2 ^ k ∣ wrChunkSize := by
  rw [wrChunkSize_eq]
  exact Nat.pow_dvd_pow 2 (by omega)

theorem numPackets_eq_one {len : ℕ} (h₁ : 0 < len) (h₂ : len ≤ 2 ^ k) :
    numPackets len (2 ^ k) = 1 := by
  have hP := Nat.two_pow_pos k
  rw [numPackets, divCeil_of_pos hP h₁, show len - 2 ^ k = 0 by omega, divCeil_zero hP]
  rfl

theorem numPackets_eq_divCeil {len : ℕ} (hk : 8 ≤ k) (hk' : k ≤ 12) (h : len ≤ wrChunkSize) :
    numPackets (len % 2 ^ 32) (2 ^ k) = divCeil len (2 ^ k) := by
  rw [wrChunkSize_eq] at h
  unfold numPackets divCeil
  rcases (by omega : k = 8 ∨ k = 9 ∨ k = 10 ∨ k = 11 ∨ k = 12) with
    rfl | rfl | rfl | rfl | rfl <;> omega

theorem sum_numPackets_chunksOf {it : IntoIterChunk} (hk₁ : 8 ≤ k) (hk₂ : k ≤ 12) :
    (((it.chunksOf (wrPieces wr wrChunkSize (2 ^ k))).map fun c => numPackets c.len (2 ^ k)).sum) =
      chunkPacketCount (2 ^ k) wr.raddr wr.length := by
  have hP := Nat.two_pow_pos k
  have hdvd := two_pow_dvd_wrChunkSize hk₂
  have hS0 : 0 < wrChunkSize := by decide
  have hmod := Nat.mod_le wr.raddr (2 ^ k)
  have hmap : (it.chunksOf (wrPieces wr wrChunkSize (2 ^ k))).map (fun c =>
    numPackets c.len (2 ^ k)) =
      (wrPieces wr wrChunkSize (2 ^ k)).map fun p => divCeil p.2 (2 ^ k) := by
    rw [← Function.comp_def (fun l => numPackets l (2 ^ k)) WrChunk.len, ← map_map,
      IntoIterChunk.map_len_chunksOf, map_map]
    refine map_congr_left fun p hp => numPackets_eq_divCeil hk₁ hk₂ ?_
    exact len_pieces_le hP hdvd hS0 _ p hp
  rw [hmap, wrPieces, sum_divCeil_pieces hP hdvd hS0, chunkPacketCount, cut]
  have hle : wr.raddr + wr.length ≤ wr.raddr + wrChunkSize - wr.raddr % 2 ^ k ↔
      wr.raddr % 2 ^ k + wr.length ≤ wrChunkSize := by omega
  simp only [hle, Nat.add_sub_cancel_left]
  rw [show wr.raddr + wr.length - (wr.raddr - wr.raddr % 2 ^ k) =
    wr.raddr % 2 ^ k + wr.length by omega]

theorem packetCount_eq (hP : 0 < P) (addr length : ℕ) :
    packetCount P addr length = if length = 0 then 1 else divCeil (addr % P + length) P := by
  unfold packetCount numPieces cut
  rcases Nat.eq_zero_or_pos length with h | h
  · rw [if_pos (by omega), if_pos h]
  · have hmod := Nat.mod_le addr P
    rw [if_neg (by omega), if_neg (by omega),
      show addr + length - (addr + P - addr % P) = addr % P + length - P by omega,
      ← divCeil_of_pos hP (show 0 < addr % P + length by omega)]

theorem counts_agree_iff (read : Prop) [Decidable read] (hP : 0 < P) (hP' : P ≤ wrChunkSize) :
    ((if read then 1 else psnCount P addr length) = packetCount P addr length ∧
      (if read then 1 else psnCount P addr length) = chunkPacketCount P addr length) ↔
      0 < length ∧ (addr % P + length ≤ P ∨ ¬ read ∧ addr % P = 0) := by
  have hmod := Nat.mod_lt addr hP
  rw [packetCount_eq hP]
  unfold psnCount chunkPacketCount
  rcases Nat.eq_zero_or_pos length with rfl | hlen
  · simp only [if_true, Nat.add_zero, hmod.le.trans hP', divCeil_zero hP]
    omega
  rw [if_neg (by omega : length ≠ 0)]
  by_cases hone : addr % P + length ≤ P
  · rw [if_pos hone, ite_self, if_pos (hone.trans hP'), divCeil_eq_one (by omega) hone,
      divCeil_eq_one hlen (by omega)]
    omega
  · -- the range meets at least two packets
    have htwo : 1 < divCeil (addr % P + length) P := by
      rw [divCeil_of_pos hP (by omega), divCeil_of_pos hP (by omega)]
      omega
    rw [if_neg hone]
    by_cases hr : read
    · rw [if_pos hr]
      simp only [hr, hone, not_true_eq_false, false_and, or_self, and_false, iff_false]
      omega
    · rw [if_neg hr]
      by_cases h0 : addr % P = 0
      · simp [h0, hr, hlen]
      · rw [if_neg h0]
        omega

/-! ## The packets and the chunks of a work request -/

/-- Cutting a work request into pieces of `S` overflows no address. -/
def CutsFit (wr : SendWrRdma) (S P : ℕ) : Prop :=
  (∀ p ∈ wrPieces wr S P, p.1 + S < 2 ^ 64) ∧ wr.laddr + wr.length < 2 ^ 64

instance (wr : SendWrRdma) (S P : ℕ) : Decidable (CutsFit wr S P) :=
  inferInstanceAs (Decidable (_ ∧ _))

theorem wrPacketFragmenter_eq (hpmtu : convertIbvMtuToU16 qp.pmtu = some (2 ^ k)) (hk : k ≤ 64)
    (hfit : wr.raddr + wr.length < 2 ^ 64) (psn : Psn) :
    wrPacketFragmenter wr qp psn = if CutsFit wr (2 ^ k) (2 ^ k) then
      some ((startIter wr qp psn (2 ^ k) (2 ^ k) true).chunksOf (wrPieces wr (2 ^ k) (2 ^ k)))
        else none := by
  rw [wrPacketFragmenter, hpmtu, Option.bind_some,
    toList_chunkFragmenter hpmtu hk hfit dvd_rfl (Nat.two_pow_pos k)]
  rfl

theorem wrChunkFragmenter_eq (hpmtu : convertIbvMtuToU16 qp.pmtu = some (2 ^ k)) (hk : k ≤ 12)
    (hfit : wr.raddr + wr.length < 2 ^ 64) (psn : Psn) :
    wrChunkFragmenter wr qp psn = if CutsFit wr wrChunkSize (2 ^ k) then
      some ((startIter wr qp psn wrChunkSize (2 ^ k) false).chunksOf
        (wrPieces wr wrChunkSize (2 ^ k))) else none := by
  rw [wrChunkFragmenter, toList_chunkFragmenter hpmtu (by omega) hfit (two_pow_dvd_wrChunkSize hk)
    (by decide)]
  rfl

theorem wrChunkFragmenter_of_overflow (h : 2 ^ 64 ≤ wr.raddr + wr.length) (psn : Psn) :
    wrChunkFragmenter wr qp psn = none := by
  rw [wrChunkFragmenter, chunkFragmenter]
  cases convertIbvMtuToU16 qp.pmtu with
  | none => rfl
  | some pmtu => rw [Option.bind_some, new, checkedAdd_of_le h]; rfl

/-- The length of the first chunk of a work request. -/
def firstChunkLen (wr : SendWrRdma) (P : ℕ) : ℕ :=
  min (cut wrChunkSize P wr.raddr) (wr.raddr + wr.length) - wr.raddr

/-- **The chunks before an overflow**: there is a first one, unless it overflows itself. -/
theorem wrChunksYielded_cons (hpmtu : convertIbvMtuToU16 qp.pmtu = some (2 ^ k)) (hk : k ≤ 12)
    (hfit : wr.raddr + wr.length < 2 ^ 64) (psn : Psn) :
    wrChunksYielded wr qp psn =
      if wr.raddr + wrChunkSize < 2 ^ 64 ∧ wr.laddr + firstChunkLen wr (2 ^ k) < 2 ^ 64 then
        let it := startIter wr qp psn wrChunkSize (2 ^ k) false
        let rest := it.inner.count - 1
        it.chunk wr.raddr (firstChunkLen wr (2 ^ k)) it.inner.currentPos ::
        yields IntoIterChunk.next rest
          (it.after (wr.raddr + firstChunkLen wr (2 ^ k)) (firstChunkLen wr (2 ^ k)) rest)
      else [] := by
  have hdvd := two_pow_dvd_wrChunkSize hk
  have hS0 : 0 < wrChunkSize := by decide
  have hlt := lt_cut (Nat.two_pow_pos k) hdvd hS0 wr.raddr
  rw [wrChunksYielded]
  by_cases hstart : wr.length = 0 ∨ wr.raddr + wrChunkSize < 2 ^ 64
  · rw [chunkFragmenter_eq hpmtu (by omega) hfit hdvd hstart, Option.elim_some]
    generalize hit : startIter wr qp psn wrChunkSize (2 ^ k) false = it
    have hcount : it.inner.count ≠ 0 := by
      subst hit
      exact (numPieces_pos _ _).ne'
    have hnext := IntoIterChunk.next_eq (k := k) (by omega) hcount (by subst hit; rfl)
      (by subst hit; exact hdvd) (by subst hit; exact hS0)
      (by subst hit; exact Nat.le_add_right _ _) (by subst hit; exact hfit)
    obtain ⟨n, hn⟩ := Nat.exists_eq_succ_of_ne_zero hcount
    have hlen : wr.raddr + firstChunkLen wr (2 ^ k) =
        min (cut wrChunkSize (2 ^ k) wr.raddr) (wr.raddr + wr.length) := by
      rw [firstChunkLen]
      omega
    rw [hlen, hn, yields, hnext]
    subst hit
    change ((if wr.raddr + wrChunkSize < 2 ^ 64 ∧ wr.laddr + firstChunkLen wr (2 ^ k) <
      2 ^ 64 then _ else none : Option (Option (WrChunk × IntoIterChunk))).getD none).elim [] _ = _
    split_ifs
    · simp only [Option.getD_some, Option.elim_some, hn]
      rfl
    · rfl
  · rw [chunkFragmenter_of_overflow hpmtu hfit (by omega) (by omega), Option.elim_none,
      if_neg (by omega)]

theorem wrChunksYielded_of_overflow (h : 2 ^ 64 ≤ wr.raddr + wr.length) (psn : Psn) :
    wrChunksYielded wr qp psn = [] := by
  rw [wrChunksYielded, chunkFragmenter]
  cases convertIbvMtuToU16 qp.pmtu with
  | none => rfl
  | some pmtu => rw [Option.bind_some, new, checkedAdd_of_le h]; rfl

/-- **The packets of a work request carry consecutive sequence numbers**, as many as it meets
packets. -/
theorem map_psn_packets (psn : Psn) :
    ((startIter wr qp psn (2 ^ k) (2 ^ k) true).chunksOf (wrPieces wr (2 ^ k) (2 ^ k))).map
        WrChunk.psn = (List.range (packetCount (2 ^ k) wr.raddr wr.length)).map (psn + ·) := by
  have hP := Nat.two_pow_pos k
  have hlen := length_pieces (e := wr.raddr + wr.length) hP dvd_rfl hP wr.raddr
  rcases Nat.eq_zero_or_pos wr.length with h0 | h0
  · -- an empty request is one empty packet, which does not advance the sequence number
    have hcut := lt_cut hP dvd_rfl hP wr.raddr
    rw [packetCount, ← hlen, wrPieces, pieces_of_le (by omega), length_singleton,
      range_one, map_singleton, Psn.add_zero]
    rfl
  · rw [IntoIterChunk.map_psn_chunksOf, wrPieces, hlen]
    · rfl
    · intro p hp
      exact numPackets_eq_one (len_pieces_pos hP dvd_rfl hP _ (by omega) p hp)
        (len_pieces_le hP dvd_rfl hP _ p hp)

/-- The start of the last chunk of a work request. -/
def lastChunkStart (wr : SendWrRdma) (P : ℕ) : ℕ :=
  max wr.raddr (wr.raddr - wr.raddr % P +
    wrChunkSize * ((wr.raddr % P + wr.length - 1) / wrChunkSize))

theorem cutsFit_chunks_iff (hk : k ≤ 12) : CutsFit wr wrChunkSize (2 ^ k) ↔
      lastChunkStart wr (2 ^ k) + wrChunkSize < 2 ^ 64 ∧ wr.laddr + wr.length < 2 ^ 64 := by
  have hP := Nat.two_pow_pos k
  have hdvd := two_pow_dvd_wrChunkSize hk
  have hS0 : 0 < wrChunkSize := by decide
  unfold CutsFit wrPieces lastChunkStart
  rcases Nat.eq_zero_or_pos wr.length with hlen | hlen
  · -- an empty request is one chunk, at its start
    have hle := Nat.le_of_dvd hS0 hdvd
    have hdiv : (wr.raddr % 2 ^ k + 0 - 1) / wrChunkSize = 0 := Nat.div_eq_of_lt (by omega)
    rw [hlen, hdiv, Nat.add_zero, pieces_of_le (lt_cut hP hdvd hS0 _).le, Nat.mul_zero,
      max_eq_left ((Nat.add_zero _).trans_le (Nat.sub_le _ _)), forall_mem_singleton]
  · rw [forall_pieces_iff hP hdvd hS0 _ _ (by omega), Nat.add_sub_cancel_left]

theorem cutsFit_packets (hk : k ≤ 12) (hlen : 0 < wr.length)
    (h : CutsFit wr wrChunkSize (2 ^ k)) : CutsFit wr (2 ^ k) (2 ^ k) := by
  refine ⟨?_, h.2⟩
  have hP := Nat.two_pow_pos k
  have hPS : 2 ^ k ≤ wrChunkSize := Nat.le_of_dvd (by decide) (two_pow_dvd_wrChunkSize hk)
  have hS0 : 0 < wrChunkSize := by decide
  rw [cutsFit_chunks_iff hk, lastChunkStart] at h
  unfold wrPieces
  rw [forall_pieces_iff hP dvd_rfl hP _ _ (by omega), Nat.add_sub_cancel_left]
  generalize wr.raddr % 2 ^ k + wr.length - 1 = d at h ⊢
  -- the last packet ends within the last chunk
  have hend : 2 ^ k * (d / 2 ^ k) + 2 ^ k ≤ wrChunkSize * (d / wrChunkSize) + wrChunkSize := by
    obtain ⟨m, hm⟩ := two_pow_dvd_wrChunkSize hk
    have hlt : d / 2 ^ k < m * (d / wrChunkSize + 1) := by
      rw [Nat.div_lt_iff_lt_mul hP, Nat.mul_comm _ (2 ^ k), ← Nat.mul_assoc, ← hm]
      exact Nat.lt_mul_div_succ d hS0
    have := Nat.mul_le_mul_left (2 ^ k) hlt
    rw [← Nat.mul_assoc, ← hm] at this
    simpa [Nat.mul_add] using this
  omega

/-! ## When the counts agree -/

/-- The sequence numbers reserved for a work request are those its packets carry when it is
retransmitted, each once, and as many as its chunks take. -/
def PsnsAgree (wr : SendWrRdma) (qp : QpParams) (psn : Psn) (P : ℕ) : Prop :=
  ∃ n packets chunks,
    reservedPsns wr qp.pmtu = some n ∧
    wrPacketFragmenter wr qp psn = some packets ∧
    packets.map WrChunk.psn = (List.range n).map (psn + ·) ∧
    (packets.map WrChunk.psn).Nodup ∧
    wrChunkFragmenter wr qp psn = some chunks ∧
    (chunks.map fun c => numPackets c.len P).sum = n

theorem reservedPsns_eq (hpmtu : convertIbvMtuToU16 qp.pmtu = some P)
    (hfit : wr.raddr + wr.length < 2 ^ 64) : reservedPsns wr qp.pmtu =
      some (if wr.opcode = .rdmaRead then 1 else psnCount P wr.raddr wr.length) := by
  unfold reservedPsns
  split_ifs
  · rfl
  · exact numPsn_eq hpmtu hfit wr.length_lt

/-- **When the sequence numbers reserved are those used**: the range is not empty, it stays within
one packet or the request is not a read and starts at a packet boundary, and no address
overflows. -/
theorem psnsAgree_iff {P : ℕ} (hpmtu : convertIbvMtuToU16 qp.pmtu = some P)
    (hfit : wr.raddr + wr.length < 2 ^ 64) :
    PsnsAgree wr qp psn P ↔
      (0 < wr.length ∧
        (wr.raddr % P + wr.length ≤ P ∨ wr.opcode ≠ .rdmaRead ∧ wr.raddr % P = 0)) ∧
      lastChunkStart wr P + wrChunkSize < 2 ^ 64 ∧ wr.laddr + wr.length < 2 ^ 64 := by
  obtain ⟨k, hk₁, hk₂, rfl⟩ := convertIbvMtuToU16_eq hpmtu
  have hPC : 2 ^ k ≤ wrChunkSize := Nat.le_of_dvd (by decide) (two_pow_dvd_wrChunkSize hk₂)
  unfold PsnsAgree
  rw [reservedPsns_eq hpmtu hfit, wrPacketFragmenter_eq hpmtu (by omega) hfit,
    wrChunkFragmenter_eq hpmtu hk₂ hfit,
    ← counts_agree_iff (wr.opcode = .rdmaRead) (Nat.two_pow_pos k) hPC]
  constructor
  · rintro ⟨n, packets, chunks, hn, hp, hpsn, -, hc, hsum⟩
    have hn := Option.some.inj hn
    split_ifs at hp hc with hfitp hfitc
    cases hp
    cases hc
    have hagree : n = packetCount (2 ^ k) wr.raddr wr.length ∧
        n = chunkPacketCount (2 ^ k) wr.raddr wr.length := by
      rw [sum_numPackets_chunksOf hk₁ hk₂] at hsum
      have hlen := congrArg length hpsn
      rw [map_psn_packets] at hlen
      simp only [length_map, length_range] at hlen
      exact ⟨hlen.symm, hsum.symm⟩
    rw [hn]
    refine ⟨hagree, ?_⟩
    exact (cutsFit_chunks_iff hk₂).1 hfitc
  · rintro ⟨hagree, hfitc⟩
    have hpos := ((counts_agree_iff _ (Nat.two_pow_pos k) hPC).1 hagree).1
    rw [← cutsFit_chunks_iff hk₂] at hfitc
    rw [if_pos hfitc, if_pos (cutsFit_packets hk₂ hpos hfitc)]
    refine ⟨_, _, _, rfl, rfl, ?_, ?_, rfl, ?_⟩
    · rw [map_psn_packets, ← hagree.1]
    · rw [map_psn_packets, ← hagree.1]
      refine Psn.nodup_map_add ?_
      have := psnCount_le wr.raddr hk₁ hk₂ wr.length_lt
      split_ifs <;> omega
    · rw [sum_numPackets_chunksOf hk₁ hk₂, ← hagree.2]

end WorkRequest

/-- A request for `length` bytes at `raddr`, with a path MTU of 256 below. -/
def sampleWr (opcode : WorkReqOpCode) (raddr length : ℕ) (hr : raddr < 2 ^ 64)
    (hl : length < 2 ^ 32) : SendWrRdma where
  base := { wrId := 7, sendFlags := 2, laddr := 0x1000, length := length, lkey := 1, immData := 0
            opcode := opcode, laddr_lt := sampleAddr_lt, length_lt := hl }
  raddr := raddr
  rkey := 2
  raddr_lt := hr

/-- Queue pair parameters with a path MTU of 256. -/
def sampleQp : QpParams :=
  { msn := 0, qpType := 2, sqpn := 0x100, macAddr := 0, dqpn := 0x200, dqpIp := 0, pmtu := 1 }

/-- Two packets at a boundary, numbered across the wrap. -/
theorem psnsAgree_two_packets :
    PsnsAgree (sampleWr .rdmaWrite 0x2000 512 (by decide) (by decide)) sampleQp 0xffffff 256 :=
  (psnsAgree_iff rfl (by decide)).2 ⟨⟨by decide, Or.inr ⟨by decide, by decide⟩⟩, by decide⟩

theorem not_psnsAgree_of_ne {wr : SendWrRdma} {qp : QpParams} {psn : Psn} {P : ℕ} (n : ℕ)
    (psns : List Psn) (hr : reservedPsns wr qp.pmtu = some n)
    (hp : (wrPacketFragmenter wr qp psn).map (List.map WrChunk.psn) = some psns)
    (hne : psns.length ≠ n) : ¬ PsnsAgree wr qp psn P := by
  rintro ⟨n', packets, chunks, hr', hp', hpsn, -⟩
  rw [hp', Option.map_some, Option.some.injEq] at hp
  rw [hr, Option.some.injEq] at hr'
  rw [← hp, hpsn, length_map, length_range, hr'] at hne
  exact hne rfl

/-- Two bytes across a packet boundary reserve one sequence number and are two packets, and so are
512 bytes of a read. -/
theorem psns_disagree :
    ¬ PsnsAgree (sampleWr .rdmaWrite 0x20ff 2 (by decide) (by decide)) sampleQp 0 256 ∧
      ¬ PsnsAgree (sampleWr .rdmaRead 0x2000 512 (by decide) (by decide)) sampleQp 0 256 :=
  ⟨not_psnsAgree_of_ne 1 [0, 1] (by decide +kernel) (by decide +kernel) (by decide),
    not_psnsAgree_of_ne 1 [0, 1] (by decide +kernel) (by decide +kernel) (by decide)⟩

end OpenRdma.Driver
