import Mathlib.Logic.Function.Basic
import OpenRdma.Foundations.Run
import OpenRdma.Rtl.Headers

/-!
# Memory regions and address translation

The page table has the number of the physical page of each entry. A translation adds the number of
pages from the start of the region to the first entry of the region, and puts the page number found
before the offset in the page. The physical address has 48 bits and is extended by its sign.

The driver writes the tables with commands. The entries of a page table command are read from host
memory, four to a beat, and written one at a time (`updatePgtStateHandlePGTUpdate`).
-/

namespace OpenRdma.Rtl

open List Option

/-! ## Translation -/

/-- The offset of an address in its page of 2 MB. -/
def getPageOffset (addr : BitVec 64) : BitVec 21 := addr.setWidth 21

/-- The number of the page of an address. -/
def getPageNumber (pa : BitVec 64) : BitVec 27 := (pa >>> 21).setWidth 27

/-- The physical address of a page number and an offset. -/
def restorePA (pn : BitVec 27) (po : BitVec 21) : BitVec 64 := (pn ++ po).signExtend 64

structure PgtAddrTranslateReq where
  pgtOffset : BitVec 17
  baseVA : BitVec 64
  addrToTrans : BitVec 64
  deriving DecidableEq

namespace PgtAddrTranslateReq

/-- The entry of the page table that is read. -/
def pteIdx (req : PgtAddrTranslateReq) : BitVec 17 :=
  req.pgtOffset + (getPageNumber req.addrToTrans - getPageNumber req.baseVA).setWidth 17

/-- The physical address for a request. -/
def answer (pgt : BitVec 17 → BitVec 27) (req : PgtAddrTranslateReq) : BitVec 64 :=
  restorePA (pgt req.pteIdx) (getPageOffset req.addrToTrans)

end PgtAddrTranslateReq

/-- The queues of `mkAddressTranslate`. -/
structure AddressTranslate where
  translateReq : List PgtAddrTranslateReq := []
  pageTableResp : List (BitVec 27) := []
  offsetInputQ : List (BitVec 21) := []
  translateResp : List (BitVec 64) := []

inductive TranslateLabel
  | request (req : PgtAddrTranslateReq)
  | handleTranslateReq
  | handleTranslateResp

def TranslateLabel.requests : TranslateLabel → List PgtAddrTranslateReq
  | .request req => [req]
  | _ => []

namespace AddressTranslate

def step (pgt : BitVec 17 → BitVec 27) (s : AddressTranslate) :
    TranslateLabel → Option AddressTranslate
  | .request req => some { s with translateReq := s.translateReq ++ [req] }
  | .handleTranslateReq =>
    match s.translateReq with
    | [] => none
    | req :: reqs =>
      some { s with
        translateReq := reqs
        pageTableResp := s.pageTableResp ++ [pgt req.pteIdx]
        offsetInputQ := s.offsetInputQ ++ [getPageOffset req.addrToTrans] }
  | .handleTranslateResp =>
    match s.offsetInputQ, s.pageTableResp with
    | pageOffset :: offsets, pte :: ptes =>
      some { s with
        offsetInputQ := offsets
        pageTableResp := ptes
        translateResp := s.translateResp ++ [restorePA pte pageOffset] }
    | _, _ => none

/-- The requests `A` were answered and the page table entries of `B` were read. -/
structure Inv (pgt : BitVec 17 → BitVec 27) (reqs : List PgtAddrTranslateReq) (s : AddressTranslate)
    (A B : List PgtAddrTranslateReq) : Prop where
  arrived : reqs = A ++ B ++ s.translateReq
  answers : s.translateResp = A.map (·.answer pgt)
  entries : s.pageTableResp = B.map fun req => pgt req.pteIdx
  offsets : s.offsetInputQ = B.map fun req => getPageOffset req.addrToTrans

variable {pgt : BitVec 17 → BitVec 27} {reqs A B : List PgtAddrTranslateReq}
  {s s' : AddressTranslate}
variable {ls : List TranslateLabel}

theorem Inv.handleTranslateReq {req : PgtAddrTranslateReq} {rest : List PgtAddrTranslateReq}
    (hi : Inv pgt reqs s A B) (hreqs : s.translateReq = req :: rest) :
    ∃ s', s.step pgt .handleTranslateReq = some s' ∧ Inv pgt reqs s' A (B ++ [req]) ∧
      s'.translateReq = rest := by
  simp only [AddressTranslate.step, hreqs]
  refine ⟨_, rfl, ⟨?_, hi.answers, ?_, ?_⟩, rfl⟩
  · rw [hi.arrived, hreqs]
    simp
  · rw [hi.entries, map_append]
    rfl
  · rw [hi.offsets, map_append]
    rfl

theorem Inv.handleTranslateResp {req : PgtAddrTranslateReq} (hi : Inv pgt reqs s A (req :: B)) :
    ∃ s', s.step pgt .handleTranslateResp = some s' ∧ Inv pgt reqs s' (A ++ [req]) B ∧
      s'.translateReq = s.translateReq := by
  simp only [AddressTranslate.step, hi.offsets, hi.entries]
  refine ⟨_, rfl, ⟨?_, ?_, rfl, rfl⟩, rfl⟩
  · rw [hi.arrived]
    simp
  · rw [hi.answers, map_append]
    rfl

theorem Inv.step {l : TranslateLabel} (hi : Inv pgt reqs s A B) (hs : s.step pgt l = some s') :
    ∃ A B, Inv pgt (reqs ++ l.requests) s' A B := by
  cases l with
  | request req =>
    cases hs
    refine ⟨A, B, ?_, hi.answers, hi.entries, hi.offsets⟩
    rw [hi.arrived, append_assoc]
    rfl
  | handleTranslateReq =>
    cases hreqs : s.translateReq with
    | nil =>
      simp only [AddressTranslate.step, hreqs] at hs
      cases hs
    | cons req rest =>
      obtain ⟨s₁, hs₁, hi₁, -⟩ := hi.handleTranslateReq hreqs
      obtain rfl := some.inj (hs₁.symm.trans hs)
      exact ⟨A, B ++ [req], (append_nil reqs).symm ▸ hi₁⟩
  | handleTranslateResp =>
    cases B with
    | nil =>
      simp only [AddressTranslate.step, hi.offsets] at hs
      cases hs
    | cons req B =>
      obtain ⟨s₁, hs₁, hi₁, -⟩ := hi.handleTranslateResp
      obtain rfl := some.inj (hs₁.symm.trans hs)
      exact ⟨A ++ [req], B, (append_nil reqs).symm ▸ hi₁⟩

theorem exists_inv (h : Run (AddressTranslate.step pgt) (fun _ _ => True) {} ls s) :
    ∃ A B, Inv pgt (ls.flatMap (·.requests)) s A B := by
  refine h.invariant (I := fun ls s => ∃ A B, Inv pgt (ls.flatMap (·.requests)) s A B)
    ⟨[], [], rfl, rfl, rfl, rfl⟩ ?_
  rintro ls s l s' ⟨A, B, hi⟩ - hs
  rw [flatMap_append, flatMap_singleton]
  exact hi.step hs

/-- **The translator answers its requests in order**, each with its own translation. -/
theorem run_answers (h : Run (AddressTranslate.step pgt) (fun _ _ => True) {} ls s) :
    s.translateResp <+: (ls.flatMap (·.requests)).map (·.answer pgt) := by
  obtain ⟨A, B, hi⟩ := exists_inv h
  rw [hi.answers, hi.arrived, append_assoc, map_append]
  exact prefix_append _ _

theorem Inv.completes (hi : Inv pgt reqs s A B)
    (h : Run (AddressTranslate.step pgt) (fun _ _ => True) {} ls s) :
    ∃ ls' s', (∀ l ∈ ls', l.requests = []) ∧
      Run (AddressTranslate.step pgt) (fun _ _ => True) {} (ls ++ ls') s' ∧
        s'.translateResp = reqs.map (·.answer pgt) := by
  -- a request waits for two rules, one whose entry was read for one
  induction hn : 2 * s.translateReq.length + B.length generalizing s A B ls with
  | zero =>
    have hB : B = [] := eq_nil_of_length_eq_zero (by omega)
    have hreqs : s.translateReq = [] := eq_nil_of_length_eq_zero (by omega)
    refine ⟨[], s, fun l hl => (not_mem_nil hl).elim, by rwa [append_nil], ?_⟩
    rw [hi.answers, hi.arrived, hB, hreqs, append_nil, append_nil]
  | succ n ih =>
    obtain ⟨l, s₁, hl, hs₁, A₁, B₁, hi₁, hn₁⟩ : ∃ l s₁, TranslateLabel.requests l = [] ∧
        s.step pgt l = some s₁ ∧
        ∃ A₁ B₁, Inv pgt reqs s₁ A₁ B₁ ∧ 2 * s₁.translateReq.length + B₁.length = n := by
      cases B with
      | nil =>
        cases hreqs : s.translateReq with
        | nil =>
          rw [hreqs] at hn
          cases hn
        | cons req rest =>
          obtain ⟨s₁, hs₁, hi₁, hrest⟩ := hi.handleTranslateReq hreqs
          refine ⟨_, s₁, rfl, hs₁, A, _, hi₁, ?_⟩
          rw [hreqs, length_cons, length_nil] at hn
          rw [hrest, length_append, length_singleton, length_nil]
          omega
      | cons req B =>
        obtain ⟨s₁, hs₁, hi₁, hrest⟩ := hi.handleTranslateResp
        refine ⟨_, s₁, rfl, hs₁, _, B, hi₁, ?_⟩
        rw [length_cons] at hn
        rw [hrest]
        omega
    obtain ⟨ls', s', hls', hrun, hresp⟩ := ih hi₁ (h.snoc trivial hs₁) hn₁
    refine ⟨l :: ls', s', ?_, by rwa [append_cons], hresp⟩
    rintro l' (_ | ⟨_, hl'⟩)
    · exact hl
    · exact hls' l' hl'

/-- **Every request is answered**: with no more requests, the rules answer all that arrived. -/
theorem run_completes (h : Run (AddressTranslate.step pgt) (fun _ _ => True) {} ls s) :
    ∃ ls' s', (∀ l ∈ ls', l.requests = []) ∧
      Run (AddressTranslate.step pgt) (fun _ _ => True) {} (ls ++ ls') s' ∧
        s'.translateResp = (ls.flatMap (·.requests)).map (·.answer pgt) := by
  obtain ⟨A, B, hi⟩ := exists_inv h
  exact hi.completes h

end AddressTranslate

/-- **A translation is right if and only if the physical address is not extended by a one.** -/
theorem restorePA_eq_iff {pa : ℕ} (hpa : pa < 2 ^ 48) (hpage : 2 ^ 21 ∣ pa) (v : ℕ) :
    restorePA (getPageNumber (BitVec.ofNat 64 pa)) (getPageOffset (BitVec.ofNat 64 v)) =
      BitVec.ofNat 64 (pa + v % 2 ^ 21) ↔ pa < 2 ^ 47 := by
  set x := getPageNumber (BitVec.ofNat 64 pa) ++ getPageOffset (BitVec.ofNat 64 v) with hx
  have hnat : x.toNat = pa + v % 2 ^ 21 := by
    rw [BitVec.toNat_append, getPageNumber, getPageOffset, BitVec.toNat_setWidth,
      BitVec.toNat_setWidth, BitVec.toNat_ushiftRight, BitVec.toNat_ofNat, BitVec.toNat_ofNat,
      ← Nat.shiftLeft_add_eq_or_of_lt (Nat.mod_lt _ (by decide))]
    omega
  rw [restorePA, ← BitVec.toNat_inj, BitVec.toNat_signExtend, BitVec.toNat_setWidth,
    BitVec.toNat_ofNat, BitVec.msb_eq_decide, hnat]
  by_cases hlt : pa < 2 ^ 47
  · rw [if_neg (by rw [decide_eq_true_eq]; omega)]
    omega
  · rw [if_pos (by rw [decide_eq_true_eq]; omega)]
    omega

/-! ## Commands -/

/-- The command that sets an entry of the region table. -/
structure CmdQueueReqDescUpdateMrTable where
  mrBaseVA : BitVec 64
  mrLength : BitVec 32
  mrKey : BitVec 32
  accFlags : BitVec 8
  pgtOffset : BitVec 17
  deriving DecidableEq

/-- The table of memory regions after a command for it. A region without length is none. -/
def execUpdateMrTable (mr : BitVec 13 → Option MemRegionTableEntry)
    (desc : CmdQueueReqDescUpdateMrTable) : BitVec 13 → Option MemRegionTableEntry :=
  Function.update mr (rkey2IndexMR desc.mrKey) <|
    if desc.mrLength = 0 then none
    else
      some {
        pgtOffset := desc.pgtOffset
        baseVA := desc.mrBaseVA
        len := desc.mrLength
        accFlags := desc.accFlags
        keyPart := rkey2KeyPartMR desc.mrKey }

/-- The command that sets entries of the page table. -/
structure CmdQueueReqDescUpdatePGT where
  dmaAddr : BitVec 64
  startIndex : BitVec 32
  zeroBasedEntryCount : BitVec 32
  deriving DecidableEq

/-- The registers of `mkMrAndPgtUpdater` for a page table command, with the beats read and the page
table. `isHandling` is the state `MrAndPgtManagerFsmStateHandlePGTUpdate`. -/
structure PgtUpdater where
  isHandling : Bool
  curBeatOfDataReg : BitVec 256
  curSecondStagePgtWriteIdxReg : BitVec 17
  zeroBasedPgtEntryTotalCntReg : BitVec 6
  zeroBasedPgtEntryBeatCntReg : BitVec 2
  dmaReadRespQ : List (BitVec 256)
  pgt : BitVec 17 → BitVec 27

namespace PgtUpdater

/-- The beat the next entry is taken from, and the beats after it. -/
def nextBeat (s : PgtUpdater) : Option (BitVec 256 × List (BitVec 256)) :=
  if s.zeroBasedPgtEntryBeatCntReg = 0 then
    match s.dmaReadRespQ with
    | [] => none
    | newFrag :: frags => some (newFrag, frags)
  else some (s.curBeatOfDataReg, s.dmaReadRespQ)

/-- An entry is written. A new beat is taken when the last one is used up. -/
def updatePgtStateHandlePGTUpdate (s : PgtUpdater) : Option PgtUpdater :=
  if s.isHandling then
    s.nextBeat.map fun (ds, frags) =>
      { isHandling := s.zeroBasedPgtEntryTotalCntReg ≠ 0
        zeroBasedPgtEntryTotalCntReg := s.zeroBasedPgtEntryTotalCntReg - 1
        zeroBasedPgtEntryBeatCntReg := s.zeroBasedPgtEntryBeatCntReg + 1
        dmaReadRespQ := frags
        pgt := Function.update s.pgt s.curSecondStagePgtWriteIdxReg ((ds >>> 21).setWidth 27)
        curSecondStagePgtWriteIdxReg := s.curSecondStagePgtWriteIdxReg + 1
        curBeatOfDataReg := ds >>> 64 }
  else none

def iterate : ℕ → PgtUpdater → Option PgtUpdater
  | 0, s => some s
  | n + 1, s => s.updatePgtStateHandlePGTUpdate.bind (iterate n)

end PgtUpdater

/-- The beat with four entries of memory from the `k`-th on. -/
def pgtBeat (mem : ℕ → BitVec 64) (k : ℕ) : BitVec 256 :=
  mem (4 * k + 3) ++ mem (4 * k + 2) ++ mem (4 * k + 1) ++ mem (4 * k)

/-- The beats of the entries up to the `n`-th. -/
def pgtBeats (mem : ℕ → BitVec 64) (n : ℕ) : List (BitVec 256) :=
  (List.range (n / 4 + 1)).map (pgtBeat mem)

/-- The updater when it took a command and memory was read. `cur` is left from the last command. -/
def PgtUpdater.start (pgt : BitVec 17 → BitVec 27) (desc : CmdQueueReqDescUpdatePGT)
    (mem : ℕ → BitVec 64) (cur : BitVec 256) : PgtUpdater where
  isHandling := true
  curBeatOfDataReg := cur
  curSecondStagePgtWriteIdxReg := desc.startIndex.setWidth 17
  zeroBasedPgtEntryTotalCntReg := desc.zeroBasedEntryCount.setWidth 6
  zeroBasedPgtEntryBeatCntReg := 0
  dmaReadRespQ := pgtBeats mem (desc.zeroBasedEntryCount.setWidth 6).toNat
  pgt := pgt

/-- The rule fires until the command is done: once for each entry. -/
def execUpdatePgt (pgt : BitVec 17 → BitVec 27) (desc : CmdQueueReqDescUpdatePGT)
    (mem : ℕ → BitVec 64) (cur : BitVec 256) : Option PgtUpdater :=
  (PgtUpdater.start pgt desc mem cur).iterate ((desc.zeroBasedEntryCount.setWidth 6).toNat + 1)

theorem setWidth_pgtBeat (mem : ℕ → BitVec 64) (i : ℕ) :
    (pgtBeat mem (i / 4) >>> (64 * (i % 4)) >>> 21).setWidth 27 = getPageNumber (mem i) := by
  have hi : mem i = mem (4 * (i / 4) + i % 4) := by rw [Nat.div_add_mod]
  have hr : i % 4 < 4 := Nat.mod_lt _ (by decide)
  rw [hi]
  generalize i % 4 = r at *
  ext j hj
  simp only [getPageNumber, pgtBeat, BitVec.getElem_setWidth, BitVec.getLsbD_ushiftRight,
    BitVec.getLsbD_append]
  obtain rfl | rfl | rfl | rfl : r = 0 ∨ r = 1 ∨ r = 2 ∨ r = 3 := by omega
  · rw [if_pos (by omega)]
    exact congrArg _ (by omega)
  · rw [if_neg (by omega), if_pos (by omega)]
    exact congrArg _ (by omega)
  · rw [if_neg (by omega), if_neg (by omega), if_pos (by omega)]
    exact congrArg _ (by omega)
  · rw [if_neg (by omega), if_neg (by omega), if_neg (by omega)]
    exact congrArg _ (by omega)

section

variable (pgt : BitVec 17 → BitVec 27) (start : BitVec 17) (n : ℕ) (mem : ℕ → BitVec 64)
  (cur : BitVec 256)

/-- The page table after `i` entries were written from `start` on. -/
def writtenPgt (i : ℕ) (idx : BitVec 17) : BitVec 27 :=
  if (idx - start).toNat < i then getPageNumber (mem (idx - start).toNat) else pgt idx

/-- The updater after `i` of the entries up to the `n`-th were written. -/
def updaterAt (i : ℕ) : PgtUpdater where
  isHandling := i ≤ n
  curBeatOfDataReg := if i = 0 then cur else pgtBeat mem ((i - 1) / 4) >>> (64 * ((i - 1) % 4 + 1))
  curSecondStagePgtWriteIdxReg := start + BitVec.ofNat 17 i
  zeroBasedPgtEntryTotalCntReg := BitVec.ofNat 6 n - BitVec.ofNat 6 i
  zeroBasedPgtEntryBeatCntReg := BitVec.ofNat 2 i
  dmaReadRespQ := (pgtBeats mem n).drop ((i + 3) / 4)
  pgt := writtenPgt pgt start mem i

variable {pgt start n mem cur}

theorem writtenPgt_succ {i : ℕ} (hi : i < 2 ^ 17) :
    Function.update (writtenPgt pgt start mem i) (start + BitVec.ofNat 17 i)
    (getPageNumber (mem i)) =
      writtenPgt pgt start mem (i + 1) := by
  funext idx
  have hidx : idx = start + BitVec.ofNat 17 i ↔ (idx - start).toNat = i := by
    rw [← sub_eq_iff_eq_add', ← BitVec.toNat_inj, BitVec.toNat_ofNat, Nat.mod_eq_of_lt hi]
  rw [Function.update_apply]
  by_cases heq : (idx - start).toNat = i
  · rw [if_pos (hidx.2 heq), writtenPgt, if_pos (by omega), heq]
  · rw [if_neg (heq ∘ hidx.1)]
    exact if_congr (by omega) rfl rfl

theorem nextBeat_updaterAt {i : ℕ} (hi : i ≤ n) : (updaterAt pgt start n mem cur i).nextBeat =
      some (pgtBeat mem (i / 4) >>> (64 * (i % 4)), (pgtBeats mem n).drop ((i + 1 + 3) / 4)) := by
  have hzero : BitVec.ofNat 2 i = 0 ↔ i % 4 = 0 := by
    rw [← BitVec.toNat_inj]
    rfl
  rw [PgtUpdater.nextBeat]
  by_cases hr : i % 4 = 0
  · rw [if_pos (show (updaterAt pgt start n mem cur i).zeroBasedPgtEntryBeatCntReg =
      0 from hzero.2 hr)]
    have hlt : i / 4 < (pgtBeats mem n).length := by
      rw [pgtBeats, length_map, length_range]
      omega
    have hdrop : (pgtBeats mem n).drop ((i + 3) / 4) =
        pgtBeat mem (i / 4) :: (pgtBeats mem n).drop ((i + 1 + 3) / 4) := by
      rw [show (i + 3) / 4 = i / 4 by omega, show (i + 1 + 3) / 4 = i / 4 + 1 by omega,
        drop_eq_getElem_cons hlt]
      simp [pgtBeats]
    rw [show (updaterAt pgt start n mem cur i).dmaReadRespQ = _ from hdrop, hr]
    simp
  · rw [if_neg (show ¬ (updaterAt pgt start n mem cur i).zeroBasedPgtEntryBeatCntReg = 0 from
      hr ∘ hzero.1)]
    have hcur : (updaterAt pgt start n mem cur i).curBeatOfDataReg =
        pgtBeat mem (i / 4) >>> (64 * (i % 4)) := by
      rw [updaterAt]
      rw [if_neg (by omega), show (i - 1) / 4 = i / 4 by omega, show (i - 1) % 4 + 1 = i %
        4 by omega]
    rw [hcur, show (updaterAt pgt start n mem cur i).dmaReadRespQ =
      (pgtBeats mem n).drop ((i + 1 + 3) / 4) by
      rw [updaterAt]
      rw [show (i + 3) / 4 = (i + 1 + 3) / 4 by omega]]

theorem update_updaterAt {i : ℕ} (hi : i ≤ n) (hn : n < 64) :
    (updaterAt pgt start n mem cur i).updatePgtStateHandlePGTUpdate =
      some (updaterAt pgt start n mem cur (i + 1)) := by
  rw [PgtUpdater.updatePgtStateHandlePGTUpdate,
    if_pos (show (updaterAt pgt start n mem cur i).isHandling = true from decide_eq_true hi),
    nextBeat_updaterAt hi, map_some]
  have hcount : BitVec.ofNat 6 n - BitVec.ofNat 6 i ≠ 0 ↔ i + 1 ≤ n := by
    rw [sub_ne_zero, Ne, ← BitVec.toNat_inj, BitVec.toNat_ofNat, BitVec.toNat_ofNat]
    omega
  simp only [updaterAt, some.injEq, PgtUpdater.mk.injEq]
  refine ⟨decide_eq_decide.2 hcount, ?_, ?_, ?_, ?_, trivial, ?_⟩
  · rw [if_neg (Nat.succ_ne_zero i), Nat.add_sub_cancel, ← BitVec.shiftRight_add, Nat.mul_add]
  · rw [BitVec.ofNat_add, add_assoc]
    rfl
  · rw [BitVec.ofNat_add, sub_sub]
    rfl
  · rw [BitVec.ofNat_add]
    rfl
  · rw [setWidth_pgtBeat]
    exact writtenPgt_succ (by omega)

theorem iterate_updaterAt {i k : ℕ} (hk : i + k ≤ n + 1) (hn : n < 64) :
    (updaterAt pgt start n mem cur i).iterate k = some (updaterAt pgt start n mem cur (i + k)) := by
  induction k generalizing i with
  | zero => rfl
  | succ k ih =>
    rw [PgtUpdater.iterate, update_updaterAt (by omega) hn, bind_some, ih (by omega),
      Nat.add_right_comm, Nat.add_assoc]

end

/-- **A page table command writes the pages of its entries** from its first index on, and leaves the
others. Then it is done. -/
theorem execUpdatePgt_eq (pgt : BitVec 17 → BitVec 27) (desc : CmdQueueReqDescUpdatePGT)
    (mem : ℕ → BitVec 64) (cur : BitVec 256) :
    ∃ s, execUpdatePgt pgt desc mem cur = some s ∧ s.isHandling = false ∧
      s.pgt = writtenPgt pgt (desc.startIndex.setWidth 17) mem
        ((desc.zeroBasedEntryCount.setWidth 6).toNat + 1) := by
  have hn : (desc.zeroBasedEntryCount.setWidth 6).toNat < 64 := BitVec.isLt _
  have hstart : PgtUpdater.start pgt desc mem cur =
      updaterAt pgt (desc.startIndex.setWidth 17) (desc.zeroBasedEntryCount.setWidth 6).toNat mem
      cur 0 := by
    simp only [PgtUpdater.start, updaterAt, PgtUpdater.mk.injEq]
    refine ⟨by simp, rfl, ?_, ?_, rfl, rfl, ?_⟩
    · simp
    · rw [BitVec.ofNat_toNat]
      exact (sub_zero _).symm
    · funext idx
      simp [writtenPgt]
  rw [execUpdatePgt, hstart, iterate_updaterAt (by omega) hn]
  refine ⟨_, rfl, ?_, ?_⟩
  · exact decide_eq_false (by omega)
  · rw [Nat.zero_add]
    rfl

end OpenRdma.Rtl
