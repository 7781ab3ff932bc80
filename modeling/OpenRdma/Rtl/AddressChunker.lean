import Mathlib.Data.BitVec
import Mathlib.Tactic.Ring
import OpenRdma.Foundations.Pieces
import OpenRdma.Foundations.Run

/-!
# The address chunker

The chunker cuts a range of memory at the multiples of a power of two. A request is prepared in one
rule, its first chunk is given out in another, and the others, one after the other, in a third.
-/

namespace OpenRdma.Rtl

open List Option

/-! ## Requests and responses -/

/-- A range to cut, and the size of its chunks. -/
structure AddressChunkReq where
  startAddr : BitVec 64
  len : BitVec 32
  chunk : BitVec 4
  deriving DecidableEq

structure AddressChunkResp where
  startAddr : BitVec 64
  len : BitVec 32
  isFirst : Bool
  isLast : Bool
  deriving DecidableEq

/-- An entry of `preCalcResultQueue`. -/
structure PreCalcResult where
  chunkSize : BitVec 32
  nonValidByteCntInFirstChunk : BitVec 32
  zeroBasedChunkCnt : BitVec 32
  startAddr : BitVec 64
  len : BitVec 32
  deriving DecidableEq

/-- What `preCalc` makes of a request. -/
def AddressChunkReq.preCalc (req : AddressChunkReq) : PreCalcResult :=
  let chunkSize : BitVec 32 := 1#32 <<< req.chunk.toNat
  let start : BitVec 32 := req.startAddr.setWidth 32
  { chunkSize := chunkSize
    nonValidByteCntInFirstChunk := start &&& (chunkSize - 1)
    zeroBasedChunkCnt := ((start + (req.len - 1)) >>> req.chunk.toNat) - (start >>> req.chunk.toNat)
    startAddr := req.startAddr
    len := req.len }

namespace PreCalcResult

/-- The length of the first chunk, if there are more. -/
def outputLen (p : PreCalcResult) : BitVec 32 := p.chunkSize - p.nonValidByteCntInFirstChunk

def firstBeat (p : PreCalcResult) : AddressChunkResp where
  startAddr := p.startAddr
  len := if p.zeroBasedChunkCnt = 0 then p.len else p.outputLen
  isFirst := true
  isLast := p.zeroBasedChunkCnt = 0

/-- The responses of `doOtherBeat`, with `n` chunks remaining. -/
def otherBeats (chunkSize : BitVec 32) : ℕ → BitVec 64 → BitVec 32 → List AddressChunkResp
  | 0, _, _ => []
  | n + 1, nextAddr, remainingLen =>
    ⟨nextAddr, if n = 0 then remainingLen else chunkSize, false, n = 0⟩ ::
      otherBeats chunkSize n (nextAddr + chunkSize.setWidth 64) (remainingLen - chunkSize)

/-- All chunks of a request. -/
def responses (p : PreCalcResult) : List AddressChunkResp :=
  p.firstBeat :: otherBeats p.chunkSize p.zeroBasedChunkCnt.toNat (p.startAddr +
    p.outputLen.setWidth 64) (p.len - p.outputLen)

end PreCalcResult

/-! ## The rules -/

/-- `mkAddressChunker`, with the responses given out so far: those of the requests that are done,
and those of the one in progress. -/
structure AddressChunker where
  reqQ : List AddressChunkReq
  preCalcResultQueue : List PreCalcResult
  respQ : List AddressChunkResp
  busyReg : Bool
  remainingChunkNumReg : BitVec 32
  nextAddrReg : BitVec 64
  remainingLenReg : BitVec 32
  chunkSizeReg : BitVec 32
  answered : List (List AddressChunkResp)
  current : List AddressChunkResp
  deriving DecidableEq

/-- A request enters, a rule fires, or a response is taken. -/
inductive ChunkerLabel
  | request (req : AddressChunkReq)
  | preCalc
  | doFirstBeat
  | doOtherBeat
  | takeResponse
  deriving DecidableEq

def ChunkerLabel.Own (l : ChunkerLabel) : Prop := ∀ req, l ≠ .request req

namespace AddressChunker

/-- The state after a reset. The registers without a reset value hold anything. -/
def init (remainingChunkNumReg remainingLenReg chunkSizeReg : BitVec 32) (nextAddrReg : BitVec 64) :
    AddressChunker :=
  ⟨[], [], [], false, remainingChunkNumReg, nextAddrReg, remainingLenReg, chunkSizeReg, [], []⟩

/-- The first stage of the pipeline. -/
def preCalc (s : AddressChunker) : Option AddressChunker :=
  match s.reqQ with
  | [] => none
  | req :: reqs =>
    if s.preCalcResultQueue.length < 1 then
      some { s with reqQ := reqs, preCalcResultQueue := s.preCalcResultQueue ++ [req.preCalc] }
    else none

/-- The second stage, at the first chunk. -/
def doFirstBeat (s : AddressChunker) : Option AddressChunker :=
  match s.preCalcResultQueue with
  | [] => none
  | p :: ps =>
    if s.busyReg = false ∧ s.respQ.length < 2 then
      let isOnlyChunk : Bool := p.zeroBasedChunkCnt = 0
      some { s with
        preCalcResultQueue := ps
        respQ := s.respQ ++ [p.firstBeat]
        chunkSizeReg := p.chunkSize
        nextAddrReg := p.startAddr + p.outputLen.setWidth 64
        busyReg := !isOnlyChunk
        remainingLenReg := p.len - p.outputLen
        remainingChunkNumReg := p.zeroBasedChunkCnt
        answered := if isOnlyChunk then s.answered ++ [[p.firstBeat]] else s.answered
        current := if isOnlyChunk then [] else [p.firstBeat] }
    else none

def otherBeat (s : AddressChunker) : AddressChunkResp :=
  let isLast : Bool := s.remainingChunkNumReg = 1
  ⟨s.nextAddrReg, if isLast then s.remainingLenReg else s.chunkSizeReg, false, isLast⟩

/-- The second stage, at a later chunk. -/
def doOtherBeat (s : AddressChunker) : Option AddressChunker :=
  if s.busyReg = true ∧ s.respQ.length < 2 then
    let isLast : Bool := s.remainingChunkNumReg = 1
    some { s with
      respQ := s.respQ ++ [s.otherBeat]
      busyReg := !isLast
      remainingChunkNumReg := if isLast then s.remainingChunkNumReg else s.remainingChunkNumReg - 1
      nextAddrReg := s.nextAddrReg + s.chunkSizeReg.setWidth 64
      remainingLenReg := s.remainingLenReg - s.chunkSizeReg
      answered := if isLast then s.answered ++ [s.current ++ [s.otherBeat]] else s.answered
      current := if isLast then [] else s.current ++ [s.otherBeat] }
  else none

def step (s : AddressChunker) : ChunkerLabel → Option AddressChunker
  | .request req => if s.reqQ.length < 1 then some { s with reqQ := s.reqQ ++ [req] } else none
  | .preCalc => s.preCalc
  | .doFirstBeat => s.doFirstBeat
  | .doOtherBeat => s.doOtherBeat
  | .takeResponse => if s.respQ = [] then none else some { s with respQ := s.respQ.tail }

/-! ## The order of the responses -/

def requests (ls : List ChunkerLabel) : List AddressChunkReq :=
  ls.filterMap fun l => match l with
    | .request req => some req
    | _ => none

/-- All responses of the request in progress, those to come included. -/
def inProgress (s : AddressChunker) : List (List AddressChunkResp) :=
  if s.busyReg then
    [s.current ++ PreCalcResult.otherBeats s.chunkSizeReg s.remainingChunkNumReg.toNat s.nextAddrReg
      s.remainingLenReg]
  else []

/-- The responses given out and those to come are the ones of the requests. -/
structure Inv (ls : List ChunkerLabel) (s : AddressChunker) : Prop where
  remaining : s.busyReg = true → s.remainingChunkNumReg ≠ 0
  answers : s.answered ++ (s.inProgress ++ (s.preCalcResultQueue.map (·.responses) ++
    s.reqQ.map (·.preCalc.responses))) = (requests ls).map (·.preCalc.responses)

variable {s s' : AddressChunker} {ls : List ChunkerLabel} {l : ChunkerLabel}

theorem requests_append_own (h : l.Own) : requests (ls ++ [l]) = requests ls := by
  rw [requests, filterMap_append]
  cases l with
  | request req => exact absurd rfl (h req)
  | _ => exact append_nil _

theorem requests_append_owns (ls : List ChunkerLabel) {ls' : List ChunkerLabel}
    (h : ∀ l ∈ ls', l.Own) : requests (ls ++ ls') = requests ls := by
  induction ls' using reverseRecOn with
  | nil => rw [append_nil]
  | append_singleton ls' l ih =>
    rw [← append_assoc, requests_append_own (h l (mem_append_right _ (mem_singleton_self l))),
      ih fun l' hl' => h l' (mem_append_left _ hl')]

theorem requests_append_request (ls : List ChunkerLabel) (req : AddressChunkReq) :
    requests (ls ++ [.request req]) = requests ls ++ [req] := by
  rw [requests, filterMap_append]
  rfl

theorem toNat_sub_one {x : BitVec 32} (h : x ≠ 0) : (x - 1).toNat + 1 = x.toNat := by
  bv_omega

theorem otherBeats_eq (h : s.remainingChunkNumReg ≠ 0) :
    PreCalcResult.otherBeats s.chunkSizeReg s.remainingChunkNumReg.toNat s.nextAddrReg
    s.remainingLenReg =
      s.otherBeat :: PreCalcResult.otherBeats s.chunkSizeReg (s.remainingChunkNumReg - 1).toNat
        (s.nextAddrReg + s.chunkSizeReg.setWidth 64) (s.remainingLenReg - s.chunkSizeReg) := by
  have hlast : (s.remainingChunkNumReg - 1).toNat = 0 ↔ s.remainingChunkNumReg = 1 := by bv_omega
  rw [← toNat_sub_one h, PreCalcResult.otherBeats, otherBeat]
  simp only [hlast, decide_eq_true_eq]

theorem Inv.preCalc (h : Inv ls s) (hs : s.preCalc = some s') : Inv (ls ++ [.preCalc]) s' := by
  obtain ⟨hrem, hans⟩ := h
  rw [AddressChunker.preCalc] at hs
  split at hs
  · cases hs
  · next req reqs hreq =>
    obtain ⟨-, rfl⟩ := ite_some_none_eq_some.1 hs
    refine ⟨hrem, ?_⟩
    rw [requests_append_own (by rintro _ ⟨⟩), ← hans, hreq]
    simp [inProgress]

theorem Inv.doFirstBeat (h : Inv ls s) (hs : s.doFirstBeat = some s') :
    Inv (ls ++ [.doFirstBeat]) s' := by
  obtain ⟨-, hans⟩ := h
  rw [AddressChunker.doFirstBeat] at hs
  split at hs
  · cases hs
  · next p ps hp =>
    obtain ⟨⟨hidle, -⟩, rfl⟩ := ite_some_none_eq_some.1 hs
    rw [inProgress, hidle, hp] at hans
    refine ⟨fun hbusy => by simpa using hbusy, ?_⟩
    rw [requests_append_own (by rintro _ ⟨⟩), ← hans]
    by_cases honly : p.zeroBasedChunkCnt = 0#32
    · simp [inProgress, honly, PreCalcResult.responses, PreCalcResult.otherBeats]
    · simp [inProgress, honly, PreCalcResult.responses]

theorem Inv.doOtherBeat (h : Inv ls s) (hs : s.doOtherBeat = some s') :
    Inv (ls ++ [.doOtherBeat]) s' := by
  obtain ⟨hrem, hans⟩ := h
  obtain ⟨⟨hbusy, -⟩, rfl⟩ := ite_some_none_eq_some.1 hs
  rw [inProgress, hbusy, otherBeats_eq (hrem hbusy)] at hans
  by_cases hlast : s.remainingChunkNumReg = 1#32
  · refine ⟨fun hbusy => by simp [hlast] at hbusy, ?_⟩
    rw [requests_append_own (by rintro _ ⟨⟩), ← hans]
    simp [inProgress, hlast, PreCalcResult.otherBeats]
  · refine ⟨fun _ => ?_, ?_⟩
    · have hne : s.remainingChunkNumReg - 1#32 ≠ 0#32 := by bv_omega
      simpa [hlast] using hne
    · rw [requests_append_own (by rintro _ ⟨⟩), ← hans]
      simp [inProgress, hlast]

theorem Inv.step (h : Inv ls s) (hs : s.step l = some s') : Inv (ls ++ [l]) s' := by
  cases l with
  | request req =>
    obtain ⟨-, rfl⟩ := ite_some_none_eq_some.1 hs
    refine ⟨h.remaining, ?_⟩
    have hans := congrArg (· ++ [req.preCalc.responses]) h.answers
    rw [requests_append_request]
    simpa [inProgress] using hans
  | preCalc => exact h.preCalc hs
  | doFirstBeat => exact h.doFirstBeat hs
  | doOtherBeat => exact h.doOtherBeat hs
  | takeResponse =>
    obtain ⟨-, hs⟩ := ite_none_left_eq_some.1 hs
    cases hs
    exact ⟨h.remaining, by rw [requests_append_own (by rintro _ ⟨⟩), ← h.answers]; rfl⟩

/-! ## Settling -/

/-- The number of steps that are left at most: two for every response to come, and one for what
prepares a request and for a response to be taken. -/
def measure (s : AddressChunker) : ℕ :=
  (s.reqQ.map fun req => 2 * req.preCalc.zeroBasedChunkCnt.toNat + 4).sum +
    (s.preCalcResultQueue.map fun p => 2 * p.zeroBasedChunkCnt.toNat + 3).sum +
    (if s.busyReg then 2 * s.remainingChunkNumReg.toNat else 0) + s.respQ.length

theorem measure_lt (h : Inv ls s) (hl : l.Own) (hs : s.step l = some s') :
    s'.measure < s.measure := by
  cases l with
  | request req => exact absurd rfl (hl req)
  | preCalc =>
    rw [step, AddressChunker.preCalc] at hs
    split at hs
    · cases hs
    · next req reqs hreq =>
      obtain ⟨-, rfl⟩ := ite_some_none_eq_some.1 hs
      simp only [measure, hreq, map_cons, sum_cons, map_append, sum_append,
        map_nil, sum_nil]
      omega
  | doFirstBeat =>
    rw [step, AddressChunker.doFirstBeat] at hs
    split at hs
    · cases hs
    · next p ps hp =>
      obtain ⟨⟨hidle, -⟩, rfl⟩ := ite_some_none_eq_some.1 hs
      simp only [measure, hp, map_cons, sum_cons, length_append, length_singleton]
      split <;> omega
  | doOtherBeat =>
    obtain ⟨⟨hbusy, -⟩, rfl⟩ := ite_some_none_eq_some.1 hs
    have hsub := toNat_sub_one (h.remaining hbusy)
    by_cases hlast : s.remainingChunkNumReg = 1
    · simp only [measure, hlast, hbusy, decide_true, Bool.not_true, Bool.false_eq_true,
        if_false, if_true, length_append, length_singleton]
      have hone : (1 : BitVec 32).toNat = 1 := rfl
      omega
    · simp only [measure, hlast, hbusy, decide_false, Bool.not_false, Bool.false_eq_true,
        if_false, if_true, length_append, length_singleton]
      omega
  | takeResponse =>
    obtain ⟨hne, hs⟩ := ite_none_left_eq_some.1 hs
    cases hs
    have hpos := length_pos_iff.2 hne
    simp only [measure, length_tail]
    omega

/-- Every label is possible at any time, if the state allows it. -/
def Possible (_ : AddressChunker) (_ : ChunkerLabel) : Prop := True

section Runs

variable {a b c : BitVec 32} {d : BitVec 64}

theorem inv_of_run (h : Run step Possible (init a b c d) ls s) : Inv ls s :=
  h.invariant ⟨fun hbusy => Bool.noConfusion hbusy, rfl⟩ fun _ _ _ _ hinv _ hs => hinv.step hs

theorem decreases : Decreases step Possible ChunkerLabel.Own (init a b c d) measure :=
  fun _ _ _ _ hrun hl _ hs => measure_lt (inv_of_run hrun) hl hs

/-- **The responses are those of the requests, in their order**, when the chunker is done. -/
theorem answered_of_quiescent (h : Run step Possible (init a b c d) ls s)
    (hq : Quiescent step Possible ChunkerLabel.Own s) :
    s.reqQ = [] ∧ s.answered = (requests ls).map (·.preCalc.responses) := by
  have hresp : s.respQ = [] := by
    have htake := hq .takeResponse (by rintro _ ⟨⟩) trivial
    by_contra hne
    rw [step, if_neg hne] at htake
    cases htake
  have hidle : s.busyReg = false := by
    have hother := hq .doOtherBeat (by rintro _ ⟨⟩) trivial
    by_contra hbusy
    rw [step, doOtherBeat, hresp, if_pos ⟨Bool.eq_true_of_not_eq_false hbusy, by decide⟩] at hother
    cases hother
  have hpre : s.preCalcResultQueue = [] := by
    have hfirst := hq .doFirstBeat (by rintro _ ⟨⟩) trivial
    cases hp : s.preCalcResultQueue with
    | nil => rfl
    | cons p ps =>
      rw [step, doFirstBeat, hp, hresp] at hfirst
      dsimp only at hfirst
      rw [if_pos ⟨hidle, by decide⟩] at hfirst
      cases hfirst
  have hreq : s.reqQ = [] := by
    have hcalc := hq .preCalc (by rintro _ ⟨⟩) trivial
    cases hp : s.reqQ with
    | nil => rfl
    | cons req reqs =>
      rw [step, AddressChunker.preCalc, hp, hpre] at hcalc
      cases hcalc
  have hans := (inv_of_run h).answers
  rw [inProgress, hidle, hpre, hreq] at hans
  exact ⟨hreq, by simpa using hans⟩

theorem exists_quiescent (reqs : List AddressChunkReq) :
    ∃ ls s, Run step Possible (init a b c d) ls s ∧ requests ls = reqs ∧
      Quiescent step Possible ChunkerLabel.Own s := by
  induction reqs using reverseRecOn with
  | nil =>
    obtain ⟨ls, s, hown, hrun, hq⟩ := Run.settles (decreases (a := a) (b := b) (c := c) (d := d))
      .nil
    have hreqs := requests_append_owns [] hown
    exact ⟨ls, s, hrun, hreqs, hq⟩
  | append_singleton reqs req ih =>
    obtain ⟨ls, s, hrun, hreqs, hq⟩ := ih
    have hs : s.step (.request req) = some { s with reqQ := s.reqQ ++ [req] } := by
      rw [step, (answered_of_quiescent hrun hq).1, if_pos (by decide)]
    obtain ⟨ls', s', hown, hrun', hq'⟩ := Run.settles decreases (hrun.snoc trivial hs)
    refine ⟨_, s', hrun', ?_, hq'⟩
    rw [requests_append_owns _ hown, requests_append_request, hreqs]

end Runs

end AddressChunker

/-! ## Chunks -/

def AddressChunkResp.range (r : AddressChunkResp) : ℕ × ℕ := (r.startAddr.toNat, r.len.toNat)

/-- The response does not cross a multiple of `S`. -/
def AddressChunkResp.Within (S : ℕ) (r : AddressChunkResp) : Prop :=
  r.startAddr.toNat / S = (r.startAddr.toNat + r.len.toNat - 1) / S

/-- The responses cut the range of a request at the multiples of the size of a chunk, and only the
first and the last one are marked as such. -/
structure Chunks (req : AddressChunkReq) (rs : List AddressChunkResp) : Prop where
  nonempty : rs ≠ []
  tiles : Tiles req.startAddr.toNat (rs.map (·.range)) (req.startAddr.toNat + req.len.toNat)
  aligned : ∀ r ∈ rs.tail, 2 ^ req.chunk.toNat ∣ r.startAddr.toNat
  within : ∀ r ∈ rs, r.Within (2 ^ req.chunk.toNat)
  first : rs.map (·.isFirst) = true :: replicate (rs.length - 1) false
  last : rs.map (·.isLast) = replicate (rs.length - 1) false ++ [true]

/-- The requests the chunker is made for. -/
structure AddressChunkReq.InDomain (req : AddressChunkReq) : Prop where
  pos : 0 < req.len.toNat
  bound : req.startAddr.toNat + req.len.toNat ≤ 2 ^ 64
  le_chunk : 8 ≤ req.chunk.toNat
  chunk_le : req.chunk.toNat ≤ 12

/-- The range does not cross a multiple of `2 ^ 32`. -/
def AddressChunkReq.Fits (req : AddressChunkReq) : Prop :=
  req.startAddr.toNat % 2 ^ 32 + req.len.toNat ≤ 2 ^ 32

theorem div_eq_div_add_sub_one {S x l : ℕ} (hl : 0 < l) (hle : l + x % S ≤ S) :
    x / S = (x + l - 1) / S := by
  have hx := Nat.div_add_mod x S
  refine (Nat.div_eq_of_lt_le ?_ ?_).symm
  · rw [Nat.mul_comm]
    omega
  · rw [Nat.succ_mul, Nat.mul_comm]
    omega

theorem div_eq_of_dvd {S x l : ℕ} (hdvd : S ∣ x) (hl : 0 < l) (hle : l ≤ S) :
    x / S = (x + l - 1) / S :=
  div_eq_div_add_sub_one hl (by rw [Nat.mod_eq_zero_of_dvd hdvd]; exact hle)

namespace PreCalcResult

theorem chunks_otherBeats {size : BitVec 32} (hsize : 0 < size.toNat) (n : ℕ) (addr : BitVec 64)
    (rem : BitVec 32) (hdvd : size.toNat ∣ addr.toNat) (hlt : n * size.toNat < rem.toNat)
    (hle : rem.toNat ≤ (n + 1) * size.toNat) (hbound : addr.toNat + rem.toNat ≤ 2 ^ 64) :
    Tiles addr.toNat ((otherBeats size (n + 1) addr rem).map (·.range)) (addr.toNat + rem.toNat) ∧
      (∀ r ∈ otherBeats size (n + 1) addr rem, size.toNat ∣ r.startAddr.toNat ∧
        r.Within size.toNat) ∧
      (otherBeats size (n + 1) addr rem).map (·.isFirst) = replicate (n + 1) false ∧
      (otherBeats size (n + 1) addr rem).map (·.isLast) = replicate n false ++ [true] := by
  induction n generalizing addr rem with
  | zero =>
    rw [Nat.zero_mul] at hlt
    rw [Nat.one_mul] at hle
    exact ⟨⟨rfl, hlt, rfl⟩, forall_mem_singleton.2 ⟨hdvd, div_eq_of_dvd hdvd hlt hle⟩, rfl, rfl⟩
  | succ n ih =>
    rw [Nat.succ_mul] at hlt hle
    have haddr : (addr + size.setWidth 64).toNat = addr.toNat + size.toNat := by
      rw [BitVec.toNat_add, BitVec.toNat_setWidth]
      omega
    have hrem : (rem - size).toNat = rem.toNat - size.toNat := by
      rw [BitVec.toNat_sub]
      omega
    have hdvd' : size.toNat ∣ (addr + size.setWidth 64).toNat :=
      haddr ▸ Nat.dvd_add hdvd (Nat.dvd_refl _)
    obtain ⟨htiles, hall, hfirst, hlast⟩ := ih (addr + size.setWidth 64) (rem - size)
      hdvd' (by omega) (by omega) (by omega)
    have hend : addr.toNat + rem.toNat = (addr + size.setWidth 64).toNat + (rem - size).toNat := by
      omega
    rw [otherBeats, if_neg (Nat.succ_ne_zero n)]
    refine ⟨⟨rfl, hsize, ?_⟩, forall_mem_cons.2 ⟨⟨hdvd, div_eq_of_dvd hdvd hsize le_rfl⟩, hall⟩, ?_,
      ?_⟩
    · rw [hend, ← haddr]
      exact htiles
    · rw [map_cons, hfirst]
      rfl
    · rw [map_cons, hlast]
      rfl

theorem le_sum_otherBeats (size : BitVec 32) (n : ℕ) (addr : BitVec 64) (rem : BitVec 32) :
    n * size.toNat ≤ ((otherBeats size (n + 1) addr rem).map (·.range.2)).sum := by
  induction n generalizing addr rem with
  | zero => simp
  | succ n ih =>
    rw [Nat.succ_mul, Nat.add_comm]
    exact Nat.add_le_add_left (ih _ _) _

end PreCalcResult

namespace AddressChunkReq

variable {req : AddressChunkReq} (h : req.InDomain)
include h

theorem chunkSize_preCalc : req.preCalc.chunkSize.toNat = 2 ^ req.chunk.toNat := by
  have hlt : 2 ^ req.chunk.toNat < 2 ^ 32 := Nat.pow_lt_pow_right (by decide) (by have := h.chunk_le; omega)
  change (1#32 <<< req.chunk.toNat).toNat = _
  rw [BitVec.toNat_shiftLeft, Nat.shiftLeft_eq, BitVec.toNat_ofNat, Nat.one_mul, Nat.mod_eq_of_lt hlt]

theorem nonValid_preCalc :
    req.preCalc.nonValidByteCntInFirstChunk.toNat = req.startAddr.toNat % 2 ^ req.chunk.toNat := by
  have hsize := chunkSize_preCalc h
  have hpos := Nat.two_pow_pos req.chunk.toNat
  have hmask : (req.preCalc.chunkSize - 1#32).toNat = 2 ^ req.chunk.toNat - 1 := by
    bv_omega
  change (req.startAddr.setWidth 32 &&& (req.preCalc.chunkSize - 1#32)).toNat = _
  rw [BitVec.toNat_and, hmask, Nat.and_two_pow_sub_one_eq_mod]
  exact Nat.mod_mod_of_dvd _ (Nat.pow_dvd_pow 2 (by have := h.chunk_le; omega))

theorem cnt_preCalc : req.preCalc.zeroBasedChunkCnt.toNat =
      (2 ^ 32 - req.startAddr.toNat % 2 ^ 32 / 2 ^ req.chunk.toNat +
        (req.startAddr.toNat % 2 ^ 32 + (req.len.toNat - 1)) % 2 ^ 32 / 2 ^ req.chunk.toNat) %
        2 ^ 32 := by
  have hlen : (req.len - 1#32).toNat = req.len.toNat - 1 := by
    have := h.pos
    bv_omega
  change ((req.startAddr.setWidth 32 + (req.len - 1#32)) >>> req.chunk.toNat -
    req.startAddr.setWidth 32 >>> req.chunk.toNat).toNat = _
  rw [BitVec.toNat_sub, BitVec.toNat_ushiftRight, BitVec.toNat_ushiftRight, BitVec.toNat_add, hlen,
    BitVec.toNat_setWidth, Nat.shiftRight_eq_div_pow, Nat.shiftRight_eq_div_pow]

theorem le_size : 256 ≤ 2 ^ req.chunk.toNat :=
  Nat.pow_le_pow_right (show 0 < 2 by decide) h.le_chunk

theorem size_le : 2 ^ req.chunk.toNat ≤ 4096 :=
  Nat.pow_le_pow_right (show 0 < 2 by decide) h.chunk_le

theorem exists_div_eq : ∃ k, ∀ l, (req.startAddr.toNat + l) / 2 ^ req.chunk.toNat =
    k + (req.startAddr.toNat % 2 ^ 32 + l) / 2 ^ req.chunk.toNat := by
  have hle := h.chunk_le
  obtain ⟨K, hK⟩ : 2 ^ req.chunk.toNat ∣ 2 ^ 32 := Nat.pow_dvd_pow 2 (by omega)
  refine ⟨K * (req.startAddr.toNat / 2 ^ 32), fun l => ?_⟩
  have hsplit : req.startAddr.toNat + l =
      2 ^ req.chunk.toNat * (K * (req.startAddr.toNat / 2 ^ 32)) +
      (req.startAddr.toNat % 2 ^ 32 + l) := by
    rw [← Nat.mul_assoc, ← hK]
    omega
  rw [hsplit, Nat.mul_add_div (Nat.two_pow_pos _)]

theorem cnt_of_fits (hfits : req.Fits) :
    req.preCalc.zeroBasedChunkCnt.toNat + req.startAddr.toNat / 2 ^ req.chunk.toNat =
      (req.startAddr.toNat + req.len.toNat - 1) / 2 ^ req.chunk.toNat := by
  have hpos := h.pos
  rw [Fits] at hfits
  obtain ⟨k, hk⟩ := exists_div_eq h
  have hend := hk (req.len.toNat - 1)
  have hstart := hk 0
  have hmono : (req.startAddr.toNat % 2 ^ 32) / 2 ^ req.chunk.toNat ≤
      (req.startAddr.toNat % 2 ^ 32 + (req.len.toNat - 1)) / 2 ^ req.chunk.toNat :=
    Nat.div_le_div_right (Nat.le_add_right _ _)
  have hlt : (req.startAddr.toNat % 2 ^ 32 + (req.len.toNat - 1)) / 2 ^ req.chunk.toNat < 2 ^ 32 :=
    lt_of_le_of_lt (Nat.div_le_self _ _) (by omega)
  rw [cnt_preCalc h, Nat.mod_eq_of_lt (show req.startAddr.toNat % 2 ^ 32 + (req.len.toNat - 1) <
    2 ^ 32 by omega)]
  rw [← Nat.add_sub_assoc hpos] at hend
  rw [Nat.add_zero] at hstart
  rw [hend]
  generalize req.startAddr.toNat % 2 ^ 32 / 2 ^ req.chunk.toNat = B at *
  omega

theorem cnt_of_not_fits (hfits : ¬ req.Fits) :
    2 ^ 32 - 2 ^ 24 ≤ req.preCalc.zeroBasedChunkCnt.toNat ∨
      req.preCalc.zeroBasedChunkCnt = 0 ∧ 2 ^ 12 < req.len.toNat := by
  have hlow : req.startAddr.toNat % 2 ^ 32 < 2 ^ 32 := Nat.mod_lt _ (by decide)
  rw [Fits] at hfits
  -- the end of the range, on 32 bits, lies before its start
  have hwrap : (req.startAddr.toNat % 2 ^ 32 + (req.len.toNat - 1)) % 2 ^ 32 =
      req.startAddr.toNat % 2 ^ 32 + req.len.toNat - 1 - 2 ^ 32 := by omega
  have hcnt := cnt_preCalc h
  rw [hwrap] at hcnt
  have hsize := le_size h
  have hsize' := size_le h
  have hmono : (req.startAddr.toNat % 2 ^ 32 + req.len.toNat - 1 - 2 ^ 32) / 2 ^ req.chunk.toNat ≤
      req.startAddr.toNat % 2 ^ 32 / 2 ^ req.chunk.toNat := Nat.div_le_div_right (by omega)
  have hB : req.startAddr.toNat % 2 ^ 32 / 2 ^ req.chunk.toNat < 2 ^ 24 :=
    Nat.div_lt_of_lt_mul (lt_of_lt_of_le hlow (Nat.mul_le_mul_right (2 ^ 24) hsize))
  rcases hmono.lt_or_eq with hlt | heq
  · generalize (req.startAddr.toNat % 2 ^ 32 + req.len.toNat - 1 - 2 ^ 32) /
      2 ^ req.chunk.toNat = A at *
    omega
  · right
    refine ⟨BitVec.eq_of_toNat_eq ?_, ?_⟩
    · change _ = 0
      omega
    · -- both ends are in one chunk, so the range is almost as long as `2 ^ 32`
      have hstart := Nat.lt_div_mul_add (a := req.startAddr.toNat % 2 ^ 32)
        (Nat.two_pow_pos req.chunk.toNat)
      have hend := Nat.div_mul_le_self (req.startAddr.toNat % 2 ^ 32 + req.len.toNat - 1 - 2 ^ 32)
        (2 ^ req.chunk.toNat)
      rw [heq] at hend
      omega

theorem outputLen_preCalc : req.preCalc.outputLen.toNat =
    2 ^ req.chunk.toNat - req.startAddr.toNat % 2 ^ req.chunk.toNat := by
  have hsize := size_le h
  rw [PreCalcResult.outputLen, BitVec.toNat_sub, chunkSize_preCalc h, nonValid_preCalc h]
  omega

theorem Fits.chunks (hfits : req.Fits) : Chunks req req.preCalc.responses := by
  have hpos := h.pos
  have hbound := h.bound
  have hsize := chunkSize_preCalc h
  have hcnt := cnt_of_fits h hfits
  have hout := outputLen_preCalc h
  have hS := Nat.two_pow_pos req.chunk.toNat
  have hmod := Nat.mod_lt req.startAddr.toNat hS
  have hdiv := Nat.div_add_mod req.startAddr.toNat (2 ^ req.chunk.toNat)
  generalize hn : req.preCalc.zeroBasedChunkCnt.toNat = n at hcnt
  cases n with
  | zero =>
    have hzero : req.preCalc.zeroBasedChunkCnt = 0 := BitVec.eq_of_toNat_eq hn
    have hresp : req.preCalc.responses = [⟨req.startAddr, req.len, true, true⟩] := by
      rw [PreCalcResult.responses, hn, PreCalcResult.firstBeat, if_pos hzero, decide_eq_true hzero]
      rfl
    rw [hresp]
    rw [Nat.zero_add] at hcnt
    exact ⟨cons_ne_nil _ _, ⟨rfl, hpos, rfl⟩, fun r hr => absurd hr not_mem_nil,
      forall_mem_singleton.2 hcnt, rfl, rfl⟩
  | succ n =>
    have hne : req.preCalc.zeroBasedChunkCnt ≠ 0 := by
      intro hzero
      rw [hzero] at hn
      cases hn
    -- the range ends in the chunk `n + 1` behind the one it starts in
    have hlo := Nat.div_mul_le_self (req.startAddr.toNat + req.len.toNat - 1) (2 ^ req.chunk.toNat)
    have hhi := Nat.lt_div_mul_add (a := req.startAddr.toNat + req.len.toNat - 1) hS
    rw [← hcnt, Nat.add_mul, Nat.succ_mul] at hlo hhi
    rw [Nat.mul_comm] at hdiv
    have haddr : (req.startAddr + req.preCalc.outputLen.setWidth 64).toNat =
        (req.startAddr.toNat / 2 ^ req.chunk.toNat + 1) * 2 ^ req.chunk.toNat := by
      rw [BitVec.toNat_add, BitVec.toNat_setWidth, Nat.succ_mul]
      omega
    have hrem : (req.len - req.preCalc.outputLen).toNat =
        req.len.toNat - (2 ^ req.chunk.toNat - req.startAddr.toNat % 2 ^ req.chunk.toNat) := by
      rw [BitVec.toNat_sub]
      omega
    have hdvd : req.preCalc.chunkSize.toNat ∣
      (req.startAddr + req.preCalc.outputLen.setWidth 64).toNat := by
      rw [hsize, haddr]
      exact Nat.dvd_mul_left _ _
    rw [Nat.succ_mul] at haddr
    have hlo' : n * req.preCalc.chunkSize.toNat < (req.len - req.preCalc.outputLen).toNat := by
      rw [hsize]
      omega
    have hhi' : (req.len - req.preCalc.outputLen).toNat ≤ (n + 1) *
      req.preCalc.chunkSize.toNat := by
      rw [hsize, Nat.succ_mul]
      omega
    have hnext : req.startAddr.toNat + req.preCalc.outputLen.toNat =
        (req.startAddr + req.preCalc.outputLen.setWidth 64).toNat := by
      omega
    have hend : req.startAddr.toNat + req.len.toNat =
        (req.startAddr + req.preCalc.outputLen.setWidth 64).toNat +
        (req.len - req.preCalc.outputLen).toNat := by
      omega
    obtain ⟨htiles, hall, hfirst, hlast⟩ :=
      PreCalcResult.chunks_otherBeats (hsize ▸ hS) n _ _ hdvd hlo' hhi' (hend ▸ hbound)
    have hlength := congrArg length hfirst
    rw [length_map, length_replicate] at hlength
    have hresp : req.preCalc.responses = ⟨req.startAddr, req.preCalc.outputLen, true, false⟩ ::
        PreCalcResult.otherBeats req.preCalc.chunkSize (n + 1) (req.startAddr +
          req.preCalc.outputLen.setWidth 64) (req.len - req.preCalc.outputLen) := by
      rw [PreCalcResult.responses, hn, PreCalcResult.firstBeat, if_neg hne, decide_eq_false hne]
      rfl
    rw [hresp]
    have hout_pos : 0 < req.preCalc.outputLen.toNat := by
      omega
    refine ⟨cons_ne_nil _ _, ⟨rfl, hout_pos, ?_⟩, ?_, ?_, ?_, ?_⟩
    · rw [hnext, hend]
      exact htiles
    · exact fun r hr => hsize ▸ (hall r hr).1
    · refine forall_mem_cons.2 ⟨?_, fun r hr => hsize ▸ (hall r hr).2⟩
      refine div_eq_div_add_sub_one hout_pos ?_
      rw [hout]
      exact (Nat.sub_add_cancel hmod.le).le
    · rw [map_cons, hfirst, length_cons, Nat.add_sub_cancel, hlength]
    · rw [map_cons, hlast, length_cons, hlength]
      rfl

/-- **The responses cut the range of a request exactly when it does not cross a multiple of
`2 ^ 32`.** -/
theorem chunks_responses : Chunks req req.preCalc.responses ↔ req.Fits := by
  refine ⟨fun hc => ?_, fun hfits => hfits.chunks h⟩
  by_contra hfits
  have hsum := hc.tiles.sum
  obtain hbig | ⟨hzero, hlen⟩ := cnt_of_not_fits h hfits
  · -- all chunks but two are whole, and there are too many of them
    obtain ⟨n, hn⟩ : ∃ n, req.preCalc.zeroBasedChunkCnt.toNat = n + 1 :=
      ⟨req.preCalc.zeroBasedChunkCnt.toNat - 1, by omega⟩
    have hle := PreCalcResult.le_sum_otherBeats req.preCalc.chunkSize n
      (req.startAddr + req.preCalc.outputLen.setWidth 64) (req.len - req.preCalc.outputLen)
    have hmul : n * 256 ≤ n * req.preCalc.chunkSize.toNat :=
      Nat.mul_le_mul_left n (chunkSize_preCalc h ▸ le_size h)
    rw [PreCalcResult.responses, hn, List.map_cons, List.map_cons, List.sum_cons,
      List.map_map] at hsum
    change _ ≤ (map (Prod.snd ∘ fun r => r.range) (PreCalcResult.otherBeats _ _ _ _)).sum at hle
    have hstart : req.preCalc.startAddr = req.startAddr := rfl
    have hlen' : req.preCalc.len = req.len := rfl
    rw [hstart, hlen'] at hsum
    omega
  · -- the only chunk is too long
    have hwithin := hc.within req.preCalc.firstBeat mem_cons_self
    have hlen' : req.preCalc.firstBeat.len = req.len := if_pos hzero
    have hstart : req.preCalc.firstBeat.startAddr = req.startAddr := rfl
    rw [AddressChunkResp.Within, hlen', hstart] at hwithin
    have hlo := Nat.div_mul_le_self req.startAddr.toNat (2 ^ req.chunk.toNat)
    have hhi := Nat.lt_div_mul_add (a := req.startAddr.toNat + req.len.toNat - 1)
      (Nat.two_pow_pos req.chunk.toNat)
    rw [← hwithin] at hhi
    have hsize := size_le h
    omega

end AddressChunkReq

namespace AddressChunker

/-- The chunker answers requests: whatever the order of the rules it comes to an end, and then the
responses cut the range of every request. -/
def Answers (s₀ : AddressChunker) (reqs : List AddressChunkReq) : Prop :=
  (∀ ls s, Run step Possible s₀ ls s → requests ls = reqs →
      ∃ n, ∀ ls' s', Run step Possible s₀ (ls ++ ls') s' → (∀ l ∈ ls', l.Own) → ls'.length ≤ n) ∧
    ∀ ls s, Run step Possible s₀ ls s → requests ls = reqs →
    Quiescent step Possible ChunkerLabel.Own s →
      List.Forall₂ Chunks reqs s.answered

/-- **The chunker answers requests exactly when none of their ranges crosses a multiple of
`2 ^ 32`.** -/
theorem answers_iff (a b c : BitVec 32) (d : BitVec 64) {reqs : List AddressChunkReq}
    (hdom : ∀ req ∈ reqs, req.InDomain) : Answers (init a b c d) reqs ↔ ∀ req ∈ reqs, req.Fits := by
  have hiff : List.Forall₂ Chunks reqs (reqs.map (·.preCalc.responses)) ↔
    ∀ req ∈ reqs, req.Fits := by
    rw [forall₂_map_right_iff, forall₂_same]
    exact forall₂_congr fun req hreq => AddressChunkReq.chunks_responses (hdom req hreq)
  constructor
  · rintro ⟨-, hans⟩
    obtain ⟨ls, s, hrun, hreqs, hq⟩ := exists_quiescent (a := a) (b := b) (c := c) (d := d) reqs
    have hchunks := hans ls s hrun hreqs hq
    rw [(answered_of_quiescent hrun hq).2, hreqs] at hchunks
    exact hiff.1 hchunks
  · intro hfits
    refine ⟨fun ls s hrun _ => ⟨s.measure, fun ls' s' hrun' hown => ?_⟩,
      fun ls s hrun hreqs hq => ?_⟩
    · exact hrun.length_le decreases hrun' hown
    · rw [(answered_of_quiescent hrun hq).2, hreqs]
      exact hiff.2 hfits

/-- Two requests, one of them up to a multiple of `2 ^ 32`, are answered. -/
theorem answers_samples :
    Answers (init 0 0 0 0) [⟨0xFFFFFF80, 0x80, 8⟩, ⟨0x100000010, 0x1000, 9⟩] :=
  (answers_iff 0 0 0 0 (by
    simp only [forall_mem_cons, not_mem_nil, IsEmpty.forall_iff, implies_true, and_true]
    exact ⟨⟨by decide, by decide, by decide, by decide⟩,
      ⟨by decide, by decide, by decide, by decide⟩⟩)).2 (by
    simp only [forall_mem_cons]
    exact ⟨by unfold AddressChunkReq.Fits; decide, by unfold AddressChunkReq.Fits; decide⟩)

/-- A request of 257 bytes across `2 ^ 32`. -/
def crossing : AddressChunkReq := ⟨0xFFFFFF00, 257, 8⟩

/-- **A range that crosses `2 ^ 32` is cut into more than four thousand million chunks** where two
are right. -/
theorem not_answers_crossing :
    crossing.InDomain ∧ crossing.preCalc.zeroBasedChunkCnt = 0xFF000001 ∧
      ¬ Answers (init 0 0 0 0) [crossing] := by
  have hdom : crossing.InDomain := ⟨by decide, by decide, by decide, by decide⟩
  refine ⟨hdom, by decide, fun ⟨_, hans⟩ => ?_⟩
  obtain ⟨ls, s, hrun, hreqs, hq⟩ := exists_quiescent (a := 0) (b := 0) (c := 0) (d := 0) [crossing]
  have hchunks := hans ls s hrun hreqs hq
  rw [(answered_of_quiescent hrun hq).2, hreqs] at hchunks
  have hfits : crossing.Fits :=
    (AddressChunkReq.chunks_responses hdom).1 (forall₂_cons.1 hchunks).1
  exact absurd hfits (by unfold AddressChunkReq.Fits; decide)

end AddressChunker

end OpenRdma.Rtl
