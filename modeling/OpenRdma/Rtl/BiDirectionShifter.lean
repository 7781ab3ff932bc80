import OpenRdma.Foundations.Run
import OpenRdma.Rtl.ShifterRuns

/-!
# The stream shifter for both directions

Streams and their offsets arrive at the shifter, each at its own time. `decideDirection` feeds one
of the two shifters and puts the direction in a queue, and `doFinalOutput` takes the results in the
order of that queue.

The invariant splits what both shifters are still to give out into the frames of `pending`, one for
each entry of the queue of directions. Then what was given out, with the frames that are pending, is
what is to be given out for the streams that began.
-/

namespace OpenRdma.Rtl

open List Option BiDirectionStreamShifter ShifterSpec.GivesOut UniDirStreamShifter

/-! ## Requests -/

/-- A stream and its offset: the bytes move toward the lower ones if it is positive. -/
structure ShiftReq where
  start : ℕ
  bytes : List (BitVec 8)
  offset : BitVec 6
  beats : List DataStream
  isStream : IsStream start bytes beats
  nonneg : 0 ≤ start - offset.toInt
  lt : start - offset.toInt < 32

namespace ShiftReq

variable (req : ShiftReq)

/-- Where the bytes are to start. -/
def target : ℕ := (req.start - req.offset.toInt).toNat

/-- The shifter that the stream goes to. -/
def isShiftRight : Bool := !req.offset.msb

/-- How far that shifter moves it. -/
def absOffset : BitVec 5 := (getAbsValue req.offset).setWidth 5

theorem target_of_right (h : req.isShiftRight = true) :
    req.absOffset.toNat ≤ req.start ∧ req.target = req.start - req.absOffset.toNat := by
  have hmsb : req.offset.msb = false := by simpa [isShiftRight] using h
  have hlt := BitVec.toNat_lt_of_msb_false hmsb
  have hnonneg := req.nonneg
  rw [BitVec.toInt_eq_toNat_of_msb hmsb] at hnonneg
  have habs : req.absOffset.toNat = req.offset.toNat := by
    rw [absOffset, getAbsValue, hmsb, if_neg Bool.false_ne_true, BitVec.toNat_setWidth]
    omega
  rw [target, BitVec.toInt_eq_toNat_of_msb hmsb]
  omega

theorem target_of_left (h : req.isShiftRight = false) :
    req.target = req.start + req.absOffset.toNat ∧ req.target < 32 := by
  have hmsb : req.offset.msb = true := by simpa [isShiftRight] using h
  have hge := BitVec.toNat_ge_of_msb_true hmsb
  have hint := BitVec.toInt_eq_toNat_cond req.offset
  have hlt := req.lt
  rw [target]
  have habs : req.absOffset.toNat = 64 - req.offset.toNat := by
    have hone : (1 : BitVec 6).toNat = 1 := rfl
    rw [absOffset, getAbsValue, hmsb, if_pos rfl, BitVec.toNat_setWidth, BitVec.toNat_add,
      BitVec.toNat_not]
    omega
  omega

/-- What is given out for the stream. -/
def shifted : List DataStream :=
  if req.isShiftRight then (RightShifter.spec.made req.absOffset req.beats).map
    RightShifter.spec.finish
  else (LeftShifter.spec.made req.absOffset req.beats).map LeftShifter.spec.finish

theorem isStream_shifted : IsStream req.target req.bytes req.shifted := by
  rw [shifted]
  cases hdir : req.isShiftRight with
  | true =>
    obtain ⟨hle, htarget⟩ := req.target_of_right hdir
    rw [htarget]
    exact RightShifter.isStream_streamOf req.isStream hle
  | false =>
    obtain ⟨htarget, hlt⟩ := req.target_of_left hdir
    rw [htarget] at hlt ⊢
    exact LeftShifter.isStream_streamOf req.isStream hlt _

theorem accepts : if req.isShiftRight then RightShifter.spec.Accepts req.absOffset req.beats
    else LeftShifter.spec.Accepts req.absOffset req.beats := by
  cases hdir : req.isShiftRight with
  | true => exact req.isStream.lastOnly
  | false =>
    obtain ⟨htarget, hlt⟩ := req.target_of_left hdir
    rw [htarget] at hlt
    exact ⟨req.isStream.lastOnly, fun _ hds => LeftShifter.regular_of_isStream req.isStream hlt hds⟩

end ShiftReq

/-! ## Both shifters -/

namespace BiDirectionStreamShifter

variable {s s' : BiDirectionStreamShifter} {dir dir' : Bool} {up rest out : List DataStream}
  {offset : BitVec 5} {ds : DataStream}
variable {rule : ShifterRule}

theorem decideDirection_eq_some (hs : s.decideDirection = some s') :
    ∃ offset offsets ds beats s₁, s.offsetPipeInQ = offset :: offsets ∧
    s.streamPipeInQ = ds :: beats ∧
      s.enter (!offset.msb) ((getAbsValue offset).setWidth 5) ds = some s₁ ∧
      s' = { s₁ with
        streamPipeInQ := beats
        offsetPipeInQ := if ds.isLast then offsets else offset :: offsets
        keepOrderQ := if ds.isFirst then s.keepOrderQ ++ [!offset.msb] else s.keepOrderQ } := by
  rw [decideDirection] at hs
  split at hs
  · next offset offsets ds beats hoffset hstream =>
    obtain ⟨-, hs⟩ := ite_none_right_eq_some.1 hs
    obtain ⟨s₁, henter, rfl⟩ := map_eq_some_iff.1 hs
    exact ⟨offset, offsets, ds, beats, s₁, hoffset, hstream, henter, rfl⟩
  · cases hs

theorem doFinalOutput_eq_some (hs : s.doFinalOutput = some s') :
    ∃ dir order ds s₁, s.keepOrderQ = dir :: order ∧ s.popResult dir = some (ds, s₁) ∧
      s' = { s₁ with
        streamPipeOutQ := s.streamPipeOutQ ++ [ds]
        keepOrderQ := if ds.isLast then order else dir :: order } := by
  rw [doFinalOutput] at hs
  split at hs
  · cases hs
  · next dir order horder =>
    obtain ⟨-, hs⟩ := ite_none_right_eq_some.1 hs
    obtain ⟨⟨ds, s₁⟩, hpop, rfl⟩ := map_eq_some_iff.1 hs
    exact ⟨dir, order, ds, s₁, horder, hpop, rfl⟩

/-- What one of the shifters is still to give out. -/
def GivesOut (s : BiDirectionStreamShifter) (dir : Bool) (up out : List DataStream) : Prop :=
  if dir then RightShifter.spec.GivesOut s.rightShifter up out
    else LeftShifter.spec.GivesOut s.leftShifter up out

theorem enter_eq_some (hs : s.enter dir offset ds = some s') :
    (if dir then ∃ shifter, s.rightShifter.enter offset ds = some shifter ∧
      s' = { s with rightShifter := shifter }
    else ∃ shifter, s.leftShifter.enter offset ds = some shifter ∧
      s' = { s with leftShifter := shifter }) := by
  cases dir with
  | true =>
    obtain ⟨shifter, henter, rfl⟩ := map_eq_some_iff.1 hs
    exact ⟨shifter, henter, rfl⟩
  | false =>
    obtain ⟨shifter, henter, rfl⟩ := map_eq_some_iff.1 hs
    exact ⟨shifter, henter, rfl⟩

theorem enter_streamPipeOutQ (hs : s.enter dir offset ds = some s') :
    s'.streamPipeOutQ = s.streamPipeOutQ := by
  cases dir with
  | true =>
    obtain ⟨shifter, -, rfl⟩ := enter_eq_some hs
    rfl
  | false =>
    obtain ⟨shifter, -, rfl⟩ := enter_eq_some hs
    rfl

theorem fire_queues (hs : s.fire dir rule = some s') :
    s' = { s with rightShifter := s'.rightShifter, leftShifter := s'.leftShifter } := by
  cases dir with
  | true =>
    obtain ⟨shifter, -, rfl⟩ := map_eq_some_iff.1 hs
    rfl
  | false =>
    obtain ⟨shifter, -, rfl⟩ := map_eq_some_iff.1 hs
    rfl

theorem popResult_inputs (hs : s.popResult dir = some (ds, s')) :
    s'.offsetPipeInQ = s.offsetPipeInQ ∧ s'.streamPipeInQ = s.streamPipeInQ := by
  cases dir with
  | true =>
    obtain ⟨⟨_, shifter⟩, -, heq⟩ := map_eq_some_iff.1 hs
    cases heq
    exact ⟨rfl, rfl⟩
  | false =>
    obtain ⟨⟨_, shifter⟩, -, heq⟩ := map_eq_some_iff.1 hs
    cases heq
    exact ⟨rfl, rfl⟩

theorem GivesOut.begins {req : ShiftReq} (h : s.GivesOut req.isShiftRight [] out)
    (hs : s.enter req.isShiftRight req.absOffset ds = some s') (hfirst : ds.isFirst = true)
    (hbeats : req.beats = ds :: rest) : s'.GivesOut req.isShiftRight rest (out ++ req.shifted) := by
  have haccepts := req.accepts
  rw [ShiftReq.shifted, hbeats]
  rw [hbeats] at haccepts
  cases hdir : req.isShiftRight with
  | true =>
    rw [hdir] at h hs haccepts
    obtain ⟨shifter, henter, rfl⟩ := enter_eq_some hs
    exact begins h henter hfirst haccepts
  | false =>
    rw [hdir] at h hs haccepts
    obtain ⟨shifter, henter, rfl⟩ := enter_eq_some hs
    exact begins h henter hfirst haccepts

theorem GivesOut.continues (h : s.GivesOut dir (ds :: rest) out)
    (hs : s.enter dir offset ds = some s') (hfirst : ds.isFirst = false) :
    s'.GivesOut dir rest out := by
  cases dir with
  | true =>
    obtain ⟨shifter, henter, rfl⟩ := enter_eq_some hs
    exact continues h henter hfirst
  | false =>
    obtain ⟨shifter, henter, rfl⟩ := enter_eq_some hs
    exact continues h henter hfirst

theorem GivesOut.enter_other (h : s.GivesOut dir' up out) (hs : s.enter dir offset ds = some s')
    (hne : dir' ≠ dir) : s'.GivesOut dir' up out := by
  cases dir with
  | true =>
    obtain ⟨shifter, -, rfl⟩ := enter_eq_some hs
    obtain rfl : dir' = false := by simpa using hne
    exact h
  | false =>
    obtain ⟨shifter, -, rfl⟩ := enter_eq_some hs
    obtain rfl : dir' = true := by simpa using hne
    exact h

theorem GivesOut.popResult (h : s.GivesOut dir up out) (hs : s.popResult dir = some (ds, s')) :
    ∃ out', out = ds :: out' ∧ s'.GivesOut dir up out' := by
  cases dir with
  | true =>
    obtain ⟨⟨_, shifter⟩, hpop, heq⟩ := map_eq_some_iff.1 hs
    cases heq
    exact ShifterSpec.GivesOut.popResult h hpop
  | false =>
    obtain ⟨⟨_, shifter⟩, hpop, heq⟩ := map_eq_some_iff.1 hs
    cases heq
    exact ShifterSpec.GivesOut.popResult h hpop

theorem GivesOut.popResult_other (h : s.GivesOut dir' up out) (hs : s.popResult dir = some (ds, s'))
    (hne : dir' ≠ dir) : s'.GivesOut dir' up out := by
  cases dir with
  | true =>
    obtain ⟨⟨_, shifter⟩, -, heq⟩ := map_eq_some_iff.1 hs
    cases heq
    obtain rfl : dir' = false := by simpa using hne
    exact h
  | false =>
    obtain ⟨⟨_, shifter⟩, -, heq⟩ := map_eq_some_iff.1 hs
    cases heq
    obtain rfl : dir' = true := by simpa using hne
    exact h

theorem GivesOut.fire (h : s.GivesOut dir' up out) (hs : s.fire dir rule = some s') :
    s'.GivesOut dir' up out := by
  cases dir with
  | true =>
    obtain ⟨shifter, hfire, rfl⟩ := map_eq_some_iff.1 hs
    cases dir' with
    | true => exact ShifterSpec.GivesOut.fire h hfire
    | false => exact h
  | false =>
    obtain ⟨shifter, hfire, rfl⟩ := map_eq_some_iff.1 hs
    cases dir' with
    | true => exact h
    | false => exact ShifterSpec.GivesOut.fire h hfire

def work (s : BiDirectionStreamShifter) : ℕ :=
  s.rightShifter.work RightShifter.weight + s.leftShifter.work LeftShifter.weight

theorem work_enter (hs : s.enter dir offset ds = some s') : s'.work = s.work + 10 := by
  cases dir with
  | true =>
    obtain ⟨shifter, henter, rfl⟩ := enter_eq_some hs
    simp only [work, work_enter henter]
    omega
  | false =>
    obtain ⟨shifter, henter, rfl⟩ := enter_eq_some hs
    simp only [work, work_enter henter]
    omega

theorem work_popResult (hs : s.popResult dir = some (ds, s')) : s.work = s'.work + 2 := by
  cases dir with
  | true =>
    obtain ⟨⟨_, shifter⟩, hpop, heq⟩ := map_eq_some_iff.1 hs
    cases heq
    simp only [work, work_popResult hpop]
    omega
  | false =>
    obtain ⟨⟨_, shifter⟩, hpop, heq⟩ := map_eq_some_iff.1 hs
    cases heq
    simp only [work, work_popResult hpop]
    omega

theorem work_fire (hs : s.fire dir rule = some s') : s'.work < s.work := by
  cases dir with
  | true =>
    obtain ⟨shifter, hfire, rfl⟩ := map_eq_some_iff.1 hs
    exact Nat.add_lt_add_right (RightShifter.spec.work_fire hfire) _
  | false =>
    obtain ⟨shifter, hfire, rfl⟩ := map_eq_some_iff.1 hs
    exact Nat.add_lt_add_left (LeftShifter.spec.work_fire hfire) _

theorem GivesOut.popResult_eq_none (h : s.GivesOut dir up []) : s.popResult dir = none := by
  cases hpop : s.popResult dir with
  | none => rfl
  | some result =>
    obtain ⟨out', heq, -⟩ := h.popResult hpop
    cases heq

theorem GivesOut.atRest (h : s.GivesOut dir up out) (hfire : ∀ rule, s.fire dir rule = none)
    (hpop : s.popResult dir = none) (offset : BitVec 5) :
    (∀ ds : DataStream, ds.isFirst = false → s.enter dir offset ds ≠ none) ∧
      (up = [] → out = [] ∧ ∀ ds, s.enter dir offset ds ≠ none) := by
  simp only [BiDirectionStreamShifter.fire, BiDirectionStreamShifter.popResult,
    enter, ne_eq] at hfire hpop ⊢
  cases dir with
  | true =>
    simp only [if_true, map_eq_none_iff] at hfire hpop ⊢
    exact atRest h hfire hpop offset
  | false =>
    simp only [Bool.false_eq_true, if_false, map_eq_none_iff] at hfire hpop ⊢
    exact atRest h hfire hpop offset

theorem decideDirection_ne_none {off : BitVec 6} {offsets : List (BitVec 6)}
    {beats : List DataStream} (hoffset : s.offsetPipeInQ = off :: offsets)
    (hstream : s.streamPipeInQ = ds :: beats) (hroom : ds.isFirst = true → s.keepOrderQ.length < 4)
    (henter : s.enter (!off.msb) ((getAbsValue off).setWidth 5) ds ≠ none) :
    s.decideDirection ≠ none := by
  rw [decideDirection, hoffset, hstream]
  dsimp only
  rw [if_pos hroom]
  exact fun hnone => henter (map_eq_none_iff.1 hnone)

end BiDirectionStreamShifter

/-! ## The shifter and its environment -/

/-- The shifter, what is still to arrive, and what was taken from it. -/
structure ShifterSystem where
  shifter : BiDirectionStreamShifter
  offsets : List (BitVec 6)
  beats : List DataStream
  out : List DataStream

/-- An offset or a beat arrives, a rule fires, or a beat is taken. -/
inductive ShifterLabel
  | arriveOffset
  | arriveBeat
  | decideDirection
  | fire (isShiftRight : Bool) (rule : ShifterRule)
  | doFinalOutput
  | takeOut
  deriving DecidableEq

namespace ShifterSystem

/-- A beat that arrives, or a rule of the shifter. -/
def step (s : ShifterSystem) : ShifterLabel → Option ShifterSystem
  | .arriveOffset =>
    match s.offsets with
    | [] => none
    | offset :: offsets => some { s with
        offsets := offsets
        shifter := { s.shifter with offsetPipeInQ := s.shifter.offsetPipeInQ ++ [offset] } }
  | .arriveBeat =>
    match s.beats with
    | [] => none
    | ds :: beats => some { s with
        beats := beats
        shifter := { s.shifter with streamPipeInQ := s.shifter.streamPipeInQ ++ [ds] } }
  | .decideDirection => s.shifter.decideDirection.map fun shifter => { s with shifter := shifter }
  | .fire isShiftRight rule => (s.shifter.fire isShiftRight rule).map fun shifter =>
    { s with shifter := shifter }
  | .doFinalOutput => s.shifter.doFinalOutput.map fun shifter => { s with shifter := shifter }
  | .takeOut =>
    match s.shifter.streamPipeOutQ with
    | [] => none
    | ds :: beats => some { s with shifter := { s.shifter with streamPipeOutQ := beats }, out := s.out ++ [ds] }

/-- All streams are still to arrive. The registers have no initial value. -/
def init (reqs : List ShiftReq) (rightReg leftReg : DataStream × BitVec 5) : ShifterSystem where
  shifter := ⟨[], [], [], [], ⟨⟨[], [], .idle, rightReg⟩, [], [], []⟩,
    ⟨⟨[], [], .outputBeat, leftReg⟩, [], [], []⟩⟩
  offsets := reqs.map (·.offset)
  beats := reqs.flatMap (·.beats)
  out := []

/-- What one of the shifters is to give out of the frames. -/
def owed (dir : Bool) (pending : List (Bool × List DataStream)) : List DataStream :=
  (pending.filter (·.1 == dir)).flatMap (·.2)

section Owed

variable {dir dir' : Bool} {frame : List DataStream} {pending : List (Bool × List DataStream)}

theorem owed_cons_self : owed dir ((dir, frame) :: pending) = frame ++ owed dir pending := by
  simp [owed]

theorem owed_cons_of_ne (h : dir' ≠ dir) : owed dir' ((dir, frame) :: pending) =
    owed dir' pending := by
  simp [owed, h.symm]

theorem owed_concat_self : owed dir (pending ++ [(dir, frame)]) = owed dir pending ++ frame := by
  simp [owed]

theorem owed_concat_of_ne (h : dir' ≠ dir) : owed dir' (pending ++ [(dir, frame)]) =
    owed dir' pending := by
  simp [owed, h.symm]

end Owed

section Next

variable {req : ShiftReq} {ds : DataStream} {rest : List DataStream}

/-- The stream that is still entering after a beat of a stream. -/
def next (req : ShiftReq) (ds : DataStream) : Option ShiftReq :=
  if ds.isLast then none else some req

theorem next_of_lastOnly (req : ShiftReq) (h : LastOnly (ds :: rest)) :
    ds.isLast = true ∧ rest = [] ∧ next req ds = none ∨ ds.isLast = false ∧ LastOnly rest ∧
    next req ds = some req := by
  rcases lastOnly_cons.1 h with ⟨hnil, hlast⟩ | ⟨hrest, hlast⟩
  · exact .inl ⟨hlast, hnil, if_pos hlast⟩
  · exact .inr ⟨hlast, hrest, if_neg (by simp [hlast])⟩

/-- The beats of a stream that entered in part which one of the shifters is still to get. -/
def upOf (cur : Option ShiftReq) (rem : List DataStream) (dir : Bool) : List DataStream :=
  if cur.map (·.isShiftRight) = some dir then rem else []

theorem upOf_next_self (h : LastOnly (ds :: rest)) :
    upOf (next req ds) rest req.isShiftRight = rest := by
  rcases next_of_lastOnly req h with ⟨-, rfl, -⟩ | ⟨-, -, hnext⟩
  · exact ite_self []
  · rw [hnext]
    exact if_pos rfl

theorem upOf_next_of_ne {dir : Bool} (h : dir ≠ req.isShiftRight) :
    upOf (next req ds) rest dir = [] := by
  refine if_neg fun heq => ?_
  rw [next] at heq
  split at heq
  · cases heq
  · exact h (some.inj heq).symm

/-- Of the stream `cur` that entered in part the beats `rem` are left. -/
structure Entering (cur : Option ShiftReq) (rem : List DataStream) : Prop where
  done : cur = none → rem = []
  lastOnly : cur ≠ none → LastOnly rem
  isFirst : ∀ ds ∈ rem, ds.isFirst = false

theorem entering_next (h : LastOnly (ds :: rest)) (hfirst : ∀ d ∈ rest, d.isFirst = false) :
    Entering (next req ds) rest := by
  rcases next_of_lastOnly req h with ⟨-, hnil, hnext⟩ | ⟨-, hrest, hnext⟩
  · exact ⟨fun _ => hnil, fun hsome => absurd hnext hsome, hfirst⟩
  · exact ⟨fun hnone => absurd (hnext.symm.trans hnone) (by simp), fun _ => hrest, hfirst⟩

theorem offsets_next {offsets : List (BitVec 6)} {left : List (BitVec 6)} {later : List ShiftReq}
    (h : offsets ++ left = later.map (·.offset)) :
    (if ds.isLast then offsets else req.offset :: offsets) ++ left =
      ((next req ds).toList ++ later).map (·.offset) := by
  rw [next]
  cases ds.isLast with
  | true => exact h
  | false => exact congrArg (req.offset :: ·) h

end Next

/-- The streams `begun` began to enter the shifters and `later` did not. Of the stream `cur` the
beats `rem` are left. -/
structure InvAt (reqs : List ShiftReq) (s : ShifterSystem) (begun later : List ShiftReq)
    (cur : Option ShiftReq) (rem : List DataStream) (pending : List (Bool × List DataStream)) :
    Prop where
  split : reqs = begun ++ later
  offsets : s.shifter.offsetPipeInQ ++ s.offsets = (cur.toList ++ later).map (·.offset)
  beats : s.shifter.streamPipeInQ ++ s.beats = rem ++ later.flatMap (·.beats)
  entering : Entering cur rem
  order : s.shifter.keepOrderQ = pending.map (·.1)
  frames : ∀ p ∈ pending, LastOnly p.2
  sides : ∀ dir, s.shifter.GivesOut dir (upOf cur rem dir) (owed dir pending)
  out : s.out ++ (s.shifter.streamPipeOutQ ++ pending.flatMap (·.2)) = begun.flatMap (·.shifted)

/-- What was given out and what is left are the shifted streams. -/
def Inv (reqs : List ShiftReq) (s : ShifterSystem) : Prop :=
  ∃ begun later cur rem pending, InvAt reqs s begun later cur rem pending

theorem inv_init (reqs : List ShiftReq) (rightReg leftReg : DataStream × BitVec 5) :
    Inv reqs (init reqs rightReg leftReg) := by
  refine ⟨[], reqs, none, [], [], rfl, rfl, rfl, ⟨fun _ => rfl, fun h => absurd rfl h, by simp⟩,
    rfl, by simp, ?_, rfl⟩
  intro dir
  cases dir with
  | true => exact ⟨[], .idle rfl rfl rfl, rfl⟩
  | false => exact ⟨[], .idle rfl rfl rfl, rfl⟩

def work (s : ShifterSystem) : ℕ :=
  12 * s.beats.length + 11 * s.shifter.streamPipeInQ.length + 2 * s.offsets.length +
    s.shifter.offsetPipeInQ.length + s.shifter.work + s.shifter.streamPipeOutQ.length

namespace InvAt

variable {reqs begun later later' : List ShiftReq} {s s' : ShifterSystem} {cur : Option ShiftReq}
  {rem rest : List DataStream} {pending : List (Bool × List DataStream)}
  (h : InvAt reqs s begun later cur rem pending)
include h

theorem begins {req : ShiftReq} {ds : DataStream} {beats : List DataStream}
    {offsets : List (BitVec 6)} {s₁ : BiDirectionStreamShifter} (hcur : cur = none)
    (hlater : later = req :: later') (hoffsets : offsets ++ s.offsets = later'.map (·.offset))
    (hreq : req.beats = ds :: rest) (hbeats : beats ++ s.beats = rest ++ later'.flatMap (·.beats))
    (hfirst : ds.isFirst = true) (hrest : ∀ d ∈ rest, d.isFirst = false)
    (henter : s.shifter.enter req.isShiftRight req.absOffset ds = some s₁) :
    InvAt reqs { s with shifter := { s₁ with
        streamPipeInQ := beats
        offsetPipeInQ := if ds.isLast then offsets else req.offset :: offsets
        keepOrderQ := s.shifter.keepOrderQ ++ [req.isShiftRight] } }
      (begun ++ [req]) later' (next req ds) rest (pending ++
        [(req.isShiftRight, req.shifted)]) := by
  have hlast := req.isStream.lastOnly
  rw [hreq] at hlast
  exact {
    split := by rw [h.split, hlater, append_assoc, singleton_append]
    offsets := offsets_next hoffsets
    beats := hbeats
    entering := entering_next hlast hrest
    order := by
      rw [map_append, ← h.order]
      rfl
    frames := by
      intro p hp
      rcases mem_append.1 hp with hp | hp
      · exact h.frames p hp
      · obtain rfl := mem_singleton.1 hp
        exact req.isStream_shifted.lastOnly
    sides := by
      intro dir
      have hside := h.sides dir
      change s₁.GivesOut dir _ _
      have hup : upOf cur rem dir = [] := by rw [hcur]; exact if_neg (by simp)
      rw [hup] at hside
      by_cases hdir : dir = req.isShiftRight
      · subst hdir
        rw [upOf_next_self hlast, owed_concat_self]
        exact hside.begins henter hfirst hreq
      · rw [upOf_next_of_ne hdir, owed_concat_of_ne hdir]
        exact hside.enter_other henter hdir
    out := by
      rw [flatMap_append, flatMap_append, ← h.out, flatMap_singleton, flatMap_singleton]
      simp only [BiDirectionStreamShifter.enter_streamPipeOutQ henter, append_assoc] }

theorem continues {req : ShiftReq} {ds : DataStream} {beats : List DataStream} {offsets : List (BitVec 6)}
    {s₁ : BiDirectionStreamShifter} (hcur : cur = some req) (hrem : rem = ds :: rest)
    (hoffsets : offsets ++ s.offsets = later.map (·.offset))
    (hbeats : beats ++ s.beats = rest ++ later.flatMap (·.beats))
    (henter : s.shifter.enter req.isShiftRight req.absOffset ds = some s₁) :
    InvAt reqs { s with shifter := { s₁ with
        streamPipeInQ := beats
        offsetPipeInQ := if ds.isLast then offsets else req.offset :: offsets
        keepOrderQ := s.shifter.keepOrderQ } }
      begun later (next req ds) rest pending := by
  have hlast := h.entering.lastOnly (by rw [hcur]; simp)
  have hfirst := h.entering.isFirst ds (by rw [hrem]; exact mem_cons_self)
  rw [hrem] at hlast
  exact {
    split := h.split
    offsets := offsets_next hoffsets
    beats := hbeats
    entering := entering_next hlast fun d hd => h.entering.isFirst d (by rw [hrem]; exact mem_cons_of_mem _ hd)
    order := h.order
    frames := h.frames
    sides := by
      intro dir
      have hside := h.sides dir
      change s₁.GivesOut dir _ _
      by_cases hdir : dir = req.isShiftRight
      · subst hdir
        have hup : upOf cur rem req.isShiftRight = ds :: rest := by rw [hcur, hrem]; exact if_pos rfl
        rw [hup] at hside
        rw [upOf_next_self hlast]
        exact hside.continues henter hfirst
      · have hup : upOf cur rem dir = [] := by rw [hcur]; exact if_neg fun heq => hdir (some.inj heq).symm
        rw [hup] at hside
        rw [upOf_next_of_ne hdir]
        exact hside.enter_other henter hdir
    out := by
      rw [← h.out]
      simp only [BiDirectionStreamShifter.enter_streamPipeOutQ henter] }

theorem decideDirection (hs : s.step .decideDirection = some s') : Inv reqs s' := by
  obtain ⟨shifter, hdecide, rfl⟩ := map_eq_some_iff.1 hs
  obtain ⟨offset, offsets, ds, beats, s₁, hoffset, hstream, henter, rfl⟩ :=
    BiDirectionStreamShifter.decideDirection_eq_some hdecide
  have hoffsets := h.offsets
  have hbeats := h.beats
  rw [hoffset, cons_append] at hoffsets
  rw [hstream, cons_append] at hbeats
  cases cur with
  | none =>
    obtain rfl := h.entering.done rfl
    cases later with
    | nil => cases hbeats
    | cons req later =>
      obtain ⟨d, rest, hreq, hfirst, hrest⟩ := req.isStream.exists_cons
      rw [toList_none, nil_append, map_cons, cons.injEq] at hoffsets
      rw [nil_append, flatMap_cons, hreq, cons_append, cons.injEq] at hbeats
      obtain ⟨rfl, hoffsets⟩ := hoffsets
      obtain ⟨rfl, hbeats⟩ := hbeats
      simp only [hfirst]
      exact ⟨_, _, _, _, _, h.begins rfl rfl hoffsets hreq hbeats hfirst hrest henter⟩
  | some req =>
    obtain ⟨d, rest, rfl⟩ := exists_cons_of_ne_nil (h.entering.lastOnly (by simp)).ne_nil
    rw [toList_some, singleton_append, map_cons, cons.injEq] at hoffsets
    rw [cons_append, cons.injEq] at hbeats
    obtain ⟨rfl, hoffsets⟩ := hoffsets
    obtain ⟨rfl, hbeats⟩ := hbeats
    simp only [h.entering.isFirst ds mem_cons_self]
    exact ⟨_, _, _, _, _, h.continues rfl rfl hoffsets hbeats henter⟩

theorem doFinalOutput (hs : s.step .doFinalOutput = some s') : Inv reqs s' := by
  obtain ⟨shifter, hfinal, rfl⟩ := map_eq_some_iff.1 hs
  obtain ⟨dir, order, ds, s₁, horder, hpop, rfl⟩ :=
    BiDirectionStreamShifter.doFinalOutput_eq_some hfinal
  obtain ⟨hoffsetQ, hstreamQ⟩ := BiDirectionStreamShifter.popResult_inputs hpop
  have horder' := h.order
  rw [horder] at horder'
  cases pending with
  | nil => cases horder'
  | cons p pending =>
    obtain ⟨dir', frame⟩ := p
    obtain ⟨rfl, htail⟩ := cons.inj horder'
    have hframe := h.frames _ mem_cons_self
    obtain ⟨d, rest, hcons⟩ := exists_cons_of_ne_nil hframe.ne_nil
    obtain rfl : frame = d :: rest := hcons
    have hside := h.sides dir
    rw [owed_cons_self] at hside
    obtain ⟨out', heq, hside'⟩ := hside.popResult hpop
    cases heq
    have hothers : ∀ dir', dir' ≠ dir → s₁.GivesOut dir' (upOf cur rem dir')
      (owed dir' pending) := by
      intro dir' hne
      have hother := h.sides dir'
      rw [owed_cons_of_ne hne] at hother
      exact hother.popResult_other hpop hne
    have hout := h.out
    rw [flatMap_cons, cons_append] at hout
    rcases lastOnly_cons.1 hframe with ⟨rfl, hlast⟩ | ⟨hrest, hlast⟩
    · simp only [hlast]
      refine ⟨begun, later, cur, rem, pending, ?_⟩
      exact {
        split := h.split
        offsets := hoffsetQ ▸ h.offsets
        beats := hstreamQ ▸ h.beats
        entering := h.entering
        order := htail
        frames := fun p hp => h.frames p (mem_cons_of_mem _ hp)
        sides := by
          intro dir'
          by_cases hdir' : dir' = dir
          · subst hdir'
            exact hside'
          · exact hothers dir' hdir'
        out := by
          rw [← hout]
          simp only [append_assoc, singleton_append, nil_append] }
    · simp only [hlast]
      refine ⟨begun, later, cur, rem, (dir, rest) :: pending, ?_⟩
      exact {
        split := h.split
        offsets := hoffsetQ ▸ h.offsets
        beats := hstreamQ ▸ h.beats
        entering := h.entering
        order := congrArg (dir :: ·) htail
        frames := by
          intro p hp
          rcases mem_cons.1 hp with rfl | hp
          · exact hrest
          · exact h.frames p (mem_cons_of_mem _ hp)
        sides := by
          intro dir'
          by_cases hdir' : dir' = dir
          · subst hdir'
            rw [owed_cons_self]
            exact hside'
          · rw [owed_cons_of_ne hdir']
            exact hothers dir' hdir'
        out := by
          rw [← hout]
          simp only [append_assoc, singleton_append, flatMap_cons] }

theorem step {l : ShifterLabel} (hs : s.step l = some s') : Inv reqs s' := by
  cases l with
  | arriveOffset =>
    rw [ShifterSystem.step] at hs
    split at hs
    · cases hs
    · next offset offsets hoffset =>
      cases hs
      refine ⟨begun, later, cur, rem, pending, h.split, ?_, h.beats, h.entering, h.order, h.frames,
        h.sides, h.out⟩
      rw [← h.offsets, hoffset, append_assoc, singleton_append]
  | arriveBeat =>
    rw [ShifterSystem.step] at hs
    split at hs
    · cases hs
    · next ds beats hbeats =>
      cases hs
      refine ⟨begun, later, cur, rem, pending, h.split, h.offsets, ?_, h.entering, h.order,
        h.frames, h.sides, h.out⟩
      rw [← h.beats, hbeats, append_assoc, singleton_append]
  | decideDirection => exact h.decideDirection hs
  | fire dir rule =>
    obtain ⟨shifter, hfire, rfl⟩ := map_eq_some_iff.1 hs
    have hsides : ∀ dir', shifter.GivesOut dir' (upOf cur rem dir') (owed dir' pending) :=
      fun dir' => (h.sides dir').fire hfire
    rw [BiDirectionStreamShifter.fire_queues hfire] at hsides ⊢
    exact ⟨begun, later, cur, rem, pending, h.split, h.offsets, h.beats, h.entering, h.order,
      h.frames, hsides, h.out⟩
  | doFinalOutput => exact h.doFinalOutput hs
  | takeOut =>
    rw [ShifterSystem.step] at hs
    split at hs
    · cases hs
    · next ds beats hout =>
      cases hs
      refine ⟨begun, later, cur, rem, pending, h.split, h.offsets, h.beats, h.entering, h.order, h.frames, h.sides, ?_⟩
      rw [← h.out, hout, append_assoc, singleton_append, cons_append]

end InvAt

/-! ## At rest -/

section Rest

variable {reqs begun later : List ShiftReq} {s : ShifterSystem} {cur : Option ShiftReq}
  {rem : List DataStream} {pending : List (Bool × List DataStream)}

def AtRest (s : ShifterSystem) : Prop := Quiescent step (fun _ _ => True) (fun _ => True) s

theorem AtRest.step_eq_none (h : s.AtRest) (l : ShifterLabel) : s.step l = none :=
  h l trivial trivial

theorem AtRest.inputs (h : s.AtRest) : s.offsets = [] ∧ s.beats =
    [] ∧ s.shifter.streamPipeOutQ = [] := by
  have hoffset := h.step_eq_none .arriveOffset
  have hbeat := h.step_eq_none .arriveBeat
  have hout := h.step_eq_none .takeOut
  refine ⟨?_, ?_, ?_⟩
  · rw [step] at hoffset
    split at hoffset
    · assumption
    · cases hoffset
  · rw [step] at hbeat
    split at hbeat
    · assumption
    · cases hbeat
  · rw [step] at hout
    split at hout
    · assumption
    · cases hout

theorem AtRest.fire (h : s.AtRest) (dir : Bool) (rule : ShifterRule) :
    s.shifter.fire dir rule = none :=
  map_eq_none_iff.1 (h.step_eq_none (.fire dir rule))

theorem AtRest.decideDirection (h : s.AtRest) : s.shifter.decideDirection = none :=
  map_eq_none_iff.1 (h.step_eq_none .decideDirection)

variable (h : InvAt reqs s begun later cur rem pending)
include h

theorem InvAt.cur_eq_none_of_room (hrest : s.AtRest)
    (hroom : ∀ req, cur = some req → ∀ ds : DataStream, ds.isFirst = false →
      s.shifter.enter req.isShiftRight req.absOffset ds ≠ none) : cur = none := by
  obtain ⟨hoffsetsLeft, hbeatsLeft, -⟩ := hrest.inputs
  cases cur with
  | none => rfl
  | some req =>
    obtain ⟨ds, rest, rfl⟩ := exists_cons_of_ne_nil (h.entering.lastOnly (by simp)).ne_nil
    have hfirst := h.entering.isFirst ds mem_cons_self
    have hoffsets := h.offsets
    have hbeats := h.beats
    rw [hoffsetsLeft, append_nil] at hoffsets
    rw [hbeatsLeft, append_nil] at hbeats
    exact absurd hrest.decideDirection (decideDirection_ne_none hoffsets hbeats
      (fun hf => absurd hf (by simp [hfirst])) (hroom req rfl ds hfirst))

theorem InvAt.pending_eq_nil (hrest : s.AtRest) : pending = [] := by
  cases pending with
  | nil => rfl
  | cons p pending =>
    obtain ⟨dir, frame⟩ := p
    have hframe := h.frames _ mem_cons_self
    have hpop : s.shifter.popResult dir = none := by
      have hfinal := map_eq_none_iff.1 (hrest.step_eq_none .doFinalOutput)
      rw [BiDirectionStreamShifter.doFinalOutput, h.order, hrest.inputs.2.2] at hfinal
      exact map_eq_none_iff.1 hfinal
    have hside := h.sides dir
    rw [owed_cons_self] at hside
    -- the shifter of the frame waits for beats, which are those of the stream that is entering
    have hup : upOf cur rem dir ≠ [] := by
      intro hnil
      have hempty := ((hside.atRest (hrest.fire dir) hpop 0).2 hnil).1
      exact hframe.ne_nil (append_eq_nil_iff.1 hempty).1
    have hcur : cur.map (·.isShiftRight) = some dir := by
      by_contra hne
      exact hup (if_neg hne)
    have hnone := h.cur_eq_none_of_room hrest fun req hreq ds hfirst => by
      rw [hreq] at hcur
      rw [show req.isShiftRight = dir from some.inj hcur]
      exact (hside.atRest (hrest.fire dir) hpop req.absOffset).1 ds hfirst
    rw [hnone] at hcur
    cases hcur

theorem InvAt.out_of_atRest (hrest : s.AtRest) : s.out = reqs.flatMap (·.shifted) := by
  obtain rfl := h.pending_eq_nil hrest
  obtain ⟨hoffsetsLeft, hbeatsLeft, hout⟩ := hrest.inputs
  have hpop : ∀ dir, s.shifter.popResult dir = none := fun dir => (h.sides dir).popResult_eq_none
  obtain rfl := h.cur_eq_none_of_room hrest fun req _ ds hfirst =>
    ((h.sides _).atRest (hrest.fire _) (hpop _) req.absOffset).1 ds hfirst
  obtain rfl := h.entering.done rfl
  have hlater : later = [] := by
    cases later with
    | nil => rfl
    | cons req later =>
      obtain ⟨ds, rest, hreq, -, -⟩ := req.isStream.exists_cons
      have hoffsets := h.offsets
      have hbeats := h.beats
      rw [hoffsetsLeft, append_nil] at hoffsets
      rw [hbeatsLeft, append_nil, flatMap_cons, hreq] at hbeats
      refine absurd hrest.decideDirection (decideDirection_ne_none hoffsets hbeats ?_ ?_)
      · rw [h.order]
        exact fun _ => Nat.zero_lt_succ 3
      · exact (((h.sides _).atRest (hrest.fire _) (hpop _) req.absOffset).2 (if_neg (by simp))).2 ds
  have hall := h.out
  rw [hout, flatMap_nil, nil_append, append_nil] at hall
  rw [hall, h.split, hlater, append_nil]

end Rest

theorem work_step {s s' : ShifterSystem} {l : ShifterLabel} (hs : s.step l = some s') :
    s'.work < s.work := by
  cases l with
  | arriveOffset =>
    rw [step] at hs
    split at hs
    · cases hs
    · next offset offsets hoffset =>
      cases hs
      simp only [work, hoffset, length_append, length_cons, length_nil,
        BiDirectionStreamShifter.work]
      omega
  | arriveBeat =>
    rw [step] at hs
    split at hs
    · cases hs
    · next ds beats hbeats =>
      cases hs
      simp only [work, hbeats, length_append, length_cons, length_nil,
        BiDirectionStreamShifter.work]
      omega
  | decideDirection =>
    obtain ⟨shifter, hdecide, rfl⟩ := map_eq_some_iff.1 hs
    obtain ⟨offset, offsets, ds, beats, s₁, hoffset, hstream, henter, rfl⟩ :=
      BiDirectionStreamShifter.decideDirection_eq_some hdecide
    have hwork := BiDirectionStreamShifter.work_enter henter
    have hlen : (if ds.isLast then offsets else offset :: offsets).length ≤ offsets.length + 1 := by
      split <;> simp
    simp only [BiDirectionStreamShifter.work] at hwork
    simp only [work, BiDirectionStreamShifter.work, hoffset, hstream, length_cons,
      BiDirectionStreamShifter.enter_streamPipeOutQ henter]
    omega
  | fire dir rule =>
    obtain ⟨shifter, hfire, rfl⟩ := map_eq_some_iff.1 hs
    have hwork := BiDirectionStreamShifter.work_fire hfire
    rw [BiDirectionStreamShifter.fire_queues hfire] at hwork ⊢
    simp only [work]
    omega
  | doFinalOutput =>
    obtain ⟨shifter, hfinal, rfl⟩ := map_eq_some_iff.1 hs
    obtain ⟨dir, order, ds, s₁, horder, hpop, rfl⟩ :=
      BiDirectionStreamShifter.doFinalOutput_eq_some hfinal
    obtain ⟨hoffsetQ, hstreamQ⟩ := BiDirectionStreamShifter.popResult_inputs hpop
    have hwork := BiDirectionStreamShifter.work_popResult hpop
    simp only [BiDirectionStreamShifter.work] at hwork
    simp only [work, BiDirectionStreamShifter.work, hoffsetQ, hstreamQ, length_append,
      length_singleton]
    omega
  | takeOut =>
    rw [step] at hs
    split at hs
    · cases hs
    · next ds beats hout =>
      cases hs
      simp only [work, hout, length_cons, BiDirectionStreamShifter.work]
      omega

/-! ## Whole runs -/

theorem inv_of_run {reqs : List ShiftReq} {rightReg leftReg : DataStream × BitVec 5}
    {ls : List ShifterLabel} {s : ShifterSystem}
    (h : Run step (fun _ _ => True) (init reqs rightReg leftReg) ls s) : Inv reqs s := by
  refine h.invariant (I := fun _ s => Inv reqs s) (inv_init reqs rightReg leftReg) ?_
  rintro _ s l s' ⟨_, _, _, _, _, hinv⟩ - hs
  exact hinv.step hs

theorem decreases (reqs : List ShiftReq) (rightReg leftReg : DataStream × BitVec 5) :
    Decreases step (fun _ _ => True) (fun _ => True) (init reqs rightReg leftReg) work :=
  fun _ _ _ _ _ _ _ hs => work_step hs

/-- **The shifter moves every stream by its own offset.** There is one stream for each that arrives,
of the same bytes from the byte that is to be the first on, such that in every run the beats of
these streams are given out in order. No run goes on for ever, each can go on until nothing is left
to do, and then all beats were given out. -/
theorem run_shifts (reqs : List ShiftReq) :
    ∃ outs : List (List DataStream), List.Forall₂ (fun req beats =>
      IsStream req.target req.bytes beats) reqs outs ∧ ∀ rightReg leftReg ls s,
    Run step (fun _ _ => True) (init reqs rightReg leftReg) ls s →
        s.out <+: outs.flatten ∧ ls.length ≤ (init reqs rightReg leftReg).work ∧
        (s.AtRest → s.out = outs.flatten) ∧
        ∃ ls' s', Run step (fun _ _ => True) (init reqs rightReg leftReg) (ls ++ ls') s' ∧
        s'.AtRest := by
  refine ⟨reqs.map (·.shifted), ?_, fun rightReg leftReg ls s hrun => ?_⟩
  · rw [forall₂_map_right_iff, forall₂_same]
    exact fun req _ => req.isStream_shifted
  rw [← flatMap_def]
  obtain ⟨begun, later, cur, rem, pending, hinv⟩ := inv_of_run hrun
  have hdec := decreases reqs rightReg leftReg
  obtain ⟨ls', s', -, hrun', hrest⟩ := hrun.settles hdec
  refine ⟨?_, ?_, hinv.out_of_atRest, ls', s', hrun', hrest⟩
  · rw [hinv.split, flatMap_append, ← hinv.out, append_assoc]
    exact prefix_append _ _
  · exact Run.length_le hdec .nil (by rwa [nil_append]) fun _ _ => trivial

/-- Two beats that are moved by one byte to the right, into one. -/
def toTheRight : ShiftReq where
  start := 1
  bytes := List.replicate 32 0
  offset := 1
  beats := [⟨0, 31, 1, true, false⟩, ⟨0, 1, 0, false, true⟩]
  isStream := by
    refine ⟨by decide, by decide, by decide, fun k ds hk => ?_⟩
    match k, hk with
    | 0, hk =>
      cases hk
      exact ⟨by decide, by decide, by decide, by decide, by decide⟩
    | 1, hk =>
      cases hk
      exact ⟨by decide, by decide, by decide, by decide, by decide⟩
  nonneg := by decide
  lt := by decide

/-- One byte that is moved by three bytes to the left. -/
def toTheLeft : ShiftReq where
  start := 0
  bytes := [7]
  offset := -3
  beats := [⟨7, 1, 0, true, true⟩]
  isStream := by
    refine ⟨by decide, by decide, by decide, fun k ds hk => ?_⟩
    match k, hk with
    | 0, hk =>
      cases hk
      exact ⟨by decide, by decide, by decide, by decide, by decide⟩
  nonneg := by decide
  lt := by decide

/-- Both streams arrive; the second is shifted before the first one is given out. -/
def rightThenLeft : List ShifterLabel :=
  [.arriveOffset, .arriveOffset, .arriveBeat, .arriveBeat, .arriveBeat, .decideDirection,
    .fire true .take, .decideDirection, .decideDirection, .fire false .take, .fire false .shift1,
    .fire false .shift2, .fire true .take, .fire true .shift1, .fire true .shift2, .doFinalOutput,
    .doFinalOutput, .takeOut, .takeOut]

theorem run_shifts_rightThenLeft : ∃ outs s,
    List.Forall₂ (fun req beats => IsStream req.target req.bytes beats) [toTheRight,
      toTheLeft] outs ∧ Run step (fun _ _ => True)
    (init [toTheRight, toTheLeft] (⟨0, 0, 0, false, false⟩, 0) (⟨0, 0, 0, false, false⟩, 0))
        rightThenLeft s ∧
      s.out = [⟨0, 32, 0, true, true⟩, ⟨7 <<< 24, 1, 3, true, true⟩] ∧ s.out <+: outs.flatten := by
  obtain ⟨outs, hstreams, hruns⟩ := run_shifts [toTheRight, toTheLeft]
  exact ⟨outs, _, hstreams, .of_isSome (by decide +kernel), by decide +kernel, (hruns _ _ _ _ (.of_isSome _)).1⟩

end ShifterSystem

end OpenRdma.Rtl
