import OpenRdma.Rtl.ShiftedStreams

/-!
# Runs of a stream shifter

At any time a shifter has at most one stream in its first stage, since the FIFO for offsets has one
place: the next stream of its direction comes when the last beat for this one was made. What the
first stage is still to make is then known, and so is what the shifter is still to give out. No rule
changes it.

* `GivesOut`: what a shifter is still to give out. The rules keep it (`GivesOut.fire`), with the
  first beat of a stream comes what is given out for all of it (`GivesOut.begins`), and the other
  beats only come closer (`GivesOut.continues`). At rest it takes beats (`GivesOut.atRest`).
-/

namespace OpenRdma.Rtl

open List Option

variable {σ : Type}

/-- What is left to do for what a shifter has, where `weight` is that of its state. -/
def UniDirStreamShifter.work (weight : σ → ℕ) (s : UniDirStreamShifter σ) : ℕ :=
  10 * s.streamPipeInQ.length + weight s.state + 4 * s.doShiftPipeQ.length + 3 *
    s.doShiftPipeQ2.length + 2 * s.resultQ.length

section Work

variable {weight : σ → ℕ} {s s' : UniDirStreamShifter σ} {offset : BitVec 5} {ds : DataStream}

theorem UniDirStreamShifter.work_enter (hs : s.enter offset ds = some s') :
    s'.work weight = s.work weight + 10 := by
  obtain ⟨-, rfl⟩ := ite_some_none_eq_some.1 hs
  simp only [work, length_append, length_singleton]
  omega

theorem UniDirStreamShifter.work_popResult (hs : s.popResult = some (ds, s')) :
    s.work weight = s'.work weight + 2 := by
  rw [popResult] at hs
  split at hs
  · cases hs
  · next hresult =>
    cases hs
    simp only [work, hresult, length_cons]
    omega

end Work

/-- The first stage of a shifter, with what it is still to make where some beats of its stream are
to come. -/
structure ShifterSpec (σ : Type) where
  take : UniDirStreamShifter σ → Option (UniDirStreamShifter σ)
  step1 : ShiftIntermediateData → ShiftIntermediateData
  step2 : ShiftIntermediateData → DataStream
  /-- The streams that the shifter is for, with their offsets. -/
  Accepts : BitVec 5 → List DataStream → Prop
  /-- What is made for a stream. -/
  made : BitVec 5 → List DataStream → List ShiftIntermediateData
  Owes : ShifterInput σ → List DataStream → List ShiftIntermediateData → Prop
  owes_take : ∀ {s s' up tail}, Owes s.toShifterInput up tail → take s = some s' →
    (∃ tail', Owes s'.toShifterInput up tail' ∧ s'.doShiftPipeQ ++ tail' = s.doShiftPipeQ ++ tail) ∧
      s'.doShiftPipeQ2 = s.doShiftPipeQ2 ∧ s'.resultQ = s.resultQ
  owes_begins : ∀ {s tail offset ds rest}, Owes s [] tail → s.offsetPipeInQ = [] →
    ds.isFirst = true → Accepts offset (ds :: rest) → tail = [] ∧
      Owes { s with offsetPipeInQ := [offset], streamPipeInQ := s.streamPipeInQ ++ [ds] } rest
      (made offset (ds :: rest))
  owes_continues : ∀ {s tail ds rest}, Owes s (ds :: rest) tail →
    Owes { s with streamPipeInQ := s.streamPipeInQ ++ [ds] } rest tail
  weight : σ → ℕ
  work_take : ∀ {s s'}, take s = some s' → s'.work weight < s.work weight
  owes_rest : ∀ {s up tail}, Owes s.toShifterInput up tail → s.doShiftPipeQ = [] → take s = none →
    s.streamPipeInQ = [] ∧ (up = [] → tail = [] ∧ s.offsetPipeInQ = [])

namespace ShifterSpec

variable (spec : ShifterSpec σ) {s s' : UniDirStreamShifter σ} {up rest out : List DataStream}
  {tail : List ShiftIntermediateData} {offset : BitVec 5} {ds : DataStream}

def fire (s : UniDirStreamShifter σ) : ShifterRule → Option (UniDirStreamShifter σ) :=
  s.fire spec.take spec.step1 spec.step2

/-- The beat that is given out for what the first stage makes. -/
def finish (req : ShiftIntermediateData) : DataStream := spec.step2 (spec.step1 req)

/-- The shifter is still to give out these beats. -/
def GivesOut (s : UniDirStreamShifter σ) (up out : List DataStream) : Prop :=
  ∃ tail, spec.Owes s.toShifterInput up tail ∧
    out = s.resultQ ++ (s.doShiftPipeQ2.map spec.step2 ++ (s.doShiftPipeQ ++ tail).map spec.finish)

variable {spec}

theorem work_fire {rule : ShifterRule} (hs : spec.fire s rule = some s') :
    s'.work spec.weight < s.work spec.weight := by
  cases rule with
  | take => exact spec.work_take hs
  | shift1 =>
    rw [ShifterSpec.fire, UniDirStreamShifter.fire] at hs
    split at hs
    · cases hs
    · next req reqs hpipe =>
      obtain ⟨-, rfl⟩ := ite_some_none_eq_some.1 hs
      simp only [UniDirStreamShifter.work, hpipe, length_cons, length_append, length_nil]
      omega
  | shift2 =>
    rw [ShifterSpec.fire, UniDirStreamShifter.fire] at hs
    split at hs
    · cases hs
    · next req reqs hpipe =>
      obtain ⟨-, rfl⟩ := ite_some_none_eq_some.1 hs
      simp only [UniDirStreamShifter.work, hpipe, length_cons, length_append, length_nil]
      omega

namespace GivesOut

theorem fire {rule : ShifterRule} (h : spec.GivesOut s up out) (hs : spec.fire s rule = some s') :
    spec.GivesOut s' up out := by
  obtain ⟨tail, howes, rfl⟩ := h
  cases rule with
  | take =>
    obtain ⟨⟨tail', howes', hmade⟩, hpipe, hresult⟩ := spec.owes_take howes hs
    exact ⟨tail', howes', by rw [hmade, hpipe, hresult]⟩
  | shift1 =>
    rw [ShifterSpec.fire, UniDirStreamShifter.fire] at hs
    split at hs
    · cases hs
    · next req reqs hpipe =>
      obtain ⟨-, rfl⟩ := ite_some_none_eq_some.1 hs
      refine ⟨tail, howes, ?_⟩
      rw [hpipe]
      simp only [map_append, map_cons, map_nil, append_assoc, cons_append, nil_append, finish]
  | shift2 =>
    rw [ShifterSpec.fire, UniDirStreamShifter.fire] at hs
    split at hs
    · cases hs
    · next req reqs hpipe =>
      obtain ⟨-, rfl⟩ := ite_some_none_eq_some.1 hs
      refine ⟨tail, howes, ?_⟩
      rw [hpipe]
      simp only [map_cons, append_assoc, cons_append, nil_append]

theorem begins (h : spec.GivesOut s [] out) (hs : s.enter offset ds = some s')
    (hfirst : ds.isFirst = true) (haccepts : spec.Accepts offset (ds :: rest)) :
    spec.GivesOut s' rest (out ++ (spec.made offset (ds :: rest)).map spec.finish) := by
  obtain ⟨tail, howes, rfl⟩ := h
  obtain ⟨⟨-, hroom⟩, rfl⟩ := ite_some_none_eq_some.1 hs
  have hempty : s.offsetPipeInQ = [] := eq_nil_of_length_eq_zero (by have := hroom hfirst; omega)
  obtain ⟨rfl, howes'⟩ := spec.owes_begins howes hempty hfirst haccepts
  refine ⟨spec.made offset (ds :: rest), ?_, ?_⟩
  · simp only [hfirst, hempty]
    exact howes'
  · simp only [map_append, append_assoc, append_nil]

theorem continues (h : spec.GivesOut s (ds :: rest) out) (hs : s.enter offset ds = some s')
    (hfirst : ds.isFirst = false) : spec.GivesOut s' rest out := by
  obtain ⟨tail, howes, rfl⟩ := h
  obtain ⟨-, rfl⟩ := ite_some_none_eq_some.1 hs
  refine ⟨tail, ?_, rfl⟩
  simp only [hfirst]
  exact spec.owes_continues howes

theorem popResult (h : spec.GivesOut s up out) (hs : s.popResult = some (ds, s')) :
    ∃ out', out = ds :: out' ∧ spec.GivesOut s' up out' := by
  obtain ⟨tail, howes, rfl⟩ := h
  rw [UniDirStreamShifter.popResult] at hs
  split at hs
  · cases hs
  · next ds' results hresult =>
    cases hs
    exact ⟨_, by rw [hresult, cons_append], tail, howes, rfl⟩

theorem atRest (h : spec.GivesOut s up out) (hrest : ∀ rule, spec.fire s rule = none)
    (hpop : s.popResult = none) (offset : BitVec 5) :
    (∀ ds : DataStream, ds.isFirst = false → s.enter offset ds ≠ none) ∧
      (up = [] → out = [] ∧ ∀ ds, s.enter offset ds ≠ none) := by
  obtain ⟨tail, howes, rfl⟩ := h
  have hresult : s.resultQ = [] := by
    rw [UniDirStreamShifter.popResult] at hpop
    split at hpop
    · next hempty => exact hempty
    · cases hpop
  have hpipe2 : s.doShiftPipeQ2 = [] := by
    have hnone := hrest .shift2
    rw [ShifterSpec.fire, UniDirStreamShifter.fire, hresult] at hnone
    split at hnone
    · next hempty => exact hempty
    · exact absurd hnone (by simp)
  have hpipe : s.doShiftPipeQ = [] := by
    have hnone := hrest .shift1
    rw [ShifterSpec.fire, UniDirStreamShifter.fire, hpipe2] at hnone
    split at hnone
    · next hempty => exact hempty
    · exact absurd hnone (by simp)
  obtain ⟨hstream, hup⟩ := spec.owes_rest howes hpipe (hrest .take)
  refine ⟨fun ds hfirst => ?_, fun hnil => ?_⟩
  · simp [UniDirStreamShifter.enter, hstream, hfirst]
  · obtain ⟨rfl, hoffset⟩ := hup hnil
    refine ⟨by rw [hresult, hpipe2, hpipe]; rfl, fun ds => ?_⟩
    simp [UniDirStreamShifter.enter, hstream, hoffset]

end GivesOut

end ShifterSpec

/-! ## The left shifter -/

namespace LeftShifter

variable {s s' : UniDirStreamShifter LeftShiftState} {up rest : List DataStream} {offset : BitVec 5}
  {ds : DataStream} {tail : List ShiftIntermediateData} {out : List DataStream}

/-- One more beat comes if this one is the last and that for it is not. -/
def Regular (offset : BitVec 5) (ds : DataStream) : Prop := needsExtra offset ds =
    (ds.isLast && !isLast offset ds)

theorem regular_of_isStream {start : ℕ} {bytes : List (BitVec 8)} {beats : List DataStream}
    (h : IsStream start bytes beats) (hs : start + offset.toNat < 32) (hds : ds ∈ beats) :
    Regular offset ds := by
  obtain ⟨k, hk⟩ := List.mem_iff_getElem?.1 hds
  have hbeat := h.beat k ds hk
  have hlt := (List.getElem?_eq_some_iff.1 hk).1
  rw [h.length, beatCount] at hlt
  have hin : 32 * k < start + bytes.length := by omega
  rw [Regular, needsExtra_eq hbeat hs hin, isLast_eq hbeat hs hin, hbeat.isLast, ← decide_not,
    ← Bool.decide_and, decide_eq_decide]
  omega

/-- What the first stage is still to make, where the beats `up` of its stream are to come. -/
inductive Owes (s : ShifterInput LeftShiftState) (up : List DataStream) :
    List ShiftIntermediateData → Prop
  | idle (hoffset : s.offsetPipeInQ = []) (hstate : s.state = .outputBeat)
      (hbeats : s.streamPipeInQ ++ up = []) : Owes s up []
  | beats {offset : BitVec 5} (hoffset : s.offsetPipeInQ = [offset])
      (hstate : s.state = .outputBeat) (hlast : LastOnly (s.streamPipeInQ ++ up)) (hregular : ∀ ds ∈
      s.streamPipeInQ ++ up, Regular offset ds) :
      Owes s up (streamOf offset s.prevDataReg.1 (s.streamPipeInQ ++ up))
  | extra {offset : BitVec 5} {prev : DataStream} (hoffset : s.offsetPipeInQ = [offset])
      (hstate : s.state = .outputExtraBeat) (hprev : s.prevDataReg = (prev, offset))
      (hbeats : s.streamPipeInQ ++ up = []) :
      Owes s up [extraOf offset prev]

theorem isLast_of_isLast (h : isLast offset ds = true) : ds.isLast = true := by
  rw [isLast] at h
  split at h
  · next honly => exact (Bool.and_eq_true_iff.1 honly).2
  · exact (Bool.and_eq_true_iff.1 h).2

theorem Owes.take (h : Owes s.toShifterInput up tail) (hs : LeftShifter.take s = some s') :
    (∃ tail', Owes s'.toShifterInput up tail' ∧ s'.doShiftPipeQ ++ tail' = s.doShiftPipeQ ++ tail) ∧
      s'.doShiftPipeQ2 = s.doShiftPipeQ2 ∧ s'.resultQ = s.resultQ := by
  rw [LeftShifter.take] at hs
  cases h with
  | idle hoffset hstate hbeats =>
    rw [hstate, hoffset] at hs
    simp at hs
  | beats hoffset hstate hlast hregular =>
    rename_i offset
    rw [hstate, hoffset] at hs
    cases hstream : s.streamPipeInQ with
    | nil =>
      rw [hstream] at hs
      cases hs
    | cons ds beats =>
      rw [hstream] at hs
      obtain ⟨-, rfl⟩ := ite_some_none_eq_some.1 hs
      refine ⟨?_, rfl, rfl⟩
      rw [hstream, cons_append] at hregular hlast
      have hextra : needsExtra offset ds = (ds.isLast && !isLast offset ds) :=
        hregular ds mem_cons_self
      rw [cons_append, streamOf]
      simp only [append_assoc]
      rcases lastOnly_cons.1 hlast with ⟨hnil, hds⟩ | ⟨hrest, hds⟩
      · rw [hds] at hextra
        cases hout : isLast offset ds with
        | true =>
          rw [hout] at hextra
          simp only [hextra, hnil]
          exact ⟨[], .idle rfl rfl hnil, rfl⟩
        | false =>
          rw [hout] at hextra
          simp only [hextra]
          exact ⟨_, .extra rfl rfl rfl hnil, rfl⟩
      · have hout : isLast offset ds = false := by
          cases hl : isLast offset ds with
          | false => rfl
          | true => exact absurd (isLast_of_isLast hl) (by simp [hds])
        rw [hds] at hextra
        simp only [hextra, hout]
        exact ⟨_, .beats rfl rfl hrest fun d hd => hregular d (mem_cons_of_mem _ hd), rfl⟩
  | extra hoffset hstate hprev hbeats =>
    rw [hstate, hoffset] at hs
    obtain ⟨-, rfl⟩ := ite_some_none_eq_some.1 hs
    refine ⟨⟨[], .idle rfl rfl hbeats, ?_⟩, rfl, rfl⟩
    rw [hprev, append_nil]

theorem streamOf_of_isFirst (h : ds.isFirst = true) (prev prev' : DataStream) :
    streamOf offset prev (ds :: rest) = streamOf offset prev' (ds :: rest) := by
  simp only [streamOf, beatOf, h, if_true]

/-- What is made for a stream. -/
def made (offset : BitVec 5) (beats : List DataStream) : List ShiftIntermediateData :=
  streamOf offset ⟨0, 0, 0, false, false⟩ beats

def weight : LeftShiftState → ℕ
  | .outputBeat => 0
  | .outputExtraBeat => 5

theorem weight_le (state : LeftShiftState) : weight state ≤ 5 := by
  cases state <;> decide

theorem work_take (hs : take s = some s') : s'.work weight < s.work weight := by
  rw [take] at hs
  cases hstate : s.state with
  | outputBeat =>
    rw [hstate] at hs
    dsimp only at hs
    split at hs
    · next ds beats offset offsets hstream hoffset =>
      obtain ⟨-, rfl⟩ := ite_some_none_eq_some.1 hs
      have hweight := weight_le (if needsExtra offset ds then .outputExtraBeat else .outputBeat)
      simp only [UniDirStreamShifter.work, hstream, length_cons, length_append, length_nil]
      omega
    · cases hs
  | outputExtraBeat =>
    rw [hstate] at hs
    dsimp only at hs
    split at hs
    · cases hs
    · obtain ⟨-, rfl⟩ := ite_some_none_eq_some.1 hs
      simp only [UniDirStreamShifter.work, hstate, weight, length_cons, length_append, length_nil]
      omega

/-- The contract of the left shifter. -/
def spec : ShifterSpec LeftShiftState where
  take := take
  step1 := ShiftIntermediateData.doLeftShift1
  step2 := ShiftIntermediateData.doLeftShift2
  Accepts := fun offset beats => LastOnly beats ∧ ∀ ds ∈ beats, Regular offset ds
  made := made
  Owes := Owes
  owes_take := Owes.take
  weight := weight
  work_take := work_take
  owes_begins := by
    intro s tail offset ds rest howes hoffset hfirst haccepts
    cases howes with
    | idle hoffset' hstate hbeats =>
      rw [List.append_nil] at hbeats
      refine ⟨rfl, ?_⟩
      rw [made, streamOf_of_isFirst hfirst _ s.prevDataReg.1, hbeats]
      exact .beats rfl hstate haccepts.1 haccepts.2
    | beats hoffset' => exact absurd (hoffset.symm.trans hoffset') (by simp)
    | extra hoffset' => exact absurd (hoffset.symm.trans hoffset') (by simp)
  owes_continues := by
    intro s tail ds rest howes
    have happend : s.streamPipeInQ ++ ds :: rest = s.streamPipeInQ ++ [ds] ++ rest := by simp
    cases howes with
    | idle hoffset hstate hbeats => exact absurd hbeats (by simp)
    | beats hoffset hstate hlast hregular =>
      rw [happend] at hlast hregular ⊢
      exact .beats hoffset hstate hlast hregular
    | extra hoffset hstate hprev hbeats => exact absurd hbeats (by simp)
  owes_rest := by
    intro s up tail howes hpipe hnone
    rw [take, hpipe] at hnone
    cases howes with
    | idle hoffset hstate hbeats => exact ⟨(List.append_eq_nil_iff.1 hbeats).1,
        fun _ => ⟨rfl, hoffset⟩⟩
    | beats hoffset hstate hlast hregular =>
      rw [hstate, hoffset] at hnone
      cases hstream : s.streamPipeInQ with
      | nil =>
        rw [hstream, List.nil_append] at hlast
        exact ⟨rfl, fun hup => absurd hup hlast.ne_nil⟩
      | cons ds beats =>
        rw [hstream] at hnone
        cases hnone
    | extra hoffset hstate hprev hbeats =>
      rw [hstate, hoffset] at hnone
      cases hnone

end LeftShifter

/-! ## The right shifter -/

namespace RightShifter

variable {s s' : UniDirStreamShifter RightShiftState} {up : List DataStream}
  {tail : List ShiftIntermediateData}

/-- What the first stage is still to make, where the beats `up` of its stream are to come. -/
inductive Owes (s : ShifterInput RightShiftState) (up : List DataStream) :
    List ShiftIntermediateData → Prop
  | idle (hoffset : s.offsetPipeInQ = []) (hstate : s.state = .idle) (hbeats : s.streamPipeInQ ++
      up = []) : Owes s up []
  | first {offset : BitVec 5} (hoffset : s.offsetPipeInQ = [offset]) (hstate : s.state = .idle)
      (hlast : LastOnly (s.streamPipeInQ ++ up)) :
      Owes s up (streamOf offset (s.streamPipeInQ ++ up))
  | beats {offset : BitVec 5} {prev : DataStream} (hoffset : s.offsetPipeInQ = [offset])
      (hstate : s.state = .outputBeat) (hprev : s.prevDataReg = (prev, offset))
      (hlast : LastOnly (s.streamPipeInQ ++ up)) :
      Owes s up (beatsOf offset prev (s.streamPipeInQ ++ up))
  | extra {offset : BitVec 5} {prev : DataStream} (hoffset : s.offsetPipeInQ = [offset])
      (hstate : s.state = .outputExtraBeat) (hprev : s.prevDataReg = (prev, offset))
      (hbeats : s.streamPipeInQ ++ up = []) : Owes s up [extraOf (prev, offset)]

theorem Owes.take (h : Owes s.toShifterInput up tail) (hs : RightShifter.take s = some s') :
    (∃ tail', Owes s'.toShifterInput up tail' ∧ s'.doShiftPipeQ ++ tail' = s.doShiftPipeQ ++ tail) ∧
      s'.doShiftPipeQ2 = s.doShiftPipeQ2 ∧ s'.resultQ = s.resultQ := by
  rw [RightShifter.take] at hs
  cases h with
  | idle hoffset hstate hbeats =>
    rw [hstate, hoffset] at hs
    simp at hs
  | first hoffset hstate hlast =>
    rw [hstate, hoffset] at hs
    cases hstream : s.streamPipeInQ with
    | nil =>
      rw [hstream] at hs
      cases hs
    | cons ds beats =>
      rw [hstream, cons_append] at hlast
      rw [hstream] at hs
      rcases lastOnly_cons.1 hlast with ⟨hnil, hds⟩ | ⟨hrest, hds⟩
      · simp only [hds] at hs
        obtain ⟨-, rfl⟩ := ite_some_none_eq_some.1 hs
        refine ⟨⟨[], .idle rfl rfl hnil, ?_⟩, rfl, rfl⟩
        rw [cons_append, hnil, append_nil]
        rfl
      · simp only [hds] at hs
        cases hs
        refine ⟨⟨_, .beats rfl rfl rfl hrest, ?_⟩, rfl, rfl⟩
        obtain ⟨d, rest, hcons⟩ := exists_cons_of_ne_nil hrest.ne_nil
        rw [cons_append]
        simp only [hcons]
        rfl
  | beats hoffset hstate hprev hlast =>
    rename_i offset prev
    rw [hstate, hoffset] at hs
    cases hstream : s.streamPipeInQ with
    | nil =>
      rw [hstream] at hs
      cases hs
    | cons ds beats =>
      rw [hstream, cons_append] at hlast
      rw [hstream] at hs
      obtain ⟨-, rfl⟩ := ite_some_none_eq_some.1 hs
      refine ⟨?_, rfl, rfl⟩
      rw [cons_append, beatsOf, hprev]
      simp only [append_assoc]
      rcases lastOnly_cons.1 hlast with ⟨hnil, hds⟩ | ⟨hrest, hds⟩
      · simp only [hds]
        cases hfits : fits offset ds with
        | true =>
          exact ⟨[], .idle rfl rfl hnil, rfl⟩
        | false =>
          simp only [hnil]
          exact ⟨_, .extra rfl rfl rfl hnil, rfl⟩
      · simp only [hds, Bool.and_false]
        exact ⟨_, .beats rfl rfl rfl hrest, rfl⟩
  | extra hoffset hstate hprev hbeats =>
    -- no beat can wait here: its offset would not have found a place
    obtain ⟨hstream, hup⟩ := append_eq_nil_iff.1 hbeats
    rw [hstate, hoffset, hstream] at hs
    obtain ⟨-, rfl⟩ := ite_some_none_eq_some.1 hs
    refine ⟨⟨[], .idle rfl rfl hup, ?_⟩, rfl, rfl⟩
    rw [hprev, append_nil]

def weight : RightShiftState → ℕ
  | .idle | .outputBeat => 0
  | .outputExtraBeat => 5

theorem weight_le (state : RightShiftState) : weight state ≤ 5 := by
  cases state <;> decide

theorem work_take (hs : take s = some s') : s'.work weight < s.work weight := by
  rw [take] at hs
  cases hstate : s.state with
  | idle =>
    rw [hstate] at hs
    dsimp only at hs
    split at hs
    · next ds beats offset offsets hstream hoffset =>
      split at hs
      · obtain ⟨-, rfl⟩ := ite_some_none_eq_some.1 hs
        simp only [UniDirStreamShifter.work, hstream, weight, length_cons, length_append,
          length_nil]
        omega
      · cases hs
        simp only [UniDirStreamShifter.work, hstream, weight, length_cons]
        omega
    · cases hs
  | outputBeat =>
    rw [hstate] at hs
    dsimp only at hs
    split at hs
    · next ds beats offset offsets hstream hoffset =>
      obtain ⟨-, rfl⟩ := ite_some_none_eq_some.1 hs
      have hweight := weight_le (if ds.isLast &&
        !(fits s.prevDataReg.2 ds && ds.isLast) then .outputExtraBeat
        else if fits s.prevDataReg.2 ds && ds.isLast then .idle else .outputBeat)
      simp only [UniDirStreamShifter.work, hstream, length_cons, length_append, length_nil]
      omega
    · cases hs
  | outputExtraBeat =>
    rw [hstate] at hs
    dsimp only at hs
    split at hs
    · cases hs
    · obtain ⟨-, hs⟩ := ite_none_right_eq_some.1 hs
      cases hstream : s.streamPipeInQ with
      | nil =>
        rw [hstream] at hs
        cases hs
        simp only [UniDirStreamShifter.work, hstate, weight, length_append, length_cons, length_nil]
        omega
      | cons ds beats =>
        rw [hstream] at hs
        dsimp only at hs
        split at hs
        · cases hs
          simp only [UniDirStreamShifter.work, hstate, hstream, weight, length_append, length_cons,
            length_nil]
          omega
        · cases hs
          simp only [UniDirStreamShifter.work, hstream, weight, length_append, length_cons,
            length_nil]
          omega

/-- The contract of the right shifter. -/
def spec : ShifterSpec RightShiftState where
  take := take
  step1 := ShiftIntermediateData.doRightShift
  step2 := ShiftIntermediateData.doRightShift2
  Accepts := fun _ beats => LastOnly beats
  made := streamOf
  Owes := Owes
  owes_take := Owes.take
  weight := weight
  work_take := work_take
  owes_begins := by
    intro s tail offset ds rest howes hoffset hfirst haccepts
    cases howes with
    | idle hoffset' hstate hbeats =>
      rw [List.append_nil] at hbeats
      refine ⟨rfl, ?_⟩
      rw [hbeats]
      exact .first rfl hstate haccepts
    | first hoffset' => exact absurd (hoffset.symm.trans hoffset') (by simp)
    | beats hoffset' => exact absurd (hoffset.symm.trans hoffset') (by simp)
    | extra hoffset' => exact absurd (hoffset.symm.trans hoffset') (by simp)
  owes_continues := by
    intro s tail ds rest howes
    have happend : s.streamPipeInQ ++ ds :: rest = s.streamPipeInQ ++ [ds] ++ rest := by simp
    cases howes with
    | idle hoffset hstate hbeats => exact absurd hbeats (by simp)
    | first hoffset hstate hlast =>
      rw [happend] at hlast ⊢
      exact .first hoffset hstate hlast
    | beats hoffset hstate hprev hlast =>
      rw [happend] at hlast ⊢
      exact .beats hoffset hstate hprev hlast
    | extra hoffset hstate hprev hbeats => exact absurd hbeats (by simp)
  owes_rest := by
    intro s up tail howes hpipe hnone
    rw [take, hpipe] at hnone
    cases howes with
    | idle hoffset hstate hbeats => exact ⟨(List.append_eq_nil_iff.1 hbeats).1,
        fun _ => ⟨rfl, hoffset⟩⟩
    | first hoffset hstate hlast =>
      rw [hstate, hoffset] at hnone
      cases hstream : s.streamPipeInQ with
      | nil =>
        rw [hstream, List.nil_append] at hlast
        exact ⟨rfl, fun hup => absurd hup hlast.ne_nil⟩
      | cons ds beats =>
        rw [hstream] at hnone
        dsimp only at hnone
        split at hnone <;> cases hnone
    | beats hoffset hstate hprev hlast =>
      rw [hstate, hoffset] at hnone
      cases hstream : s.streamPipeInQ with
      | nil =>
        rw [hstream, List.nil_append] at hlast
        exact ⟨rfl, fun hup => absurd hup hlast.ne_nil⟩
      | cons ds beats =>
        rw [hstream] at hnone
        cases hnone
    | extra hoffset hstate hprev hbeats =>
      rw [hstate, hoffset, (List.append_eq_nil_iff.1 hbeats).1] at hnone
      cases hnone

end RightShifter

end OpenRdma.Rtl
