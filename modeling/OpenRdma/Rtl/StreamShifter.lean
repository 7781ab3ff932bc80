import OpenRdma.Rtl.Streams

/-!
# Shifting streams

`mkBiDirectionStreamShifterLsbRightG` moves the bytes of a stream to another place in its beats. A
stream whose offset is positive or zero goes to the right shifter, toward the lower bytes, and the
others to the left shifter. Each of them joins a beat with the one next to it and shifts the pair,
in two steps: first by the higher bits of the offset, then by the lower ones. A queue of directions
keeps the streams in order.

The FIFO in front of each input of a shifter has one place. A stream waits with its offset at that
place until the stream before it, in the same direction, has left the shifter's first stage.
-/

namespace OpenRdma.Rtl

open BitVec

structure DataStreamMeta where
  byteNum : BitVec 6
  startByteIdx : BitVec 5
  isFirst : Bool
  isLast : Bool
  deriving DecidableEq

/-- `ShiftIntermediateData`, the two beats as one vector. -/
structure ShiftIntermediateData where
  concatData : BitVec 512
  offset : BitVec 5
  info : DataStreamMeta
  deriving DecidableEq

namespace ShiftIntermediateData

/-- The beat that is given out for shifted data. -/
def toBeat (req : ShiftIntermediateData) (data : BitVec 256) : DataStream :=
  ⟨data, req.info.byteNum, req.info.startByteIdx, req.info.isFirst, req.info.isLast⟩

/-- How far the first step shifts: the two higher bits of the offset. -/
def shiftCntHigh (offset : BitVec 5) : BitVec 8 := offset.extractLsb' 3 2 ++ 0#6

/-- How far the second step shifts: the three lower bits. -/
def shiftCntLow (offset : BitVec 5) : BitVec 6 := offset.setWidth 6 <<< 3

def doLeftShift1 (req : ShiftIntermediateData) : ShiftIntermediateData :=
  { req with concatData := req.concatData <<< shiftCntHigh req.offset }

def doLeftShift2 (req : ShiftIntermediateData) : DataStream :=
  req.toBeat ((req.concatData <<< shiftCntLow req.offset).extractLsb' 256 256)

def doRightShift (req : ShiftIntermediateData) : ShiftIntermediateData :=
  { req with concatData := req.concatData >>> shiftCntHigh req.offset }

def doRightShift2 (req : ShiftIntermediateData) : DataStream :=
  req.toBeat ((req.concatData >>> shiftCntLow req.offset).setWidth 256)

theorem shiftCnt_add (offset : BitVec 5) :
    (shiftCntHigh offset).toNat + (shiftCntLow offset).toNat = 8 * offset.toNat := by
  revert offset
  decide

theorem doLeftShift_eq (req : ShiftIntermediateData) :
    req.doLeftShift1.doLeftShift2 = req.toBeat
    ((req.concatData <<< (8 * req.offset.toNat)).extractLsb' 256 256) := by
  rw [doLeftShift1, doLeftShift2, toBeat, toBeat, shiftLeft_eq', shiftLeft_eq', ← shiftLeft_add,
    shiftCnt_add]

theorem doRightShift_eq (req : ShiftIntermediateData) :
    req.doRightShift.doRightShift2 = req.toBeat
    ((req.concatData >>> (8 * req.offset.toNat)).setWidth 256) := by
  rw [doRightShift, doRightShift2, toBeat, toBeat, ushiftRight_eq', ushiftRight_eq',
    ← shiftRight_add, shiftCnt_add]

end ShiftIntermediateData

/-- The first stage of a shifter: the FIFOs of its inputs, its state and the register for a beat
with its offset. -/
structure ShifterInput (σ : Type) where
  offsetPipeInQ : List (BitVec 5)
  streamPipeInQ : List DataStream
  state : σ
  prevDataReg : DataStream × BitVec 5

/-- A shifter: the first stage, the FIFOs of the two steps and that of the results. -/
structure UniDirStreamShifter (σ : Type) extends ShifterInput σ where
  doShiftPipeQ : List ShiftIntermediateData
  doShiftPipeQ2 : List ShiftIntermediateData
  resultQ : List DataStream

/-- The rules of a shifter: those of the first stage, and the two steps. -/
inductive ShifterRule
  | take
  | shift1
  | shift2
  deriving DecidableEq

namespace UniDirStreamShifter

variable {σ : Type} (s : UniDirStreamShifter σ)

/-- A beat goes into the FIFO for beats, and with the first one the offset of the stream into the
other one. -/
def enter (offset : BitVec 5) (ds : DataStream) : Option (UniDirStreamShifter σ) :=
  if s.streamPipeInQ.length < 1 ∧ (ds.isFirst = true → s.offsetPipeInQ.length < 1) then
    some { s with
      offsetPipeInQ := if ds.isFirst then s.offsetPipeInQ ++ [offset] else s.offsetPipeInQ
      streamPipeInQ := s.streamPipeInQ ++ [ds] }
  else none

/-- The first of the results, and the shifter without it. -/
def popResult : Option (DataStream × UniDirStreamShifter σ) :=
  match s.resultQ with
  | [] => none
  | ds :: results => some (ds, { s with resultQ := results })

/-- A rule fires, where `take` is the first stage and the two steps are given. -/
def fire (take : UniDirStreamShifter σ → Option (UniDirStreamShifter σ))
    (step1 : ShiftIntermediateData → ShiftIntermediateData) (step2 : ShiftIntermediateData →
      DataStream) :
    ShifterRule → Option (UniDirStreamShifter σ)
  | .take => take s
  | .shift1 =>
    match s.doShiftPipeQ with
    | [] => none
    | req :: reqs =>
      if s.doShiftPipeQ2.length < 1 then
        some { s with doShiftPipeQ := reqs, doShiftPipeQ2 := s.doShiftPipeQ2 ++ [step1 req] }
      else none
  | .shift2 =>
    match s.doShiftPipeQ2 with
    | [] => none
    | req :: reqs =>
      if s.resultQ.length < 2 then
        some { s with doShiftPipeQ2 := reqs, resultQ := s.resultQ ++ [step2 req] }
      else none

end UniDirStreamShifter

/-! ## To the left -/

/-- The states of the left shifter. -/
inductive LeftShiftState
  | outputBeat
  | outputExtraBeat
  deriving DecidableEq

namespace LeftShifter

/-- The beat fits in one, not counting where a first beat starts. -/
def fitsNonOnly (offset : BitVec 5) (ds : DataStream) : Bool := ds.byteNum + offset.setWidth 6 ≤ 32

def fitsOnly (offset : BitVec 5) (ds : DataStream) : Bool :=
  ds.byteNum + offset.setWidth 6 + ds.startByteIdx.setWidth 6 ≤ 32

/-- The beat given out for this one is the last. -/
def isLast (offset : BitVec 5) (ds : DataStream) : Bool :=
  if ds.isFirst && ds.isLast then fitsOnly offset ds else fitsNonOnly offset ds && ds.isLast

/-- One more beat comes after this one. -/
def needsExtra (offset : BitVec 5) (ds : DataStream) : Bool :=
  (ds.isLast && !fitsNonOnly offset ds) || (ds.isFirst && ds.isLast && !fitsOnly offset ds)

/-- The number of bytes of the beat given out for this one. -/
def byteNum (offset : BitVec 5) (ds : DataStream) : BitVec 6 :=
  if ds.isFirst then
    if fitsOnly offset ds then ds.byteNum else 32 - (offset.setWidth 6 + ds.startByteIdx.setWidth 6)
  else if isLast offset ds then ds.byteNum + offset.setWidth 6 else 32

/-- What is shifted for a beat, after the one in the register. -/
def beatOf (offset : BitVec 5) (prev ds : DataStream) : ShiftIntermediateData where
  concatData := ds.data ++ if ds.isFirst then 0 else prev.data
  offset := offset
  info := ⟨byteNum offset ds, if ds.isFirst then ds.startByteIdx + offset else 0, ds.isFirst,
    isLast offset ds⟩

/-- What is shifted for the extra beat. -/
def extraOf (offset : BitVec 5) (prev : DataStream) : ShiftIntermediateData where
  concatData := 0#256 ++ prev.data
  offset := offset
  info := ⟨offset.setWidth 6 - (32 - prev.byteNum - prev.startByteIdx.setWidth 6), 0, false, true⟩

variable (s : UniDirStreamShifter LeftShiftState)

/-- `shiftLeftOptput` and `shiftLeftOptputExtra`. -/
def take : Option (UniDirStreamShifter LeftShiftState) :=
  match s.state with
  | .outputBeat =>
    match s.streamPipeInQ, s.offsetPipeInQ with
    | ds :: beats, offset :: offsets =>
      if s.doShiftPipeQ.length < 1 then
        some { s with
          streamPipeInQ := beats
          prevDataReg := (ds, offset)
          doShiftPipeQ := s.doShiftPipeQ ++ [beatOf offset s.prevDataReg.1 ds]
          state := if needsExtra offset ds then .outputExtraBeat else .outputBeat
          offsetPipeInQ := if isLast offset ds then offsets else offset :: offsets }
      else none
    | _, _ => none
  | .outputExtraBeat =>
    match s.offsetPipeInQ with
    | [] => none
    | _ :: offsets =>
      if s.doShiftPipeQ.length < 1 then
        some { s with
          doShiftPipeQ := s.doShiftPipeQ ++ [extraOf s.prevDataReg.2 s.prevDataReg.1]
          state := .outputBeat
          offsetPipeInQ := offsets }
      else none

def fire : ShifterRule → Option (UniDirStreamShifter LeftShiftState) :=
  s.fire take ShiftIntermediateData.doLeftShift1 ShiftIntermediateData.doLeftShift2

end LeftShifter

/-! ## To the right -/

/-- The states of the right shifter. -/
inductive RightShiftState
  | idle
  | outputBeat
  | outputExtraBeat
  deriving DecidableEq

namespace RightShifter

/-- What is shifted for a stream of one beat. -/
def onlyOf (offset : BitVec 5) (ds : DataStream) : ShiftIntermediateData where
  concatData := 0#256 ++ ds.data
  offset := offset
  info := ⟨ds.byteNum, ds.startByteIdx - offset, true, true⟩

/-- All of the beat fits in the one given out for the beat before. -/
def fits (prevOffset : BitVec 5) (ds : DataStream) : Bool := ds.byteNum ≤ prevOffset.setWidth 6

/-- The number of bytes of the beat given out for the beat in the register. -/
def byteNum (prev : DataStream × BitVec 5) (offset : BitVec 5) (ds : DataStream) : BitVec 6 :=
  if fits prev.2 ds then
    if prev.1.isFirst then prev.1.byteNum + ds.byteNum else prev.1.byteNum + ds.byteNum -
      offset.setWidth 6
  else if prev.1.isFirst then prev.1.byteNum + prev.2.setWidth 6 else 32

/-- What is shifted for the beat in the register, with the next one. -/
def beatOf (prev : DataStream × BitVec 5) (offset : BitVec 5) (ds : DataStream) :
    ShiftIntermediateData where
  concatData := ds.data ++ prev.1.data
  offset := prev.2
  info := ⟨byteNum prev offset ds, if prev.1.isFirst then prev.1.startByteIdx - offset else 0,
    prev.1.isFirst, fits prev.2 ds && ds.isLast⟩

/-- What is shifted for the extra beat. -/
def extraOf (prev : DataStream × BitVec 5) : ShiftIntermediateData where
  concatData := 0#256 ++ prev.1.data
  offset := prev.2
  info := ⟨prev.1.byteNum - prev.2.setWidth 6, 0, false, true⟩

variable (s : UniDirStreamShifter RightShiftState)

/-- `shiftRightIdle`, `shiftRightOptput` and `shiftRightOptputExtra`. -/
def take : Option (UniDirStreamShifter RightShiftState) :=
  match s.state with
  | .idle =>
    match s.streamPipeInQ, s.offsetPipeInQ with
    | ds :: beats, offset :: offsets =>
      if ds.isLast then
        if s.doShiftPipeQ.length < 1 then
          some { s with
            streamPipeInQ := beats
            prevDataReg := (ds, offset)
            doShiftPipeQ := s.doShiftPipeQ ++ [onlyOf offset ds]
            offsetPipeInQ := offsets }
        else none
      else
        some { s with streamPipeInQ := beats, prevDataReg := (ds, offset), state := .outputBeat }
    | _, _ => none
  | .outputBeat =>
    match s.streamPipeInQ, s.offsetPipeInQ with
    | ds :: beats, offset :: offsets =>
      if s.doShiftPipeQ.length < 1 then
        let isLast := fits s.prevDataReg.2 ds && ds.isLast
        some { s with
          streamPipeInQ := beats
          prevDataReg := (ds, offset)
          doShiftPipeQ := s.doShiftPipeQ ++ [beatOf s.prevDataReg offset ds]
          state := if ds.isLast && !isLast then .outputExtraBeat else if isLast then .idle
            else .outputBeat
          offsetPipeInQ := if isLast then offsets else offset :: offsets }
      else none
    | _, _ => none
  | .outputExtraBeat =>
    match s.offsetPipeInQ with
    | [] => none
    | offset :: offsets =>
      if s.doShiftPipeQ.length < 1 then
        let s' := { s with
          doShiftPipeQ := s.doShiftPipeQ ++ [extraOf s.prevDataReg]
          offsetPipeInQ := offsets }
        -- a beat that waits is taken in the same step, with the offset that leaves
        match s.streamPipeInQ with
        | [] => some { s' with state := .idle }
        | ds :: beats =>
          if ds.isFirst && ds.isLast then some { s' with prevDataReg := (ds, offset), state := .idle }
          else some { s' with prevDataReg := (ds, offset), streamPipeInQ := beats, state := .outputBeat }
      else none

def fire : ShifterRule → Option (UniDirStreamShifter RightShiftState) :=
  s.fire take ShiftIntermediateData.doRightShift ShiftIntermediateData.doRightShift2

end RightShifter

/-! ## In both directions -/

def getAbsValue {w : ℕ} (x : BitVec w) : BitVec w := if x.msb then ~~~x + 1 else x

/-- The two shifters and the order of their streams. -/
structure BiDirectionStreamShifter where
  offsetPipeInQ : List (BitVec 6)
  streamPipeInQ : List DataStream
  streamPipeOutQ : List DataStream
  keepOrderQ : List Bool
  rightShifter : UniDirStreamShifter RightShiftState
  leftShifter : UniDirStreamShifter LeftShiftState

namespace BiDirectionStreamShifter

variable (s : BiDirectionStreamShifter)

def enter (isShiftRight : Bool) (offset : BitVec 5) (ds : DataStream) :
    Option BiDirectionStreamShifter :=
  if isShiftRight then (s.rightShifter.enter offset ds).map fun shifter =>
    { s with rightShifter := shifter }
  else (s.leftShifter.enter offset ds).map fun shifter => { s with leftShifter := shifter }

/-- A result is taken from one of the shifters. -/
def popResult (isShiftRight : Bool) : Option (DataStream × BiDirectionStreamShifter) :=
  if isShiftRight then s.rightShifter.popResult.map fun result =>
    (result.1, { s with rightShifter := result.2 })
  else s.leftShifter.popResult.map fun result => (result.1, { s with leftShifter := result.2 })

def fire (isShiftRight : Bool) (rule : ShifterRule) : Option BiDirectionStreamShifter :=
  if isShiftRight then (RightShifter.fire s.rightShifter rule).map fun shifter =>
    { s with rightShifter := shifter }
  else (LeftShifter.fire s.leftShifter rule).map fun shifter => { s with leftShifter := shifter }

/-- A beat enters the shifter of its direction. -/
def decideDirection : Option BiDirectionStreamShifter :=
  match s.offsetPipeInQ, s.streamPipeInQ with
  | offset :: offsets, ds :: beats =>
    let isShiftRight := !offset.msb
    if ds.isFirst = true → s.keepOrderQ.length < 4 then
      (s.enter isShiftRight ((getAbsValue offset).setWidth 5) ds).map fun s' =>
        { s' with
          streamPipeInQ := beats
          offsetPipeInQ := if ds.isLast then offsets else offset :: offsets
          keepOrderQ := if ds.isFirst then s.keepOrderQ ++ [isShiftRight] else s.keepOrderQ }
    else none
  | _, _ => none

/-- A beat leaves the shifter whose turn it is. -/
def doFinalOutput : Option BiDirectionStreamShifter :=
  match s.keepOrderQ with
  | [] => none
  | isShiftRight :: order =>
    if s.streamPipeOutQ.length < 2 then
      (s.popResult isShiftRight).map fun result =>
        { result.2 with
          streamPipeOutQ := s.streamPipeOutQ ++ [result.1]
          keepOrderQ := if result.1.isLast then order else isShiftRight :: order }
    else none

end BiDirectionStreamShifter

end OpenRdma.Rtl
