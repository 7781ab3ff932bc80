import Mathlib.Data.List.Forall2
import Mathlib.Logic.Function.Basic
import OpenRdma.Foundations.Run
import OpenRdma.Rtl.BitmapMerge

/-!
# The storage of bitmap windows

The storage keeps a window for each queue pair. An update or a reset sets the busy flag, passes two
stages and is written back, which clears the flag; another may start only then. Reads from the
second port are independent. A read sees the content of the memory when it is issued. FIFOs inside
the module have the capacity of the source.

A stale update is answered but not written back, so the flag stays set. Without stale updates every
update is answered and the storage becomes idle again (`Live`).
-/

namespace OpenRdma.Rtl

open List Option

/-! ## The module -/

structure BitmapWindowStorageStageOneToTwoPipelineEntry where
  rowAddr : BitVec 10
  newEntry : BitmapWindowStorageEntry
  isReset : Bool
  deriving DecidableEq

structure BitmapWindowStorageStageTwoToThreePipelineEntry where
  rowAddr : BitVec 10
  newEntry : BitmapWindowStorageEntry
  deriving DecidableEq

/-- The registers, FIFOs and memory of the storage. Both copies of the memory have the same
content. -/
structure BitmapWindowStorage where
  bramInitedReg : Bool := false
  bramInitPtrReg : BitVec 10 := 0
  bitmapUpdateBusyReg : Bool := false
  storage : BitVec 10 → BitmapWindowStorageEntry
  reqPipeInQueue : List BitmapWindowStorageUpdateReq := []
  resetReqPipeInQ : List (BitVec 10) := []
  readRespPipeOut : List BitmapWindowStorageEntry := []
  stageOneToTwoPipelineQueue : List BitmapWindowStorageStageOneToTwoPipelineEntry := []
  stageTwoToThreePipelineQueue : List BitmapWindowStorageStageTwoToThreePipelineEntry := []
  respPipeOutQueue : List BitmapWindowStorageUpdateResp := []
  readOnlyReqPipeInQueue : List (BitVec 10) := []
  readOnlyRespPipelineQueue : List BitmapWindowStorageEntry := []
  readOnlyRespPipeOutQueue : List BitmapWindowStorageEntry := []

namespace BitmapWindowStorage

/-- After power-up the memory is cleared row by row. -/
def bramInit (s : BitmapWindowStorage) : Option BitmapWindowStorage :=
  if s.bramInitedReg then none
  else
    some { s with
      bramInitedReg := s.bramInitPtrReg == BitVec.allOnes 10
      storage := Function.update s.storage s.bramInitPtrReg resetValue
      bramInitPtrReg := s.bramInitPtrReg + 1 }

/-- The first stage takes a reset or, if there is none, an update, whose window is read. -/
def sendBramQueryReqAndGenOneHotBitmap (s : BitmapWindowStorage) : Option BitmapWindowStorage :=
  if s.bramInitedReg && !s.bitmapUpdateBusyReg && s.stageOneToTwoPipelineQueue.isEmpty then
    match s.resetReqPipeInQ, s.reqPipeInQueue with
    | row :: rows, _ =>
      some { s with
        bitmapUpdateBusyReg := true
        resetReqPipeInQ := rows
        stageOneToTwoPipelineQueue := s.stageOneToTwoPipelineQueue ++ [⟨row, resetValue, true⟩] }
    | [], req :: reqs =>
      if s.readRespPipeOut.length < 3 then
        some { s with
          bitmapUpdateBusyReg := true
          reqPipeInQueue := reqs
          readRespPipeOut := s.readRespPipeOut ++ [s.storage (getIndexQP req.qpn)]
          stageOneToTwoPipelineQueue := s.stageOneToTwoPipelineQueue ++
            [⟨getIndexQP req.qpn, oneHotEntry req, false⟩] }
      else none
    | [], [] => none
  else none

/-- The second stage merges the update into the window read and answers it. -/
def getBramQueryRespAndMergeThem (s : BitmapWindowStorage) : Option BitmapWindowStorage :=
  if s.bramInitedReg then
    match s.stageOneToTwoPipelineQueue with
    | [] => none
    | e :: es =>
      if e.isReset then
        if s.stageTwoToThreePipelineQueue.isEmpty then
          some { s with
            stageOneToTwoPipelineQueue := es
            stageTwoToThreePipelineQueue :=
              s.stageTwoToThreePipelineQueue ++ [⟨e.rowAddr, e.newEntry⟩] }
        else none
      else
        match s.readRespPipeOut with
        | [] => none
        | old :: olds =>
          if s.respPipeOutQueue.length < 2 then
            match writeBackEntry old e.newEntry with
            | none =>
              some { s with
                stageOneToTwoPipelineQueue := es
                readRespPipeOut := olds
                respPipeOutQueue := s.respPipeOutQueue ++ [updateResp old e.newEntry e.rowAddr] }
            | some newEntry =>
              if s.stageTwoToThreePipelineQueue.isEmpty then
                some { s with
                  stageOneToTwoPipelineQueue := es
                  readRespPipeOut := olds
                  respPipeOutQueue := s.respPipeOutQueue ++ [updateResp old e.newEntry e.rowAddr]
                  stageTwoToThreePipelineQueue :=
                    s.stageTwoToThreePipelineQueue ++ [⟨e.rowAddr, newEntry⟩] }
              else none
          else none
  else none

/-- The third stage writes the window back. -/
def doBramWriteBack (s : BitmapWindowStorage) : Option BitmapWindowStorage :=
  if s.bramInitedReg && s.bitmapUpdateBusyReg then
    match s.stageTwoToThreePipelineQueue with
    | [] => none
    | e :: es =>
      some { s with
        stageTwoToThreePipelineQueue := es
        storage := Function.update s.storage e.rowAddr e.newEntry
        bitmapUpdateBusyReg := false }
  else none

def handleReadOnlyReq (s : BitmapWindowStorage) : Option BitmapWindowStorage :=
  match s.readOnlyReqPipeInQueue with
  | [] => none
  | row :: rows =>
    if s.bramInitedReg && s.readOnlyRespPipelineQueue.isEmpty then
      some { s with
        readOnlyReqPipeInQueue := rows
        readOnlyRespPipelineQueue := s.readOnlyRespPipelineQueue ++ [s.storage row] }
    else none

def handleReadOnlyResp (s : BitmapWindowStorage) : Option BitmapWindowStorage :=
  match s.readOnlyRespPipelineQueue with
  | [] => none
  | e :: es =>
    if s.bramInitedReg && s.readOnlyRespPipeOutQueue.length < 2 then
      some { s with
        readOnlyRespPipelineQueue := es
        readOnlyRespPipeOutQueue := s.readOnlyRespPipeOutQueue ++ [e] }
    else none

/-- The consumer takes an answer to an update. -/
def takeResp (s : BitmapWindowStorage) : Option BitmapWindowStorage :=
  match s.respPipeOutQueue with
  | [] => none
  | _ :: resps => some { s with respPipeOutQueue := resps }

/-- The consumer takes an answer of the second port. -/
def takeReadOnlyResp (s : BitmapWindowStorage) : Option BitmapWindowStorage :=
  match s.readOnlyRespPipeOutQueue with
  | [] => none
  | _ :: es => some { s with readOnlyRespPipeOutQueue := es }

end BitmapWindowStorage

/-- What can happen next: a request arrives, a rule of the module fires, or an answer is taken. -/
inductive BitmapLabel
  | update (req : BitmapWindowStorageUpdateReq)
  | reset (row : BitVec 10)
  | readOnly (row : BitVec 10)
  | bramInit
  | sendBramQueryReqAndGenOneHotBitmap
  | getBramQueryRespAndMergeThem
  | doBramWriteBack
  | handleReadOnlyReq
  | handleReadOnlyResp
  | takeResp
  | takeReadOnlyResp
  deriving DecidableEq

/-- The label is a request from outside. -/
def BitmapLabel.isRequest : BitmapLabel → Bool
  | update _ | reset _ | readOnly _ => true
  | _ => false

/-- A rule of the storage, or a step of its users. -/
def BitmapWindowStorage.step (s : BitmapWindowStorage) : BitmapLabel → Option BitmapWindowStorage
  | .update req => some { s with reqPipeInQueue := s.reqPipeInQueue ++ [req] }
  | .reset row => some { s with resetReqPipeInQ := s.resetReqPipeInQ ++ [row] }
  | .readOnly row => some { s with readOnlyReqPipeInQueue := s.readOnlyReqPipeInQueue ++ [row] }
  | .bramInit => s.bramInit
  | .sendBramQueryReqAndGenOneHotBitmap => s.sendBramQueryReqAndGenOneHotBitmap
  | .getBramQueryRespAndMergeThem => s.getBramQueryRespAndMergeThem
  | .doBramWriteBack => s.doBramWriteBack
  | .handleReadOnlyReq => s.handleReadOnlyReq
  | .handleReadOnlyResp => s.handleReadOnlyResp
  | .takeResp => s.takeResp
  | .takeReadOnlyResp => s.takeReadOnlyResp

/-- The state after power-up: the memory has any content. -/
def BitmapWindowStorage.Initial (s : BitmapWindowStorage) : Prop := s = { storage := s.storage }

/-! ## Histories -/

/-- The history of the storage: the updates requested and answered, how many requests were started
and finished, and for each row the sequence numbers merged since its last reset. -/
structure BitmapHistory where
  requests : List BitmapWindowStorageUpdateReq := []
  responses : List BitmapWindowStorageUpdateResp := []
  started : ℕ := 0
  finished : ℕ := 0
  handled : BitVec 10 → List (BitVec 24) := fun _ => []

/-- The history after a step. -/
def BitmapHistory.record (h : BitmapHistory) (s : BitmapWindowStorage) : BitmapLabel → BitmapHistory
  | .update req => { h with requests := h.requests ++ [req] }
  | .sendBramQueryReqAndGenOneHotBitmap => { h with started := h.started + 1 }
  | .getBramQueryRespAndMergeThem =>
    match s.stageOneToTwoPipelineQueue, s.readRespPipeOut with
    | e :: _, olds =>
      if e.isReset then { h with handled := Function.update h.handled e.rowAddr [] }
      else
        { h with
          responses := h.responses ++ olds.head?.toList.map fun old =>
            updateResp old e.newEntry e.rowAddr
          handled := Function.update h.handled e.rowAddr
            (h.handled e.rowAddr ++ (h.requests[h.responses.length]?.map (·.psn)).toList) }
    | [], _ => h
  | .doBramWriteBack => { h with finished := h.finished + 1 }
  | _ => h

/-- A step of the storage with its history. -/
def bitmapStep (w : BitmapWindowStorage × BitmapHistory) (l : BitmapLabel) :
    Option (BitmapWindowStorage × BitmapHistory) :=
  (w.1.step l).map fun s' => (s', w.2.record w.1 l)

/-! ## The rules, inverted -/

namespace BitmapWindowStorage

variable {s s' : BitmapWindowStorage} {l : BitmapLabel}

/-- What a step does, one case for each rule. -/
inductive Fires (s : BitmapWindowStorage) : BitmapLabel → BitmapWindowStorage → Prop
  | update (req) : Fires s (.update req) { s with reqPipeInQueue := s.reqPipeInQueue ++ [req] }
  | reset (row) : Fires s (.reset row) { s with resetReqPipeInQ := s.resetReqPipeInQ ++ [row] }
  | readOnly (row) : Fires s (.readOnly row) { s with
      readOnlyReqPipeInQueue := s.readOnlyReqPipeInQueue ++ [row] }
  | bramInit (hinit : s.bramInitedReg = false) : Fires s .bramInit { s with
      bramInitedReg := s.bramInitPtrReg == BitVec.allOnes 10
      storage := Function.update s.storage s.bramInitPtrReg resetValue
      bramInitPtrReg := s.bramInitPtrReg + 1 }
  | queryReset {row rows} (hinit : s.bramInitedReg = true) (hb : s.bitmapUpdateBusyReg = false)
      (hq : s.resetReqPipeInQ = row :: rows) : Fires s .sendBramQueryReqAndGenOneHotBitmap { s with
        bitmapUpdateBusyReg := true
        resetReqPipeInQ := rows
        stageOneToTwoPipelineQueue := s.stageOneToTwoPipelineQueue ++ [⟨row, resetValue, true⟩] }
  | queryUpdate {req reqs} (hinit : s.bramInitedReg = true) (hb : s.bitmapUpdateBusyReg = false)
      (hq : s.reqPipeInQueue = req :: reqs) : Fires s .sendBramQueryReqAndGenOneHotBitmap { s with
        bitmapUpdateBusyReg := true
        reqPipeInQueue := reqs
        readRespPipeOut := s.readRespPipeOut ++ [s.storage (getIndexQP req.qpn)]
        stageOneToTwoPipelineQueue := s.stageOneToTwoPipelineQueue ++
          [⟨getIndexQP req.qpn, oneHotEntry req, false⟩] }
  | mergeReset {e es} (hinit : s.bramInitedReg = true) (he : s.stageOneToTwoPipelineQueue = e :: es)
      (hr : e.isReset = true) : Fires s .getBramQueryRespAndMergeThem { s with
        stageOneToTwoPipelineQueue := es
        stageTwoToThreePipelineQueue := s.stageTwoToThreePipelineQueue ++
          [⟨e.rowAddr, e.newEntry⟩] }
  | mergeUpdate {e es old olds} (hinit : s.bramInitedReg = true)
      (he : s.stageOneToTwoPipelineQueue = e :: es) (hr : e.isReset = false)
      (ho : s.readRespPipeOut = old :: olds) : Fires s .getBramQueryRespAndMergeThem { s with
        stageOneToTwoPipelineQueue := es
        readRespPipeOut := olds
        respPipeOutQueue := s.respPipeOutQueue ++ [updateResp old e.newEntry e.rowAddr]
        stageTwoToThreePipelineQueue := s.stageTwoToThreePipelineQueue ++
          (writeBackEntry old e.newEntry).toList.map fun newEntry => ⟨e.rowAddr, newEntry⟩ }
  | doBramWriteBack {e es} (hinit : s.bramInitedReg = true) (hb : s.bitmapUpdateBusyReg = true)
      (he : s.stageTwoToThreePipelineQueue = e :: es) : Fires s .doBramWriteBack { s with
        stageTwoToThreePipelineQueue := es
        storage := Function.update s.storage e.rowAddr e.newEntry
        bitmapUpdateBusyReg := false }
  | handleReadOnlyReq {row rows} (hinit : s.bramInitedReg = true) (hq : s.readOnlyReqPipeInQueue =
      row :: rows) : Fires s .handleReadOnlyReq { s with
        readOnlyReqPipeInQueue := rows
        readOnlyRespPipelineQueue := s.readOnlyRespPipelineQueue ++ [s.storage row] }
  | handleReadOnlyResp {e es} (hq : s.readOnlyRespPipelineQueue = e :: es) :
      Fires s .handleReadOnlyResp { s with
      readOnlyRespPipelineQueue := es
      readOnlyRespPipeOutQueue := s.readOnlyRespPipeOutQueue ++ [e] }
  | takeResp {resp resps} (hq : s.respPipeOutQueue = resp :: resps) :
      Fires s .takeResp { s with respPipeOutQueue := resps }
  | takeReadOnlyResp {e es} (hq : s.readOnlyRespPipeOutQueue = e :: es) :
      Fires s .takeReadOnlyResp { s with readOnlyRespPipeOutQueue := es }

theorem fires_merge (h : s.getBramQueryRespAndMergeThem = some s') :
    Fires s .getBramQueryRespAndMergeThem s' := by
  obtain ⟨hi, h⟩ := ite_none_right_eq_some.1 h
  split at h
  · cases h
  next e es he =>
    by_cases hr : e.isReset = true
    · rw [if_pos hr] at h
      obtain ⟨-, rfl⟩ := ite_some_none_eq_some.1 h
      exact .mergeReset hi he hr
    · rw [if_neg hr] at h
      split at h
      · cases h
      next old olds ho =>
        have hmerge := Fires.mergeUpdate hi he (Bool.not_eq_true _ ▸ hr) ho
        have h := (ite_none_right_eq_some.1 h).2
        split at h
        next hw =>
          cases h
          simpa [hw] using hmerge
        next hw =>
          obtain ⟨-, rfl⟩ := ite_some_none_eq_some.1 h
          simpa [hw] using hmerge

theorem fires_of_step (h : s.step l = some s') : Fires s l s' := by
  cases l with
  | update _ | reset _ | readOnly _ =>
    cases h
    constructor
  | bramInit =>
    obtain ⟨hi, h⟩ := ite_none_left_eq_some.1 h
    cases h
    exact .bramInit (Bool.not_eq_true _ ▸ hi)
  | sendBramQueryReqAndGenOneHotBitmap =>
    obtain ⟨hc, h⟩ := ite_none_right_eq_some.1 h
    simp only [Bool.and_eq_true, Bool.not_eq_true'] at hc
    split at h
    next hq =>
      cases h
      exact .queryReset hc.1.1 hc.1.2 hq
    next hq =>
      obtain ⟨-, rfl⟩ := ite_some_none_eq_some.1 h
      exact .queryUpdate hc.1.1 hc.1.2 hq
    · cases h
  | getBramQueryRespAndMergeThem => exact fires_merge h
  | doBramWriteBack =>
    obtain ⟨hc, h⟩ := ite_none_right_eq_some.1 h
    rw [Bool.and_eq_true] at hc
    split at h
    · cases h
    next he =>
      cases h
      exact .doBramWriteBack hc.1 hc.2 he
  | handleReadOnlyReq =>
    rw [step, BitmapWindowStorage.handleReadOnlyReq] at h
    split at h
    · cases h
    next hq =>
      obtain ⟨hc, rfl⟩ := ite_some_none_eq_some.1 h
      exact .handleReadOnlyReq (Bool.and_eq_true_iff.1 hc).1 hq
  | handleReadOnlyResp =>
    rw [step, BitmapWindowStorage.handleReadOnlyResp] at h
    split at h
    · cases h
    next hq =>
      obtain ⟨-, rfl⟩ := ite_some_none_eq_some.1 h
      exact .handleReadOnlyResp hq
  | takeResp =>
    rw [step, BitmapWindowStorage.takeResp] at h
    split at h
    · cases h
    next hq =>
      cases h
      exact .takeResp hq
  | takeReadOnlyResp =>
    rw [step, BitmapWindowStorage.takeReadOnlyResp] at h
    split at h
    · cases h
    next hq =>
      cases h
      exact .takeReadOnlyResp hq

end BitmapWindowStorage

/-! ## Phases -/

/-- Where the request is that holds the busy flag. -/
inductive Phase (s : BitmapWindowStorage) : Prop
  | idle (busy : s.bitmapUpdateBusyReg = false) (one : s.stageOneToTwoPipelineQueue = [])
      (read : s.readRespPipeOut = []) (two : s.stageTwoToThreePipelineQueue = [])
  | queried (e : BitmapWindowStorageStageOneToTwoPipelineEntry)
      (busy : s.bitmapUpdateBusyReg = true) (one : s.stageOneToTwoPipelineQueue = [e])
      (read : s.readRespPipeOut = if e.isReset then [] else [s.storage e.rowAddr])
      (two : s.stageTwoToThreePipelineQueue = [])
  | merged (e : BitmapWindowStorageStageTwoToThreePipelineEntry)
      (busy : s.bitmapUpdateBusyReg = true) (one : s.stageOneToTwoPipelineQueue = [])
      (read : s.readRespPipeOut = []) (two : s.stageTwoToThreePipelineQueue = [e])
  | stale (busy : s.bitmapUpdateBusyReg = true) (one : s.stageOneToTwoPipelineQueue = [])
      (read : s.readRespPipeOut = []) (two : s.stageTwoToThreePipelineQueue = [])

/-- The module is working on a request only after its initialization. -/
structure PhaseInv (s : BitmapWindowStorage) : Prop where
  phase : Phase s
  inited : s.bitmapUpdateBusyReg = true → s.bramInitedReg = true

namespace PhaseInv

variable {s s' : BitmapWindowStorage}

theorem congr (h : PhaseInv s) (hs : s' = { s with
      bramInitedReg := s.bramInitedReg
      reqPipeInQueue := s'.reqPipeInQueue
      resetReqPipeInQ := s'.resetReqPipeInQ
      respPipeOutQueue := s'.respPipeOutQueue
      readOnlyReqPipeInQueue := s'.readOnlyReqPipeInQueue
      readOnlyRespPipelineQueue := s'.readOnlyRespPipelineQueue
      readOnlyRespPipeOutQueue := s'.readOnlyRespPipeOutQueue }) : PhaseInv s' := by
  rw [hs]
  refine ⟨?_, h.inited⟩
  rcases h.phase with ⟨hb, h₁, hr, h₂⟩ | ⟨e, hb, h₁, hr, h₂⟩ | ⟨e, hb, h₁, hr, h₂⟩ | ⟨hb,
    h₁, hr, h₂⟩
  · exact .idle hb h₁ hr h₂
  · exact .queried e hb h₁ hr h₂
  · exact .merged e hb h₁ hr h₂
  · exact .stale hb h₁ hr h₂

theorem idle_of_not_busy (h : PhaseInv s) (hb : s.bitmapUpdateBusyReg = false) :
    s.stageOneToTwoPipelineQueue = [] ∧ s.readRespPipeOut = [] ∧
    s.stageTwoToThreePipelineQueue = [] := by
  rcases h.phase with ⟨-, h₁, hr, h₂⟩ | ⟨e, hb', -⟩ | ⟨e, hb', -⟩ | ⟨hb', -⟩
  · exact ⟨h₁, hr, h₂⟩
  all_goals
    rw [hb] at hb'
    cases hb'

theorem queried_of_cons (h : PhaseInv s) {e : BitmapWindowStorageStageOneToTwoPipelineEntry}
    {es : List BitmapWindowStorageStageOneToTwoPipelineEntry} (he : s.stageOneToTwoPipelineQueue =
      e :: es) :
    s.bitmapUpdateBusyReg = true ∧ es = [] ∧ s.stageTwoToThreePipelineQueue = [] ∧
      s.readRespPipeOut = if e.isReset then [] else [s.storage e.rowAddr] := by
  rcases h.phase with ⟨-, h₁, -⟩ | ⟨e', hb, h₁, hr, h₂⟩ | ⟨e', -, h₁, -⟩ | ⟨-, h₁, -⟩
  · rw [h₁] at he
    cases he
  · obtain ⟨rfl, rfl⟩ := cons.inj (h₁.symm.trans he)
    exact ⟨hb, rfl, h₂, hr⟩
  · rw [h₁] at he
    cases he
  · rw [h₁] at he
    cases he

theorem step {l : BitmapLabel} (h : PhaseInv s) (hs : s.step l = some s') : PhaseInv s' := by
  cases BitmapWindowStorage.fires_of_step hs with
  | bramInit hi =>
    have hb : s.bitmapUpdateBusyReg = false := by
      rw [← Bool.not_eq_true]
      exact fun hb => by simp [h.inited hb] at hi
    obtain ⟨h₁, hr, h₂⟩ := h.idle_of_not_busy hb
    exact ⟨.idle hb h₁ hr h₂, fun hb' => absurd (hb.symm.trans hb') (by decide)⟩
  | @queryReset row rows hi hb =>
    obtain ⟨h₁, hr, h₂⟩ := h.idle_of_not_busy hb
    exact ⟨.queried ⟨row, resetValue, true⟩ rfl (by rw [h₁]; rfl) hr h₂, fun _ => hi⟩
  | queryUpdate hi hb =>
    obtain ⟨h₁, hr, h₂⟩ := h.idle_of_not_busy hb
    exact ⟨.queried _ rfl (by rw [h₁]; rfl) (by rw [hr]; rfl) h₂, fun _ => hi⟩
  | mergeReset hi he hreset =>
    obtain ⟨hb, rfl, h₂, hr⟩ := h.queried_of_cons he
    rw [if_pos hreset] at hr
    exact ⟨.merged _ hb rfl hr (by rw [h₂]; rfl), fun _ => hi⟩
  | @mergeUpdate e es old olds hi he hreset ho =>
    obtain ⟨hb, rfl, h₂, hr⟩ := h.queried_of_cons he
    rw [if_neg (by simp [hreset])] at hr
    obtain ⟨rfl, rfl⟩ := cons.inj (ho.symm.trans hr)
    rw [h₂]
    cases hw : writeBackEntry (s.storage e.rowAddr) e.newEntry with
    | none => exact ⟨.stale hb rfl rfl rfl, fun _ => hi⟩
    | some newEntry => exact ⟨.merged _ hb rfl rfl rfl, fun _ => hi⟩
  | doBramWriteBack hi hb he =>
    rcases h.phase with ⟨-, -, -, h₂⟩ | ⟨e', -, -, -, h₂⟩ | ⟨e', -, h₁, hr, h₂⟩ | ⟨-, -, -, h₂⟩
    · rw [h₂] at he
      cases he
    · rw [h₂] at he
      cases he
    · obtain ⟨rfl, rfl⟩ := cons.inj (h₂.symm.trans he)
      exact ⟨.idle rfl h₁ hr rfl, fun hb' => by cases hb'⟩
    · rw [h₂] at he
      cases he
  | update | reset | readOnly | handleReadOnlyReq | handleReadOnlyResp | takeResp
      | takeReadOnlyResp =>
    exact h.congr rfl

end PhaseInv

theorem phaseInv_init {s : BitmapWindowStorage} (hs : s.Initial) : PhaseInv s := by
  rw [hs]
  exact ⟨.idle rfl rfl rfl rfl, fun hb => by cases hb⟩

/-! ## Liveness -/

/-- The response is that of the request. -/
def Answers (req : BitmapWindowStorageUpdateReq) (resp : BitmapWindowStorageUpdateResp) : Prop :=
  ∃ old, resp = updateResp old (oneHotEntry req) (getIndexQP req.qpn)

/-- The entry of an update in the second stage. -/
def queryEntry (req : BitmapWindowStorageUpdateReq) :
    BitmapWindowStorageStageOneToTwoPipelineEntry :=
  ⟨getIndexQP req.qpn, oneHotEntry req, false⟩

/-- Updates are answered in order: the first ones have their answers, at most one is in the second
stage, and the others wait. -/
structure OrderInv (s : BitmapWindowStorage) (h : BitmapHistory) : Prop where
  order : ∃ answered inFlight, h.requests = answered ++ inFlight ++ s.reqPipeInQueue ∧
    List.Forall₂ Answers answered h.responses ∧
    s.stageOneToTwoPipelineQueue.filter (!·.isReset) = inFlight.map queryEntry
  counts : h.started = h.finished + if s.bitmapUpdateBusyReg then 1 else 0

/-- A step that merges an update merges none that is stale. -/
def NotStale (w : BitmapWindowStorage × BitmapHistory) : BitmapLabel → Prop
  | .getBramQueryRespAndMergeThem =>
    ∀ e ∈ w.1.stageOneToTwoPipelineQueue.head?, ∀ old ∈ w.1.readRespPipeOut.head?,
      skipMergeStale old e.newEntry = false
  | _ => True

instance (w : BitmapWindowStorage × BitmapHistory) (l : BitmapLabel) :
    Decidable (NotStale w l) := by
  unfold NotStale
  split <;> infer_instance

/-- A request that holds the busy flag is in one of the stages. -/
def NotStuck (s : BitmapWindowStorage) : Prop :=
  s.bitmapUpdateBusyReg = true →
    s.stageOneToTwoPipelineQueue ≠ [] ∨ s.stageTwoToThreePipelineQueue ≠ []

/-- A request is waiting or being worked on. -/
def BitmapWindowStorage.Pending (s : BitmapWindowStorage) : Prop :=
  s.reqPipeInQueue ≠ [] ∨ s.resetReqPipeInQ ≠ [] ∨ s.bitmapUpdateBusyReg = true

/-- A bound of the steps until everything requested is done and taken. -/
def BitmapWindowStorage.work (s : BitmapWindowStorage) : ℕ :=
  (if s.bramInitedReg then 0 else 2 ^ 10 - s.bramInitPtrReg.toNat) + 4 * s.reqPipeInQueue.length +
    4 * s.resetReqPipeInQ.length + 3 * s.stageOneToTwoPipelineQueue.length +
    s.stageTwoToThreePipelineQueue.length + s.respPipeOutQueue.length +
    3 * s.readOnlyReqPipeInQueue.length + 2 * s.readOnlyRespPipelineQueue.length +
    s.readOnlyRespPipeOutQueue.length

section

variable {s s' : BitmapWindowStorage} {h : BitmapHistory}
variable {l : BitmapLabel}

theorem OrderInv.step (hi : OrderInv s h) (hs : s.step l = some s') :
    OrderInv s' (h.record s l) := by
  obtain ⟨answered, inFlight, hreq, hans, hone⟩ := hi.order
  have hcounts := hi.counts
  cases BitmapWindowStorage.fires_of_step hs with
  | update req =>
    refine ⟨⟨answered, inFlight, ?_, hans, hone⟩, hcounts⟩
    simp [BitmapHistory.record, hreq]
  | queryReset _ hb =>
    refine ⟨⟨answered, inFlight, hreq, hans, ?_⟩, by rw [BitmapHistory.record, hcounts, hb]; rfl⟩
    simpa using hone
  | @queryUpdate req reqs _ hb hq =>
    refine ⟨⟨answered, inFlight ++ [req], ?_, hans, ?_⟩,
      by rw [BitmapHistory.record, hcounts, hb]; rfl⟩
    · simp [BitmapHistory.record, hreq, hq]
    · simp [hone, queryEntry]
  | mergeReset _ he hr =>
    rw [he] at hone
    simp only [BitmapHistory.record, he, hr]
    refine ⟨⟨answered, inFlight, hreq, hans, ?_⟩, hcounts⟩
    simpa [hr] using hone
  | mergeUpdate _ he hr ho =>
    rw [he, filter_cons_of_pos (by simp [hr])] at hone
    obtain ⟨req, inFlight, rfl, rfl, htail⟩ := map_eq_cons_iff.1 hone.symm
    simp only [BitmapHistory.record, he, hr, ho]
    refine ⟨⟨answered ++ [req], inFlight, ?_, ?_, htail.symm⟩, hcounts⟩
    · simp [hreq]
    · exact rel_append hans (.cons ⟨_, rfl⟩ .nil)
  | doBramWriteBack _ hb =>
    refine ⟨⟨answered, inFlight, hreq, hans, hone⟩, ?_⟩
    change h.started = h.finished + 1 + 0
    rw [hcounts, hb]
    rfl
  | reset | readOnly | bramInit | handleReadOnlyReq | handleReadOnlyResp | takeResp
      | takeReadOnlyResp =>
    exact ⟨⟨answered, inFlight, hreq, hans, hone⟩, hcounts⟩

theorem NotStuck.step (hn : NotStuck s) (hok : NotStale (s, h) l) (hs : s.step l = some s') :
    NotStuck s' := by
  cases BitmapWindowStorage.fires_of_step hs with
  | queryReset | queryUpdate => exact fun _ => Or.inl (by simp)
  | mergeReset => exact fun _ => Or.inr (by simp)
  | @mergeUpdate e es old olds _ he _ ho =>
    have hfresh : skipMergeStale old e.newEntry = false :=
      hok e (by rw [he]; rfl) old (by rw [ho]; rfl)
    exact fun _ => Or.inr (by simp [writeBackEntry, hfresh])
  | doBramWriteBack => exact fun hb => by cases hb
  | update | reset | readOnly | bramInit | handleReadOnlyReq | handleReadOnlyResp | takeResp
  | takeReadOnlyResp => exact hn

theorem BitmapWindowStorage.work_step (hl : l.isRequest = false) (hs : s.step l = some s') :
    s'.work < s.work := by
  cases fires_of_step hs with
  | update | reset | readOnly => cases hl
  | bramInit hi =>
    unfold work
    dsimp only
    rw [hi, if_neg Bool.false_ne_true]
    by_cases hmax : s.bramInitPtrReg = BitVec.allOnes 10
    · rw [if_pos (by rw [hmax]; rfl)]
      omega
    · have hne : s.bramInitPtrReg.toNat ≠ 1023 := fun h => hmax (BitVec.eq_of_toNat_eq h)
      have hsucc : (s.bramInitPtrReg + 1).toNat = s.bramInitPtrReg.toNat + 1 := by
        change (s.bramInitPtrReg.toNat + 1) % 2 ^ 10 = _
        omega
      rw [if_neg (by rw [beq_iff_eq]; exact hmax)]
      omega
  | queryReset _ _ hq | queryUpdate _ _ hq | handleReadOnlyReq _ hq | handleReadOnlyResp hq =>
    simp only [work, hq, length_cons, length_append, length_nil]
    omega
  | mergeReset _ he =>
    simp only [work, he, length_cons, length_append, length_nil]
    omega
  | @mergeUpdate e es old olds _ he =>
    have hle : (writeBackEntry old e.newEntry).toList.length ≤ 1 := by
      cases writeBackEntry old e.newEntry <;> simp
    simp only [work, he, length_cons, length_append, length_nil, length_map]
    omega
  | doBramWriteBack _ _ hq | takeResp hq | takeReadOnlyResp hq =>
    simp only [work, hq, length_cons]
    omega

end

variable {w : BitmapWindowStorage × BitmapHistory}

/-- The label is a rule of the module. -/
def BitmapLabel.isRule : BitmapLabel → Bool
  | bramInit | sendBramQueryReqAndGenOneHotBitmap | getBramQueryRespAndMergeThem | doBramWriteBack
  | handleReadOnlyReq | handleReadOnlyResp => true
  | _ => false

theorem PhaseInv.exists_enabled {s : BitmapWindowStorage} (hp : PhaseInv s) (hn : NotStuck s)
    (hpending : s.Pending) (hroom : s.respPipeOutQueue.length < 2) :
    ∃ l : BitmapLabel, l.isRule ∧ (s.step l).isSome := by
  rcases hp.phase with ⟨hb, h₁, hr, h₂⟩ | ⟨e, hb, h₁, hr, h₂⟩ | ⟨e, hb, h₁, hr, h₂⟩ | ⟨hb,
    h₁, hr, h₂⟩
  · cases hi : s.bramInitedReg with
    | false => exact ⟨.bramInit, rfl, by simp [BitmapWindowStorage.step,
        BitmapWindowStorage.bramInit, hi]⟩
    | true =>
      refine ⟨.sendBramQueryReqAndGenOneHotBitmap, rfl, ?_⟩
      simp only [BitmapWindowStorage.step, BitmapWindowStorage.sendBramQueryReqAndGenOneHotBitmap,
        hi, hb, h₁, hr]
      cases hreset : s.resetReqPipeInQ with
      | cons row rows => rfl
      | nil =>
        cases hreq : s.reqPipeInQueue with
        | cons req reqs => rfl
        | nil =>
          rcases hpending with h | h | h
          · exact absurd hreq h
          · exact absurd hreset h
          · rw [hb] at h
            cases h
  · refine ⟨.getBramQueryRespAndMergeThem, rfl, ?_⟩
    simp only [BitmapWindowStorage.step, BitmapWindowStorage.getBramQueryRespAndMergeThem,
      hp.inited hb, h₁, h₂, hr, hroom]
    cases e.isReset with
    | true => rfl
    | false =>
      simp only [Bool.false_eq_true, if_false]
      cases writeBackEntry (s.storage e.rowAddr) e.newEntry <;> rfl
  · refine ⟨.doBramWriteBack, rfl, ?_⟩
    simp only [BitmapWindowStorage.step, BitmapWindowStorage.doBramWriteBack, hp.inited hb, hb, h₂]
    rfl
  · rcases hn hb with h | h
    · exact absurd h₁ h
    · exact absurd h₂ h

/-- **The storage makes progress.** Every update has exactly one answer, in order; between two
requests the busy flag was cleared; while a request is pending and an answer can be written, a rule
of the module is enabled; and without further requests the module and the consumers of its answers
come to rest after at most `work` steps, with the busy flag cleared and every update answered. -/
structure Live (w : BitmapWindowStorage × BitmapHistory) : Prop where
  inOrder : ∃ answered waiting, w.2.requests = answered ++ waiting ∧
    List.Forall₂ Answers answered w.2.responses
  cleared : w.2.started = w.2.finished + if w.1.bitmapUpdateBusyReg then 1 else 0
  enabled : w.1.Pending → w.1.respPipeOutQueue.length < 2 →
    ∃ l : BitmapLabel, l.isRule ∧ (w.1.step l).isSome
  drains : ∀ ls w', Run bitmapStep (fun w l => l.isRequest = false ∧ NotStale w l) w ls w' →
    ls.length ≤ w.1.work ∧
      ((∀ l : BitmapLabel, l.isRequest = false → bitmapStep w' l = none) →
        w'.1.bitmapUpdateBusyReg = false ∧ w'.1.reqPipeInQueue = [] ∧ w'.1.resetReqPipeInQ = [] ∧
        List.Forall₂ Answers w'.2.requests w'.2.responses)

/-- What a run without stale updates keeps. -/
structure LiveInv (w : BitmapWindowStorage × BitmapHistory) : Prop where
  phase : PhaseInv w.1
  order : OrderInv w.1 w.2
  notStuck : NotStuck w.1

theorem LiveInv.step {w' : BitmapWindowStorage × BitmapHistory} {l : BitmapLabel} (hi : LiveInv w)
    (hok : NotStale w l) (hs : bitmapStep w l = some w') : LiveInv w' := by
  obtain ⟨s', hs', rfl⟩ := map_eq_some_iff.1 hs
  exact ⟨hi.phase.step hs', hi.order.step hs', hi.notStuck.step hok hs'⟩

theorem LiveInv.at_rest (hi : LiveInv w)
    (hrest : ∀ l : BitmapLabel, l.isRequest = false → bitmapStep w l = none) :
    w.1.bitmapUpdateBusyReg = false ∧ w.1.reqPipeInQueue = [] ∧ w.1.resetReqPipeInQ = [] ∧
      List.Forall₂ Answers w.2.requests w.2.responses := by
  have hstep : ∀ l : BitmapLabel, l.isRequest = false → w.1.step l = none := fun l hl =>
    map_eq_none_iff.1 (hrest l hl)
  have hroom : w.1.respPipeOutQueue = [] := by
    have := hstep .takeResp rfl
    simp only [BitmapWindowStorage.step, BitmapWindowStorage.takeResp] at this
    split at this
    · assumption
    · cases this
  have hnot : ¬ w.1.Pending := fun hpending => by
    obtain ⟨l, hl, hsome⟩ := hi.phase.exists_enabled hi.notStuck hpending
      (by rw [hroom]; exact Nat.two_pos)
    rw [hstep l (by cases l <;> first | rfl | cases hl)] at hsome
    cases hsome
  simp only [BitmapWindowStorage.Pending, not_or, not_not, Bool.not_eq_true] at hnot
  obtain ⟨hreq, hreset, hb⟩ := hnot
  refine ⟨hb, hreq, hreset, ?_⟩
  obtain ⟨answered, inFlight, heq, hans, hone⟩ := hi.order.order
  rw [(hi.phase.idle_of_not_busy hb).1] at hone
  rw [map_eq_nil_iff.1 hone.symm, hreq, append_nil, append_nil] at heq
  rw [heq]
  exact hans

theorem LiveInv.live (hi : LiveInv w) : Live w := by
  refine ⟨?_, hi.order.counts, hi.phase.exists_enabled hi.notStuck, fun ls w' hrun => ?_⟩
  · obtain ⟨answered, inFlight, heq, hans, -⟩ := hi.order.order
    exact ⟨answered, inFlight ++ w.1.reqPipeInQueue, by rw [heq, append_assoc], hans⟩
  · obtain ⟨hi', hlen⟩ := hrun.invariant (I := fun ls w' => LiveInv w' ∧
      ls.length + w'.1.work ≤ w.1.work) ⟨hi, by simp⟩ fun ls w₁ l w₂ ⟨hi₁, hlen⟩ hok hs => by
        obtain ⟨s', hs', rfl⟩ := map_eq_some_iff.1 hs
        have hlt := BitmapWindowStorage.work_step hok.1 hs'
        refine ⟨hi₁.step hok.2 hs, ?_⟩
        rw [length_append, length_singleton]
        dsimp only
        omega
    exact ⟨by omega, hi'.at_rest⟩

/-- **In every run in which no stale update is merged, the storage makes progress.** -/
theorem run_live {s₀ : BitmapWindowStorage} {ls : List BitmapLabel}
    {w : BitmapWindowStorage × BitmapHistory} (hs₀ : s₀.Initial)
    (hrun : Run bitmapStep NotStale (s₀, {}) ls w) : Live w := by
  refine (hrun.invariant (I := fun _ w => LiveInv w) ?_ fun _ _ _ _ hi hok hs =>
    hi.step hok hs).live
  rw [hs₀]
  exact ⟨phaseInv_init rfl, ⟨⟨[], [], rfl, .nil, rfl⟩, rfl⟩, fun hb => by cases hb⟩

def powerUp : BitmapWindowStorage := { storage := fun _ => resetValue }

theorem powerUp_initial : powerUp.Initial := rfl

def clearMemory : List BitmapLabel := List.replicate 1024 .bramInit

/-- An update passes the three stages, and its answer is taken. -/
def passUpdate (psn : ℕ) : List BitmapLabel :=
  [.update ⟨0, BitVec.ofNat 24 psn⟩, .sendBramQueryReqAndGenOneHotBitmap,
    .getBramQueryRespAndMergeThem, .doBramWriteBack, .takeResp]

/-- Two updates in order are answered. -/
theorem run_live_two_updates :
    ∃ w, Run bitmapStep NotStale (powerUp, {}) (clearMemory ++ passUpdate 0 ++ passUpdate 1) w ∧
      w.2.responses.length = 2 ∧ w.1.bitmapUpdateBusyReg = false ∧ Live w :=
  ⟨_, .of_isSome (by decide +kernel), by decide +kernel, by decide +kernel,
    run_live powerUp_initial (.of_isSome _)⟩

/-- After an update that is 62 strides ahead, one of the first stride is stale: it is answered, but
the busy flag stays set and no rule is enabled. -/
theorem run_stale_update_blocks :
    ∃ w, Run bitmapStep (fun _ _ => True) (powerUp, {}) (clearMemory ++ passUpdate 1000 ++
        [.update ⟨0, 0⟩, .sendBramQueryReqAndGenOneHotBitmap, .getBramQueryRespAndMergeThem,
          .takeResp]) w ∧
      w.1.bitmapUpdateBusyReg = true ∧ (∀ l : BitmapLabel, l.isRequest = false →
        w.1.step l = none) ∧
      ¬ Live w := by
  have h : (exec bitmapStep (fun _ _ => True) (powerUp, {}) (clearMemory ++ passUpdate 1000 ++
      [.update ⟨0, 0⟩, .sendBramQueryReqAndGenOneHotBitmap, .getBramQueryRespAndMergeThem,
        .takeResp])).map (fun w => (w.1.bitmapUpdateBusyReg, w.1.bramInitedReg,
          [w.1.stageOneToTwoPipelineQueue.length, w.1.stageTwoToThreePipelineQueue.length,
            w.1.respPipeOutQueue.length, w.1.readOnlyReqPipeInQueue.length,
            w.1.readOnlyRespPipelineQueue.length, w.1.readOnlyRespPipeOutQueue.length])) =
        some (true, true, [0, 0, 0, 0, 0, 0]) := by
    decide +kernel
  obtain ⟨w, hw, hfacts⟩ := map_eq_some_iff.1 h
  simp only [Prod.mk.injEq, cons.injEq, length_eq_zero_iff] at hfacts
  obtain ⟨hb, hi, h₁, h₂, hr, hro, hrp, hrr⟩ := hfacts
  have hrest : ∀ l : BitmapLabel, l.isRequest = false → w.1.step l = none := by
    intro l hl
    cases l with
    | update _ | reset _ | readOnly _ => cases hl
    | bramInit => simp [BitmapWindowStorage.step, BitmapWindowStorage.bramInit, hi]
    | sendBramQueryReqAndGenOneHotBitmap =>
      simp [BitmapWindowStorage.step, BitmapWindowStorage.sendBramQueryReqAndGenOneHotBitmap, hb]
    | getBramQueryRespAndMergeThem =>
      simp [BitmapWindowStorage.step, BitmapWindowStorage.getBramQueryRespAndMergeThem, h₁]
    | doBramWriteBack => simp [BitmapWindowStorage.step, BitmapWindowStorage.doBramWriteBack, h₂]
    | handleReadOnlyReq => simp [BitmapWindowStorage.step, BitmapWindowStorage.handleReadOnlyReq,
        hro]
    | handleReadOnlyResp => simp [BitmapWindowStorage.step, BitmapWindowStorage.handleReadOnlyResp,
        hrp]
    | takeResp => simp [BitmapWindowStorage.step, BitmapWindowStorage.takeResp, hr]
    | takeReadOnlyResp => simp [BitmapWindowStorage.step, BitmapWindowStorage.takeReadOnlyResp, hrr]
  refine ⟨w, Run.of_exec hw, hb, hrest, fun hlive => ?_⟩
  obtain ⟨l, hl, hsome⟩ := hlive.enabled (Or.inr (Or.inr hb)) (by rw [hr]; exact Nat.two_pos)
  rw [hrest l (by cases l <;> first | rfl | cases hl)] at hsome
  cases hsome

/-! ## Deadlock -/

section

variable {s s' : BitmapWindowStorage} {h : BitmapHistory} {l : BitmapLabel}

theorem not_notStuck_step (hn : ¬ NotStuck s) (hs : s.step l = some s') :
    ¬ NotStuck s' ∧ (h.record s l).responses = h.responses := by
  simp only [NotStuck, Classical.not_imp, not_or, not_not] at hn ⊢
  obtain ⟨hb, h₁, h₂⟩ := hn
  cases BitmapWindowStorage.fires_of_step hs with
  | queryReset _ hb' | queryUpdate _ hb' => simp [hb] at hb'
  | mergeReset _ he | mergeUpdate _ he => simp [h₁] at he
  | doBramWriteBack _ _ he => simp [h₂] at he
  | _ => exact ⟨⟨hb, h₁, h₂⟩, rfl⟩

theorem PhaseInv.notStale (hp : PhaseInv s) (hs : s.step l = some s') (hn : NotStuck s') :
    NotStale (s, h) l := by
  cases BitmapWindowStorage.fires_of_step hs with
  | mergeReset _ he hr =>
    intro e' he' old ho
    simp [(hp.queried_of_cons he).2.2.2, hr] at ho
  | mergeUpdate _ he _ ho =>
    obtain ⟨hb, rfl, h₂, -⟩ := hp.queried_of_cons he
    intro e' he' old' ho'
    cases he.symm ▸ he'
    cases ho.symm ▸ ho'
    rcases hn hb with hn | hn
    · exact absurd rfl hn
    · by_contra hstale
      exact hn (by simp [h₂, writeBackEntry, hstale])
  | _ => trivial

/-- **Exactly the stale updates block the storage**, and for ever: it is stuck after a run in which
one was merged, and then answers no update, whatever happens. -/
theorem run_notStuck_iff {s₀ : BitmapWindowStorage} {ls : List BitmapLabel}
    {w : BitmapWindowStorage × BitmapHistory} (hs₀ : s₀.Initial)
    (hrun : Run bitmapStep (fun _ _ => True) (s₀, {}) ls w) :
    (NotStuck w.1 ↔ Run bitmapStep NotStale (s₀, {}) ls w) ∧
      (¬ NotStuck w.1 → ∀ ls' w', Run bitmapStep (fun _ _ => True) w ls' w' →
        ¬ NotStuck w'.1 ∧ w'.2.responses = w.2.responses) := by
  refine ⟨⟨?_, fun h => ?_⟩, fun hn ls' w' h => ?_⟩
  · refine (hrun.invariant (I := fun ls w => PhaseInv w.1 ∧
      (NotStuck w.1 → Run bitmapStep NotStale (s₀, {}) ls w)) ⟨phaseInv_init hs₀, fun _ =>
      .nil⟩ ?_).2
    rintro ls w l w' ⟨hp, ih⟩ - hs
    obtain ⟨s', hs', rfl⟩ := map_eq_some_iff.1 hs
    refine ⟨hp.step hs', fun hn => .snoc (ih ?_) (hp.notStale hs' hn) hs⟩
    by_contra hstuck
    exact (not_notStuck_step (h := w.2) hstuck hs').1 hn
  · refine h.invariant (I := fun _ w => NotStuck w.1) ?_ fun _ w _ _ hi hok hs => ?_
    · rw [hs₀]
      rintro ⟨⟩
    · obtain ⟨s', hs', rfl⟩ := map_eq_some_iff.1 hs
      exact hi.step hok hs'
  · refine h.invariant (I := fun _ w' => ¬ NotStuck w'.1 ∧ w'.2.responses = w.2.responses)
      ⟨hn, rfl⟩ ?_
    rintro - w₁ l w₂ ⟨hi, hr⟩ - hs
    obtain ⟨s', hs', rfl⟩ := map_eq_some_iff.1 hs
    exact (not_notStuck_step hi hs').imp_right (·.trans hr)

end

/-- After an update far ahead, one of the first stride is merged, and none is answered again. -/
theorem run_notStuck_iff_stale : ∃ w, Run bitmapStep (fun _ _ => True) (powerUp, {})
      (clearMemory ++ passUpdate 1000 ++ (passUpdate 0).take 3) w ∧
    ∀ ls' w', Run bitmapStep (fun _ _ => True) w ls' w' → w'.2.responses = w.2.responses :=
  ⟨_, .of_isSome (by decide +kernel), fun ls' w' h =>
    ((run_notStuck_iff powerUp_initial (.of_isSome _)).2 (by unfold NotStuck; decide +kernel)
      ls' w' h).2⟩

end OpenRdma.Rtl
