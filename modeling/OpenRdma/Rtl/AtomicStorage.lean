import Mathlib.Data.BitVec
import Mathlib.Data.List.Basic
import Mathlib.Logic.Function.Basic

/-!
# The storage with atomic updates

The storage keeps a value for each queue pair. An update reads the value from memory in the first
stage, computes the new value in the second and writes it back in the third. Several updates may be
on their way, so the second stage looks up the newest value in a buffer of the last six results
first. The FIFOs between the stages hold one entry; the buffer is right because of that.

Every update is applied to the value the one before it left (`AtomicInv.merge`).
-/

namespace OpenRdma.Rtl

open List Option Function

variable {α β : Type*}

/-! ## The module -/

/-- The function of the storage: the value after an update, and the value after a reset, whatever it
was before. -/
structure UpdateFunc (α β : Type*) where
  update : α → β → α
  resetValue : α

structure AtomicUpdateStorageUpdateReq (β : Type*) where
  rowAddr : BitVec 10
  reqData : β
  deriving DecidableEq

structure AtomicUpdateStorageUpdateResp (α : Type*) where
  rowAddr : BitVec 10
  oldValue : α
  newValue : α
  deriving DecidableEq

/-- From the first stage to the second. -/
structure AtomicUpdateStorageStageOneToTwoPipelineEntry (β : Type*) where
  rowAddr : BitVec 10
  reqData : β
  isReset : Bool
  deriving DecidableEq

/-- From the second stage to the third. -/
structure AtomicUpdateStorageStageTwoToThreePipelineEntry (α : Type*) where
  rowAddr : BitVec 10
  newEntry : α
  deriving DecidableEq

/-- A buffer of the last entries, the newest first. -/
abbrev PrioritySearchBuffer (α : Type*) := List (BitVec 10 × α)

namespace PrioritySearchBuffer

variable {buffer : PrioritySearchBuffer α} {tag : BitVec 10}

/-- Enter an element. If there are `depth` already, the oldest is dropped. -/
def enq (buffer : PrioritySearchBuffer α) (depth : ℕ) (tag : BitVec 10) (value : α) :
    PrioritySearchBuffer α :=
  ((tag, value) :: buffer).take depth

/-- The newest value with the tag. -/
def search (buffer : PrioritySearchBuffer α) (tag : BitVec 10) : Option α :=
  (buffer.find? fun entry => entry.1 == tag).map (·.2)

theorem search_cons_self (buffer : PrioritySearchBuffer α) (tag : BitVec 10) (value : α) :
    search ((tag, value) :: buffer) tag = some value := by
  rw [search, find?_cons_of_pos (by simp)]
  rfl

theorem search_cons_of_ne {tag' : BitVec 10} {value : α} (h : tag' ≠ tag) :
    search ((tag, value) :: buffer) tag' = search buffer tag' := by
  rw [search, find?_cons_of_neg (by simpa using h.symm)]
  rfl

theorem search_enq_self (buffer : PrioritySearchBuffer α) (n : ℕ) (tag : BitVec 10) (value : α) :
    search (enq buffer (n + 1) tag value) tag = some value := search_cons_self _ tag value

theorem search_take {n : ℕ} {value : α} (h : search (buffer.take n) tag = some value) :
    search buffer tag = some value := by
  obtain ⟨entry, hfind, rfl⟩ := map_eq_some_iff.1 h
  have happend : (buffer.take n ++ buffer.drop n).find? (fun entry => entry.1 == tag) =
      ((buffer.take n).find? _).or ((buffer.drop n).find? _) := find?_append
  rw [take_append_drop, hfind] at happend
  rw [search, happend]
  rfl

theorem search_of_enq {n : ℕ} {tag' : BitVec 10}
    {value value' : α} (hne : tag' ≠ tag) (h : search (enq buffer n tag value) tag' = some value') :
    search buffer tag' = some value' := by
  have hcons := search_take h
  rwa [search_cons_of_ne hne] at hcons

end PrioritySearchBuffer

/-- The registers, FIFOs and memory of the storage. Both copies of the memory have the same
content. -/
structure AtomicUpdateStorage (α β : Type*) where
  bramInitedReg : Bool := false
  bramInitPtrReg : BitVec 10 := 0
  storage : BitVec 10 → α
  storageForwardBuffer : PrioritySearchBuffer α := []
  reqPipeInQueue : List (AtomicUpdateStorageUpdateReq β) := []
  resetReqPipeInQ : List (BitVec 10) := []
  readRespPipeOut : List α := []
  stageOneToTwoPipelineQueue : List (AtomicUpdateStorageStageOneToTwoPipelineEntry β) := []
  stageTwoToThreePipelineQueue : List (AtomicUpdateStorageStageTwoToThreePipelineEntry α) := []
  respPipeOutQueue : List (AtomicUpdateStorageUpdateResp α) := []
  readOnlyReqPipeInQueue : List (BitVec 10) := []
  readOnlyRespPipelineQueue : List α := []
  readOnlyRespPipeOutQueue : List α := []

namespace AtomicUpdateStorage

/-- After power-up the memory is cleared row by row. -/
def bramInit (f : UpdateFunc α β) (s : AtomicUpdateStorage α β) :
    Option (AtomicUpdateStorage α β) :=
  if s.bramInitedReg then none
  else
    some { s with
      bramInitedReg := s.bramInitPtrReg == BitVec.allOnes 10
      storage := update s.storage s.bramInitPtrReg f.resetValue
      bramInitPtrReg := s.bramInitPtrReg + 1 }

/-- The first stage takes an update, whose value is read, or, if there is none, a reset. -/
def sendBramQueryReq [Inhabited β] (s : AtomicUpdateStorage α β) :
    Option (AtomicUpdateStorage α β) :=
  if s.bramInitedReg && s.stageOneToTwoPipelineQueue.isEmpty then
    match s.reqPipeInQueue, s.resetReqPipeInQ with
    | req :: reqs, _ =>
      if s.readRespPipeOut.length < 3 then
        some { s with
          reqPipeInQueue := reqs
          readRespPipeOut := s.readRespPipeOut ++ [s.storage req.rowAddr]
          stageOneToTwoPipelineQueue := s.stageOneToTwoPipelineQueue ++
            [⟨req.rowAddr, req.reqData, false⟩] }
      else none
    | [], row :: rows =>
      some { s with
        resetReqPipeInQ := rows
        stageOneToTwoPipelineQueue := s.stageOneToTwoPipelineQueue ++ [⟨row, default, true⟩] }
    | [], [] => none
  else none

/-- The second stage computes the new value from the newest one and answers an update. -/
def getBramQueryRespAndMergeThem (f : UpdateFunc α β) (s : AtomicUpdateStorage α β) :
    Option (AtomicUpdateStorage α β) :=
  if s.bramInitedReg && s.stageTwoToThreePipelineQueue.isEmpty then
    match s.stageOneToTwoPipelineQueue with
    | [] => none
    | e :: es =>
      if e.isReset then
        some { s with
          stageOneToTwoPipelineQueue := es
          stageTwoToThreePipelineQueue :=
            s.stageTwoToThreePipelineQueue ++ [⟨e.rowAddr, f.resetValue⟩]
          storageForwardBuffer := s.storageForwardBuffer.enq 6 e.rowAddr f.resetValue }
      else
        match s.readRespPipeOut with
        | [] => none
        | entryFromBram :: entries =>
          if s.respPipeOutQueue.length < 2 then
            let oldEntry := (s.storageForwardBuffer.search e.rowAddr).getD entryFromBram
            let newEntry := f.update oldEntry e.reqData
            some { s with
              stageOneToTwoPipelineQueue := es
              readRespPipeOut := entries
              respPipeOutQueue := s.respPipeOutQueue ++ [⟨e.rowAddr, oldEntry, newEntry⟩]
              stageTwoToThreePipelineQueue :=
                s.stageTwoToThreePipelineQueue ++ [⟨e.rowAddr, newEntry⟩]
              storageForwardBuffer := s.storageForwardBuffer.enq 6 e.rowAddr newEntry }
          else none
  else none

/-- The third stage writes the value back. -/
def doBramWriteBack (s : AtomicUpdateStorage α β) : Option (AtomicUpdateStorage α β) :=
  if s.bramInitedReg then
    match s.stageTwoToThreePipelineQueue with
    | [] => none
    | e :: es =>
      some { s with
        stageTwoToThreePipelineQueue := es
        storage := update s.storage e.rowAddr e.newEntry }
  else none

/-- Reads the row of a read-only request. -/
def handleReadOnlyReq (s : AtomicUpdateStorage α β) : Option (AtomicUpdateStorage α β) :=
  match s.readOnlyReqPipeInQueue with
  | [] => none
  | row :: rows =>
    if s.bramInitedReg && s.readOnlyRespPipelineQueue.isEmpty then
      some { s with
        readOnlyReqPipeInQueue := rows
        readOnlyRespPipelineQueue := s.readOnlyRespPipelineQueue ++ [s.storage row] }
    else none

def handleReadOnlyResp (s : AtomicUpdateStorage α β) : Option (AtomicUpdateStorage α β) :=
  match s.readOnlyRespPipelineQueue with
  | [] => none
  | v :: vs =>
    if s.bramInitedReg && s.readOnlyRespPipeOutQueue.length < 2 then
      some { s with
        readOnlyRespPipelineQueue := vs
        readOnlyRespPipeOutQueue := s.readOnlyRespPipeOutQueue ++ [v] }
    else none

/-! The methods other modules call. -/

def enqReq (s : AtomicUpdateStorage α β) (req : AtomicUpdateStorageUpdateReq β) :
    AtomicUpdateStorage α β :=
  { s with reqPipeInQueue := s.reqPipeInQueue ++ [req] }

def enqReset (s : AtomicUpdateStorage α β) (row : BitVec 10) : AtomicUpdateStorage α β :=
  { s with resetReqPipeInQ := s.resetReqPipeInQ ++ [row] }

def enqReadOnly (s : AtomicUpdateStorage α β) (row : BitVec 10) : AtomicUpdateStorage α β :=
  { s with readOnlyReqPipeInQueue := s.readOnlyReqPipeInQueue ++ [row] }

def deqResp (s : AtomicUpdateStorage α β) : AtomicUpdateStorage α β :=
  { s with respPipeOutQueue := s.respPipeOutQueue.tail }

def deqReadOnlyResp (s : AtomicUpdateStorage α β) : AtomicUpdateStorage α β :=
  { s with readOnlyRespPipeOutQueue := s.readOnlyRespPipeOutQueue.tail }

end AtomicUpdateStorage

/-- The rules of the storage. -/
inductive AtomicRule
  | bramInit
  | sendBramQueryReq
  | getBramQueryRespAndMergeThem
  | doBramWriteBack
  | handleReadOnlyReq
  | handleReadOnlyResp
  deriving DecidableEq

def AtomicUpdateStorage.rule [Inhabited β] (f : UpdateFunc α β) (s : AtomicUpdateStorage α β) :
    AtomicRule → Option (AtomicUpdateStorage α β)
  | .bramInit => s.bramInit f
  | .sendBramQueryReq => s.sendBramQueryReq
  | .getBramQueryRespAndMergeThem => s.getBramQueryRespAndMergeThem f
  | .doBramWriteBack => s.doBramWriteBack
  | .handleReadOnlyReq => s.handleReadOnlyReq
  | .handleReadOnlyResp => s.handleReadOnlyResp

/-- The state after power-up: the memory has any content. -/
def AtomicUpdateStorage.Initial (s : AtomicUpdateStorage α β) : Prop := s = { storage := s.storage }

/-! ## The rules, inverted -/

namespace AtomicUpdateStorage

variable {f : UpdateFunc α β} {s s' : AtomicUpdateStorage α β}

theorem bramInit_eq (h : s.bramInit f = some s') : s.bramInitedReg = false ∧ s' = { s with
      bramInitedReg := s.bramInitPtrReg == BitVec.allOnes 10
      storage := update s.storage s.bramInitPtrReg f.resetValue
      bramInitPtrReg := s.bramInitPtrReg + 1 } := by
  unfold bramInit at h
  split_ifs at h with hi
  exact ⟨by simpa using hi, (Option.some.inj h).symm⟩

theorem sendBramQueryReq_eq [Inhabited β] (h : s.sendBramQueryReq = some s') :
    s.bramInitedReg = true ∧ s.stageOneToTwoPipelineQueue = [] ∧
      ((∃ req reqs, s.reqPipeInQueue = req :: reqs ∧ s' = { s with
          reqPipeInQueue := reqs
          readRespPipeOut := s.readRespPipeOut ++ [s.storage req.rowAddr]
          stageOneToTwoPipelineQueue := [⟨req.rowAddr, req.reqData, false⟩] }) ∨
        ∃ row rows, s.reqPipeInQueue = [] ∧ s.resetReqPipeInQ = row :: rows ∧ s' = { s with
          resetReqPipeInQ := rows
          stageOneToTwoPipelineQueue := [⟨row, default, true⟩] }) := by
  obtain ⟨hc, h⟩ := Option.ite_none_right_eq_some.1 h
  simp only [Bool.and_eq_true, List.isEmpty_iff] at hc
  obtain ⟨hi, h₁⟩ := hc
  refine ⟨hi, h₁, ?_⟩
  simp only [h₁] at h
  split at h
  · exact Or.inl ⟨_, _, ‹_›, (Option.some.inj (Option.ite_none_right_eq_some.1 h).2).symm⟩
  · exact Or.inr ⟨_, _, ‹_›, ‹_›, (Option.some.inj h).symm⟩
  · cases h

theorem getBramQueryRespAndMergeThem_eq (h : s.getBramQueryRespAndMergeThem f = some s') :
    s.bramInitedReg = true ∧ s.stageTwoToThreePipelineQueue = [] ∧
      ∃ e es, s.stageOneToTwoPipelineQueue = e :: es ∧
        (e.isReset = true ∧ s' = { s with
            stageOneToTwoPipelineQueue := es
            stageTwoToThreePipelineQueue := [⟨e.rowAddr, f.resetValue⟩]
            storageForwardBuffer := s.storageForwardBuffer.enq 6 e.rowAddr f.resetValue } ∨
          e.isReset = false ∧ ∃ v vs old, s.readRespPipeOut = v :: vs ∧
            old = (s.storageForwardBuffer.search e.rowAddr).getD v ∧ s' = { s with
              stageOneToTwoPipelineQueue := es
              readRespPipeOut := vs
              respPipeOutQueue := s.respPipeOutQueue ++ [⟨e.rowAddr, old, f.update old e.reqData⟩]
              stageTwoToThreePipelineQueue := [⟨e.rowAddr, f.update old e.reqData⟩]
              storageForwardBuffer :=
                s.storageForwardBuffer.enq 6 e.rowAddr (f.update old e.reqData) }) := by
  obtain ⟨hc, h⟩ := Option.ite_none_right_eq_some.1 h
  simp only [Bool.and_eq_true, List.isEmpty_iff] at hc
  obtain ⟨hi, h₂⟩ := hc
  refine ⟨hi, h₂, ?_⟩
  simp only [h₂] at h
  split at h
  · cases h
  · rename_i e es he
    refine ⟨e, es, he, ?_⟩
    by_cases hr : e.isReset = true
    · rw [if_pos hr] at h
      exact Or.inl ⟨hr, (Option.some.inj h).symm⟩
    · rw [if_neg hr] at h
      refine Or.inr ⟨by simpa using hr, ?_⟩
      split at h
      · cases h
      · exact ⟨_, _, _, ‹_›, rfl, (Option.some.inj (Option.ite_none_right_eq_some.1 h).2).symm⟩

theorem doBramWriteBack_eq (h : s.doBramWriteBack = some s') :
    s.bramInitedReg = true ∧ ∃ e es, s.stageTwoToThreePipelineQueue = e :: es ∧ s' = { s with
      stageTwoToThreePipelineQueue := es
      storage := update s.storage e.rowAddr e.newEntry } := by
  obtain ⟨hi, h⟩ := Option.ite_none_right_eq_some.1 h
  refine ⟨hi, ?_⟩
  split at h
  · cases h
  · exact ⟨_, _, ‹_›, (Option.some.inj h).symm⟩

theorem handleReadOnlyReq_eq (h : s.handleReadOnlyReq = some s') :
    ∃ row rows, s.readOnlyReqPipeInQueue = row :: rows ∧ s' = { s with
      readOnlyReqPipeInQueue := rows
      readOnlyRespPipelineQueue := s.readOnlyRespPipelineQueue ++ [s.storage row] } := by
  unfold handleReadOnlyReq at h
  split at h
  · cases h
  · exact ⟨_, _, ‹_›, (Option.some.inj (Option.ite_none_right_eq_some.1 h).2).symm⟩

theorem handleReadOnlyResp_eq (h : s.handleReadOnlyResp = some s') :
    ∃ v vs, s.readOnlyRespPipelineQueue = v :: vs ∧ s' = { s with
      readOnlyRespPipelineQueue := vs
      readOnlyRespPipeOutQueue := s.readOnlyRespPipeOutQueue ++ [v] } := by
  unfold handleReadOnlyResp at h
  split at h
  · cases h
  · exact ⟨_, _, ‹_›, (Option.some.inj (Option.ite_none_right_eq_some.1 h).2).symm⟩

/-! ## The newest values -/

/-- The newest value of a row: the one to be written back, or the one in memory. -/
def current (s : AtomicUpdateStorage α β) (row : BitVec 10) : α :=
  ((s.stageTwoToThreePipelineQueue.find? fun e => e.rowAddr == row).map (·.newEntry)).getD
    (s.storage row)

/-- The requests that are not answered. -/
def pending (s : AtomicUpdateStorage α β) : List (AtomicUpdateStorageUpdateReq β) :=
  (s.stageOneToTwoPipelineQueue.filter (!·.isReset)).map (fun e => ⟨e.rowAddr, e.reqData⟩) ++
    s.reqPipeInQueue

/-- The rows whose reset is requested and not done. -/
def pendingResets (s : AtomicUpdateStorage α β) : List (BitVec 10) :=
  (s.stageOneToTwoPipelineQueue.filter (·.isReset)).map (·.rowAddr) ++ s.resetReqPipeInQ

theorem current_of_nil (h : s.stageTwoToThreePipelineQueue = []) : s.current = s.storage := by
  funext row
  rw [current, h]
  rfl

theorem current_of_singleton {e : AtomicUpdateStorageStageTwoToThreePipelineEntry α}
    (h : s.stageTwoToThreePipelineQueue = [e]) :
    s.current = update s.storage e.rowAddr e.newEntry := by
  funext row
  rw [current, h, find?_singleton]
  by_cases hrow : e.rowAddr = row
  · rw [if_pos (by simpa using hrow), ← hrow, update_self]
    rfl
  · rw [if_neg (by simpa using hrow), update_of_ne (Ne.symm hrow)]
    rfl

end AtomicUpdateStorage

open AtomicUpdateStorage

/-- At most one entry is in each stage. The buffer holds newest values only, among them the one to
be written back; the value read for an update is the newest if the buffer has none. -/
structure AtomicInv (s : AtomicUpdateStorage α β) : Prop where
  stageOne : s.stageOneToTwoPipelineQueue = [] ∧ s.readRespPipeOut = [] ∨
    ∃ e, s.stageOneToTwoPipelineQueue = [e] ∧
      (e.isReset = true ∧ s.readRespPipeOut = [] ∨
        e.isReset = false ∧ ∃ v, s.readRespPipeOut = [v] ∧
          (s.storageForwardBuffer.search e.rowAddr).getD v = s.current e.rowAddr)
  stageTwo : s.stageTwoToThreePipelineQueue = [] ∨ ∃ e, s.stageTwoToThreePipelineQueue = [e] ∧
    s.storageForwardBuffer.search e.rowAddr = some e.newEntry
  newest : ∀ row v, s.storageForwardBuffer.search row = some v → s.current row = v
  idle : s.bramInitedReg = false → s.stageOneToTwoPipelineQueue = [] ∧
    s.stageTwoToThreePipelineQueue = [] ∧ s.storageForwardBuffer = [] ∧ s.respPipeOutQueue = []

theorem atomicInv_init {s : AtomicUpdateStorage α β} (hs : s.Initial) : AtomicInv s := by
  rw [hs]
  exact ⟨Or.inl ⟨rfl, rfl⟩, Or.inl rfl, fun _ _ h => (by cases h), fun _ => ⟨rfl, rfl, rfl, rfl⟩⟩

/-- What a rule does to the updates not answered, the answers and the newest values. -/
inductive AtomicEffect (f : UpdateFunc α β) (s s' : AtomicUpdateStorage α β) : Prop
  | quiet (hinited : s'.bramInitedReg = s.bramInitedReg) (hptr : s'.bramInitPtrReg =
      s.bramInitPtrReg) (hpending : s'.pending = s.pending) (hresp :
      s'.respPipeOutQueue = s.respPipeOutQueue) (hcurrent : s'.current = s.current)
  | init (hinited : s.bramInitedReg = false)
      (hs' : s'.bramInitedReg = (s.bramInitPtrReg == BitVec.allOnes 10) ∧
        s'.bramInitPtrReg = s.bramInitPtrReg + 1)
      (hpending : s'.pending = s.pending) (hresp : s'.respPipeOutQueue = s.respPipeOutQueue)
      (hcurrent : s'.current = update s.current s.bramInitPtrReg f.resetValue)
  | merge (req : AtomicUpdateStorageUpdateReq β) (hinited : s.bramInitedReg = true)
      (hinited' : s'.bramInitedReg = true) (hpending : s.pending = req :: s'.pending)
      (hresp : s'.respPipeOutQueue = s.respPipeOutQueue ++
        [⟨req.rowAddr, s.current req.rowAddr, f.update (s.current req.rowAddr) req.reqData⟩])
      (hcurrent : s'.current = update s.current req.rowAddr
        (f.update (s.current req.rowAddr) req.reqData))
  | reset (row : BitVec 10) (hrow : row ∈ s.pendingResets) (hinited : s.bramInitedReg = true)
      (hinited' : s'.bramInitedReg = true) (hpending : s'.pending = s.pending)
      (hresp : s'.respPipeOutQueue = s.respPipeOutQueue)
      (hcurrent : s'.current = update s.current row f.resetValue)

section

variable {f : UpdateFunc α β} {s s' : AtomicUpdateStorage α β} (hi : AtomicInv s)
include hi

theorem AtomicInv.enter (s' : AtomicUpdateStorage α β) (h₂ : s.stageTwoToThreePipelineQueue = [])
    {row : BitVec 10} {v : α} (h₁' : s'.stageOneToTwoPipelineQueue = [] ∧ s'.readRespPipeOut = [])
    (h₂' : s'.stageTwoToThreePipelineQueue = [⟨row, v⟩])
    (hbuffer : s'.storageForwardBuffer = s.storageForwardBuffer.enq 6 row v)
    (hstorage : s'.storage = s.storage) (hinited : s'.bramInitedReg = true) :
    AtomicInv s' ∧ s'.current = update s.current row v := by
  have hcurrent : s'.current = update s.current row v := by
    rw [current_of_singleton h₂', hstorage, current_of_nil h₂]
  refine ⟨⟨Or.inl h₁', Or.inr ⟨_, h₂', ?_⟩, fun row' v' hsearch => ?_, fun hn => ?_⟩, hcurrent⟩
  · rw [hbuffer]
    exact PrioritySearchBuffer.search_enq_self _ 5 row v
  · rw [hcurrent]
    rw [hbuffer] at hsearch
    by_cases hrow : row' = row
    · rw [hrow, PrioritySearchBuffer.search_enq_self] at hsearch
      rw [hrow, update_self]
      exact Option.some.inj hsearch
    · rw [update_of_ne hrow]
      exact hi.newest _ _ (PrioritySearchBuffer.search_of_enq hrow hsearch)
  · rw [hinited] at hn
    cases hn

theorem AtomicInv.getD_storage (row : BitVec 10) :
    (s.storageForwardBuffer.search row).getD (s.storage row) = s.current row := by
  cases hsearch : s.storageForwardBuffer.search row with
  | some v => exact (hi.newest row v hsearch).symm
  | none =>
    rcases hi.stageTwo with h₂ | ⟨e, h₂, he⟩
    · rw [current_of_nil h₂]
      rfl
    · have hne : row ≠ e.rowAddr := fun heq => by
        rw [← heq, hsearch] at he
        cases he
      rw [current_of_singleton h₂, update_of_ne hne]
      rfl

theorem AtomicInv.enqReq (req : AtomicUpdateStorageUpdateReq β) : AtomicInv (s.enqReq req) :=
  ⟨hi.stageOne, hi.stageTwo, hi.newest, hi.idle⟩

theorem AtomicInv.enqReset (row : BitVec 10) : AtomicInv (s.enqReset row) :=
  ⟨hi.stageOne, hi.stageTwo, hi.newest, hi.idle⟩

theorem AtomicInv.enqReadOnly (row : BitVec 10) : AtomicInv (s.enqReadOnly row) :=
  ⟨hi.stageOne, hi.stageTwo, hi.newest, hi.idle⟩

theorem AtomicInv.deqResp : AtomicInv s.deqResp := by
  refine ⟨hi.stageOne, hi.stageTwo, hi.newest, fun hn => ?_⟩
  obtain ⟨h₁, h₂, hbuffer, hresp⟩ := hi.idle hn
  exact ⟨h₁, h₂, hbuffer, by rw [AtomicUpdateStorage.deqResp, hresp]; rfl⟩

theorem AtomicInv.deqReadOnlyResp : AtomicInv s.deqReadOnlyResp :=
  ⟨hi.stageOne, hi.stageTwo, hi.newest, hi.idle⟩

/-- **Every rule keeps the newest values right**, and an update is applied to the newest one. -/
theorem AtomicInv.rule [Inhabited β] {r : AtomicRule} (hs : s.rule f r = some s') :
    AtomicInv s' ∧ AtomicEffect f s s' ∧ s'.pendingResets ⊆ s.pendingResets := by
  cases r with
  | bramInit =>
    obtain ⟨hn, rfl⟩ := bramInit_eq hs
    obtain ⟨h₁, h₂, hbuffer, hresp⟩ := hi.idle hn
    have hcurrent := current_of_nil (s := { s with
      bramInitedReg := s.bramInitPtrReg == BitVec.allOnes 10
      storage := update s.storage s.bramInitPtrReg f.resetValue
      bramInitPtrReg := s.bramInitPtrReg + 1 }) h₂
    refine ⟨⟨?_, Or.inl h₂, fun row v h => ?_, fun _ => ⟨h₁, h₂, hbuffer, hresp⟩⟩,
      .init hn ⟨rfl, rfl⟩ rfl rfl ?_, fun _ h => h⟩
    · rcases hi.stageOne with h | ⟨e, he, -⟩
      · exact Or.inl h
      · rw [h₁] at he
        cases he
    · rw [hbuffer] at h
      cases h
    · rw [hcurrent, current_of_nil h₂]
  | sendBramQueryReq =>
    obtain ⟨hinit, h₁, hcase⟩ := sendBramQueryReq_eq hs
    have hread : s.readRespPipeOut = [] := by
      rcases hi.stageOne with h | ⟨e, he, -⟩
      · exact h.2
      · rw [h₁] at he
        cases he
    rcases hcase with ⟨req, reqs, hreqs, rfl⟩ | ⟨row, rows, hreqs, hrows, rfl⟩
    · refine ⟨⟨Or.inr ⟨_, rfl, Or.inr ⟨rfl, s.storage req.rowAddr, ?_, hi.getD_storage _⟩⟩,
        hi.stageTwo, hi.newest, fun hn => absurd (hinit.symm.trans hn) (by decide)⟩,
        .quiet rfl rfl ?_ rfl rfl, fun row hrow => ?_⟩
      · rw [hread, List.nil_append]
      · rw [pending, pending, h₁, hreqs]
        rfl
      · rw [pendingResets, h₁]
        exact hrow
    · refine ⟨⟨Or.inr ⟨_, rfl, Or.inl ⟨rfl, hread⟩⟩, hi.stageTwo, hi.newest,
        fun hn => absurd (hinit.symm.trans hn) (by decide)⟩, .quiet rfl rfl ?_ rfl rfl,
        fun row hrow => ?_⟩
      · rw [pending, pending, h₁]
        rfl
      · rw [pendingResets, h₁, hrows]
        exact hrow
  | getBramQueryRespAndMergeThem =>
    obtain ⟨hinit, h₂, e, es, he, hcase⟩ := getBramQueryRespAndMergeThem_eq hs
    obtain ⟨rfl, hqueried⟩ : es = [] ∧ (e.isReset = true ∧ s.readRespPipeOut = [] ∨
        e.isReset = false ∧ ∃ v, s.readRespPipeOut = [v] ∧
          (s.storageForwardBuffer.search e.rowAddr).getD v = s.current e.rowAddr) := by
      rcases hi.stageOne with ⟨h₁, -⟩ | ⟨e', he', h⟩
      · rw [he] at h₁
        cases h₁
      · obtain ⟨rfl, rfl⟩ := cons.inj (he.symm.trans he')
        exact ⟨rfl, h⟩
    rcases hcase with ⟨hr, rfl⟩ | ⟨hr, v, vs, old, hv, rfl, rfl⟩
    · rcases hqueried with ⟨-, hread⟩ | ⟨hr', -⟩
      · obtain ⟨hinv, hcurrent⟩ := hi.enter { s with
          stageOneToTwoPipelineQueue := []
          stageTwoToThreePipelineQueue := [⟨e.rowAddr, f.resetValue⟩]
          storageForwardBuffer := s.storageForwardBuffer.enq 6 e.rowAddr f.resetValue }
          h₂ ⟨rfl, hread⟩ rfl rfl rfl hinit
        refine ⟨hinv, .reset e.rowAddr ?_ hinit hinit ?_ rfl hcurrent, fun row hrow => ?_⟩
        · rw [pendingResets, he, filter_cons_of_pos hr]
          exact mem_append_left _ mem_cons_self
        · rw [pending, pending, he, filter_cons_of_neg (by simp [hr])]
        · exact mem_append_right _ hrow
      · rw [hr] at hr'
        cases hr'
    · rcases hqueried with ⟨hr', -⟩ | ⟨-, v', hv', hold⟩
      · rw [hr] at hr'
        cases hr'
      obtain ⟨rfl, rfl⟩ := cons.inj (hv.symm.trans hv')
      rw [hold]
      obtain ⟨hinv, hcurrent⟩ := hi.enter { s with
        stageOneToTwoPipelineQueue := []
        readRespPipeOut := []
        respPipeOutQueue := s.respPipeOutQueue ++
          [⟨e.rowAddr, s.current e.rowAddr, f.update (s.current e.rowAddr) e.reqData⟩]
        stageTwoToThreePipelineQueue := [⟨e.rowAddr, f.update (s.current e.rowAddr) e.reqData⟩]
        storageForwardBuffer := s.storageForwardBuffer.enq 6 e.rowAddr
          (f.update (s.current e.rowAddr) e.reqData) }
        h₂ ⟨rfl, rfl⟩ rfl rfl rfl hinit
      refine ⟨hinv, .merge ⟨e.rowAddr, e.reqData⟩ hinit hinit ?_ rfl hcurrent, fun row hrow => ?_⟩
      · rw [pending, he, filter_cons_of_pos (by simp [hr])]
        rfl
      · exact mem_append_right _ hrow
  | doBramWriteBack =>
    obtain ⟨hinit, e, es, he, rfl⟩ := doBramWriteBack_eq hs
    obtain rfl : es = [] := by
      rcases hi.stageTwo with h₂ | ⟨e', h₂, -⟩
      · rw [he] at h₂
        cases h₂
      · exact (cons.inj (he.symm.trans h₂)).2
    have hcurrent : AtomicUpdateStorage.current { s with
        stageTwoToThreePipelineQueue := []
        storage := update s.storage e.rowAddr e.newEntry } = s.current := by
      rw [current_of_nil rfl, current_of_singleton he]
    refine ⟨⟨?_, Or.inl rfl, fun row v h => ?_, fun hn => absurd (hinit.symm.trans hn) (by decide)⟩,
      .quiet rfl rfl rfl rfl hcurrent, fun _ h => h⟩
    · rw [hcurrent]
      exact hi.stageOne
    · rw [hcurrent]
      exact hi.newest row v h
  | handleReadOnlyReq =>
    obtain ⟨row, rows, -, rfl⟩ := handleReadOnlyReq_eq hs
    exact ⟨⟨hi.stageOne, hi.stageTwo, hi.newest, hi.idle⟩, .quiet rfl rfl rfl rfl rfl, fun _ h => h⟩
  | handleReadOnlyResp =>
    obtain ⟨v, vs, -, rfl⟩ := handleReadOnlyResp_eq hs
    exact ⟨⟨hi.stageOne, hi.stageTwo, hi.newest, hi.idle⟩, .quiet rfl rfl rfl rfl rfl, fun _ h => h⟩

end

end OpenRdma.Rtl
