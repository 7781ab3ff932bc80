import Mathlib.Data.BitVec
import Mathlib.Logic.Function.Basic
import OpenRdma.Driver.Matching

/-!
# Registration of memory

The driver gives a memory region a key and a range of the page table. The index of the key comes
from a stack of free indices, and the range is the first one that is free. The card is told of a
region when it is registered, but not when it is deregistered.

The result of the system calls is given by `MrEnv`. `none` is a panic.
-/

namespace OpenRdma.Driver

open List Option

/-! ## Pages -/

/-- `PAGE_SIZE`, with the feature `page_size_2m`. -/
def pageSize : ℕ := 2 ^ 21

/-- `get_num_page`, on 64 bits. -/
def getNumPage (addr length : ℕ) : ℕ :=
  if length = 0 then 0
  else
    let last := min (addr + length) (2 ^ 64 - 1) - 1
    last / pageSize - addr / pageSize + 1

/-! ## Allocators -/

def maxMrCnt : ℕ := 8192

def lrKeyKeyPartWidth : ℕ := 8

def pgtLen : ℕ := 0x20000

/-- `PgtEntry`, a range of the page table. -/
structure PgtEntry where
  index : ℕ
  count : ℕ
  deriving DecidableEq

/-- `PgtAlloc`: the entries of the page table in use. -/
structure PgtAlloc where
  used : ℕ → Bool

namespace PgtAlloc

def new : PgtAlloc := ⟨fun _ => false⟩

/-- The loop of `PgtAlloc::alloc`: `n` entries from `i` on are left to look at, and the last `count`
ones, from `start` on, are free. -/
def search (used : ℕ → Bool) (len : ℕ) : ℕ → ℕ → ℕ → ℕ → Option ℕ
  | 0, _, _, _ => none
  | n + 1, i, count, start =>
    if used i then search used len n (i + 1) 0 start
    else
      let start := if count = 0 then i else start
      if count + 1 = len then some start else search used len n (i + 1) (count + 1) start

/-- The entries of a range are set. -/
def fill (used : ℕ → Bool) (start len : ℕ) (value : Bool) (i : ℕ) : Bool :=
  if start ≤ i ∧ i < start + len then value else used i

/-- The first range of this length that is free. -/
def alloc (a : PgtAlloc) (len : ℕ) : Option (ℕ × PgtAlloc) :=
  (search a.used len pgtLen 0 0 0).map fun start => (start, ⟨fill a.used start len true⟩)

/-- The range is free again, if it is in the table. -/
def dealloc (a : PgtAlloc) (index len : ℕ) : Option PgtAlloc :=
  if index + len ≤ pgtLen then some ⟨fill a.used index len false⟩ else none

/-- The `len` entries from `s` on are free, and there are so many. -/
def FreeRun (used : ℕ → Bool) (len bound s : ℕ) : Prop :=
  s + len ≤ bound ∧ ∀ j, s ≤ j → j < s + len → used j = false

/-- **The search finds the first free range**, or there is none. A free range that is not yet seen
whole starts with the entries counted, or behind them. -/
theorem search_spec {used : ℕ → Bool} {len n i count start : ℕ} (hcount : count < len)
    (hstart : count ≠ 0 → start + count = i) (hle : count ≤ i)
    (hfree : ∀ j, i - count ≤ j → j < i → used j = false)
    (hfrom : ∀ s, FreeRun used len (i + n) s → i - count ≤ s) :
    (∃ s, search used len n i count start = some s ∧ IsLeast {s | FreeRun used len (i + n) s} s) ∨
      search used len n i count start = none ∧ ∀ s, ¬ FreeRun used len (i + n) s := by
  induction n generalizing i count start with
  | zero =>
    refine .inr ⟨rfl, fun s hs => ?_⟩
    have := hfrom s hs
    have := hs.1
    omega
  | succ n ih =>
    have hsum : i + (n + 1) = i + 1 + n := by omega
    rw [hsum] at hfrom ⊢
    rw [search]
    split
    · next hi =>
      -- the count starts again behind an entry in use, which is in no free range
      refine ih (by omega) (fun hne => absurd rfl hne) (by omega) (fun j h₁ h₂ => by omega)
        fun s hs => ?_
      have := hfrom s hs
      by_contra hlt
      rw [hs.2 i (by omega) (by omega)] at hi
      cases hi
    · next hi =>
      have hfree' : ∀ j, i - count ≤ j → j < i + 1 → used j = false := fun j h₁ h₂ => by
        rcases Nat.lt_succ_iff_lt_or_eq.1 h₂ with h₂ | rfl
        · exact hfree j h₁ h₂
        · simpa using hi
      have hat : (if count = 0 then i else start) = i - count := by
        split
        · next h0 => rw [h0, Nat.sub_zero]
        · omega
      rw [hat]
      split
      · exact .inl ⟨_, rfl, ⟨by omega, fun j h₁ h₂ => hfree' j h₁ (by omega)⟩, hfrom⟩
      · exact ih (by omega) (fun _ => by omega) (by omega) (fun j h₁ h₂ => hfree' j (by omega) h₂)
          fun s hs => by have := hfrom s hs; omega

theorem alloc_cases (a : PgtAlloc) {len : ℕ} (hlen : 0 < len) :
    (∃ s, a.alloc len = some (s, ⟨fill a.used s len true⟩) ∧
      IsLeast {s | FreeRun a.used len pgtLen s} s) ∨ a.alloc len = none ∧
    ∀ s, ¬ FreeRun a.used len pgtLen s := by
  have h := @search_spec a.used len pgtLen 0 0 0 hlen (fun hne => absurd rfl hne) le_rfl
    (fun j _ hj => by omega) (fun s _ => Nat.zero_le s)
  rw [Nat.zero_add] at h
  obtain ⟨s, hs, hleast⟩ | ⟨hs, hnone⟩ := h
  · exact .inl ⟨s, by rw [alloc, hs]; rfl, hleast⟩
  · exact .inr ⟨by rw [alloc, hs]; rfl, hnone⟩

/-- **A range that is given out was free**, and is in use after. An empty range is not given out. -/
theorem alloc_eq {a a' : PgtAlloc} {len start : ℕ} (h : a.alloc len = some (start, a')) :
    0 < len ∧ start + len ≤ pgtLen ∧ (∀ j, start ≤ j → j < start + len → a.used j = false) ∧
      a'.used = fill a.used start len true := by
  have hlen : 0 < len := by
    refine Nat.pos_of_ne_zero fun h0 => ?_
    have hnone : ∀ n i count start, search a.used 0 n i count start = none := by
      intro n
      induction n with
      | zero => intros; rfl
      | succ n ih =>
        intro i count start
        rw [search]
        split
        · exact ih _ _ _
        · exact ih _ _ _
    rw [h0, alloc, hnone] at h
    cases h
  obtain ⟨s, hs, hleast⟩ | ⟨hs, -⟩ := a.alloc_cases hlen
  · rw [hs] at h
    cases h
    exact ⟨hlen, hleast.1.1, hleast.1.2, rfl⟩
  · rw [hs] at h
    cases h

/-- **First fit.** A range is given out exactly if it is the first free one, and then exactly its
entries are set. None is given out exactly if none is free. -/
theorem alloc_firstFit (a : PgtAlloc) {len : ℕ} (hlen : 1 ≤ len) :
    (∀ s a', a.alloc len = some (s, a') ↔ IsLeast {s | FreeRun a.used len pgtLen s} s ∧
      ∀ i, a'.used i = if s ≤ i ∧ i < s + len then true else a.used i) ∧
    (a.alloc len = none ↔ ∀ s, ¬ FreeRun a.used len pgtLen s) := by
  obtain ⟨s, hs, hleast⟩ | ⟨hs, hnone⟩ := a.alloc_cases hlen
  · refine ⟨fun s' a' => ⟨fun h => ?_, fun ⟨hleast', hused⟩ => ?_⟩, fun h => ?_,
      fun h => absurd hleast.1 (h s)⟩
    · rw [hs] at h
      cases h
      exact ⟨hleast, fun i => rfl⟩
    · rw [hs, hleast.unique hleast']
      have : a'.used = fill a.used s' len true := funext hused
      rw [← this]
    · rw [hs] at h
      cases h
  · refine ⟨fun s' a' => ⟨fun h => ?_, fun h => absurd h.1.1 (hnone s')⟩, fun _ => hnone,
      fun _ => hs⟩
    rw [hs] at h
    cases h

theorem alloc_firstFit_behind_used :
    IsLeast {s | FreeRun (fun i => i == 1) 2 pgtLen s} 2 :=
  (((alloc_firstFit ⟨fun i => i == 1⟩ (by decide : 1 ≤ 2)).1 2 _).1 rfl).1

end PgtAlloc

/-- `Alloc`. The stack of free indices of keys has its top first. -/
structure Alloc where
  mr : List ℕ
  pgt : PgtAlloc

namespace Alloc

def new : Alloc := ⟨(range maxMrCnt).reverse, .new⟩

/-- `Alloc::alloc` with the random part of the key. An index is lost if no range of the page table
is free. -/
def alloc (a : Alloc) (numPages key : ℕ) : Option (ℕ × PgtEntry) × Alloc :=
  match a.mr with
  | [] => (none, a)
  | idx :: idxs =>
    match a.pgt.alloc numPages with
    | none => (none, { a with mr := idxs })
    | some (index, pgt) => (some (idx <<< lrKeyKeyPartWidth ||| key, ⟨index, numPages⟩),
        ⟨idxs, pgt⟩)

/-- `Alloc::dealloc`. The index is given back whether the range is or not. -/
def dealloc (a : Alloc) (mrKey index length : ℕ) : Bool × Alloc :=
  let mr := (mrKey >>> lrKeyKeyPartWidth) :: a.mr
  match a.pgt.dealloc index length with
  | none => (false, { a with mr := mr })
  | some pgt => (true, ⟨mr, pgt⟩)

end Alloc

/-! ## The translation table of the driver -/

/-- `Mtt`, without the ranges of pinned memory. -/
structure Mtt where
  alloc : Alloc := .new
  mrkeyMap : ℕ → Option PgtEntry := fun _ => none
  keyToVaRange : ℕ → Option (ℕ × ℕ) := fun _ => none

/-- What a registration depends on: the random part of the key, whether the memory is made of huge
pages, whether it is pinned, and the physical addresses of its pages by their numbers. -/
structure MrEnv where
  key : BitVec 8
  isHugepage : Bool
  isPinned : Bool
  phys : Except RdmaError (ℕ → Option ℕ)

namespace Mtt

/-- `Mtt::register`. The maps are changed inside `debug_assert!`: they are neither changed nor
checked in a build without debug assertions. -/
def register (debug : Bool) (t : Mtt) (env : MrEnv) (numPages vaStart length : ℕ) :
    Option (Except RdmaError (ℕ × PgtEntry) × Mtt) :=
  match t.alloc.alloc numPages env.key.toNat with
  | (none, alloc) => some (.error (.ioError "out of memory"), { t with alloc := alloc })
  | (some (mrKey, pgtEntry), alloc) =>
    if debug ∧ (t.mrkeyMap mrKey ≠ none ∨ t.keyToVaRange mrKey ≠ none) ∨
      env.isPinned = false then none
    else
      some (.ok (mrKey, pgtEntry),
        { alloc := alloc
          mrkeyMap := if debug then Function.update t.mrkeyMap mrKey (some pgtEntry) else t.mrkeyMap
          keyToVaRange :=
            if debug then Function.update t.keyToVaRange mrKey (some (vaStart, length))
            else t.keyToVaRange })

/-- `deregister_mr`; `none` is a panic. -/
def deregister (t : Mtt) (mrKey : ℕ) (isUnpinned : Bool) : Option (Except RdmaError Unit × Mtt) :=
  match t.mrkeyMap mrKey with
  | none => some (.error (.invalidInput "failed to remove mr key"), t)
  | some entry =>
    let (freed, alloc) := t.alloc.dealloc mrKey entry.index entry.count
    let t := { t with alloc := alloc, mrkeyMap := Function.update t.mrkeyMap mrKey none }
    if freed then
      if t.keyToVaRange mrKey = none ∨ isUnpinned = false then none
      else some (.ok (), { t with keyToVaRange := Function.update t.keyToVaRange mrKey none })
    else some (.error (.invalidInput "failed to dealloc mr key"), t)

end Mtt

/-! ## Commands -/

structure MttUpdate where
  mrBaseVa : ℕ
  mrLength : ℕ
  mrKey : ℕ
  pdHandler : ℕ
  accFlags : ℕ
  basePgtOffset : ℕ
  deriving DecidableEq

/-- `PgtUpdate`, without the address of the buffer. -/
structure PgtUpdate where
  pgtOffset : ℕ
  zeroBasedEntryCount : ℕ
  deriving DecidableEq

/-- A command about memory regions. One for the page table comes with the physical addresses that
are copied to the start of the buffer before it is sent. -/
inductive MrCommand
  | updateMtt (update : MttUpdate)
  | updatePgt (update : PgtUpdate) (buf : List ℕ)
  deriving DecidableEq

def maxNumPgtEntryPerAlloc : ℕ := 16

/-- `chunks` of `reg_mr`: the range of a region in parts of at most 16 entries. -/
def pgtChunks (entry : PgtEntry) : List PgtEntry :=
  (range ((entry.count + (maxNumPgtEntryPerAlloc - 1)) / maxNumPgtEntryPerAlloc)).map fun i =>
    let index := entry.index + i * maxNumPgtEntryPerAlloc
    ⟨index, min maxNumPgtEntryPerAlloc (entry.index + entry.count - index)⟩

/-- The loop over the chunks of `reg_mr`. Each takes its physical addresses from those left. -/
def pgtCommands : List PgtEntry → List ℕ → List MrCommand
  | [], _ => []
  | c :: cs, physAddrs =>
    .updatePgt ⟨c.index, c.count - 1⟩ (physAddrs.take c.count) ::
      pgtCommands cs (physAddrs.drop c.count)

/-- All values of a list of optional ones, if there are. -/
def collectSome {α : Type*} : List (Option α) → Option (List α)
  | [] => some []
  | none :: _ => none
  | some a :: l => (collectSome l).map (a :: ·)

/-- `virt_to_phys_range` on the pages of `addr`, with every page present. -/
def physAddrsOf (env : MrEnv) (addr numPages : ℕ) : Except RdmaError (List ℕ) :=
  env.phys.bind fun phys =>
    match collectSome ((range numPages).map fun j => phys (addr / pageSize + j)) with
    | some physAddrs => .ok physAddrs
    | none => .error (.memoryError "Physical address not found")

/-- `HwDeviceCtx::reg_mr`. The region stays in the table of the driver when it is too long or a page
is missing. -/
def regMr (debug : Bool) (t : Mtt) (env : MrEnv) (addr length pdHandle access : ℕ) :
    Option (Except RdmaError ℕ × Mtt × List MrCommand) :=
  if env.isHugepage then
    let numPages := getNumPage addr length
    (t.register debug env numPages addr length).map fun (registered, t) =>
      match registered with
      | .error e => (.error e, t, [])
      | .ok (mrKey, pgtEntry) =>
        if 2 ^ 32 ≤ length then (.error (.invalidInput "Length too large"), t, [])
        else
          match physAddrsOf env addr numPages with
          | .error e => (.error e, t, [])
          | .ok physAddrs =>
            (.ok mrKey, t, .updateMtt ⟨addr, length, mrKey, pdHandle, access, pgtEntry.index⟩ ::
              pgtCommands (pgtChunks pgtEntry) physAddrs)
  else none

/-! ## What a registration sends -/

theorem collectSome_eq {α : Type*} {l : List (Option α)} {r : List α} (h : collectSome l = some r) :
    l = r.map some := by
  induction l generalizing r with
  | nil =>
    cases h
    rfl
  | cons o l ih =>
    cases o with
    | none => cases h
    | some a =>
      obtain ⟨r, hr, rfl⟩ := map_eq_some_iff.1 h
      rw [ih hr]
      rfl

/-- What happened when a key and a range of the page table are given out: an index was free, and so
was the range. -/
structure Allocated (debug : Bool) (t t' : Mtt) (key : BitVec 8) (mrKey idx : ℕ) (idxs : List ℕ)
    (entry : PgtEntry) : Prop where
  free : t.alloc.mr = idx :: idxs
  keyEq : mrKey = idx <<< lrKeyKeyPartWidth ||| key.toNat
  pos : 0 < entry.count
  bound : entry.index + entry.count ≤ pgtLen
  unused : ∀ j, entry.index ≤ j → j < entry.index + entry.count → t.alloc.pgt.used j = false
  mr' : t'.alloc.mr = idxs
  used' : t'.alloc.pgt.used = PgtAlloc.fill t.alloc.pgt.used entry.index entry.count true
  mrkeyMap' : t'.mrkeyMap = if debug then Function.update t.mrkeyMap mrKey (some entry)
    else t.mrkeyMap

/-- **What happened when a registration succeeds**: every page has a physical address, and the
region is sent with its pages. -/
structure Registered (debug : Bool) (t t' : Mtt) (env : MrEnv)
    (addr length pdHandle access mrKey : ℕ) (commands : List MrCommand) (idx : ℕ) (idxs : List ℕ)
    (entry : PgtEntry) (physAddrs : List ℕ) :
    Prop extends Allocated debug t t' env.key mrKey idx idxs entry where
  count : entry.count = getNumPage addr length
  short : length < 2 ^ 32
  phys : ∃ phys, env.phys = .ok phys ∧
    (range entry.count).map (fun j => phys (addr / pageSize + j)) = physAddrs.map some
  commands : commands = .updateMtt ⟨addr, length, mrKey, pdHandle, access, entry.index⟩ ::
    pgtCommands (pgtChunks entry) physAddrs

theorem Alloc.alloc_cases (a : Alloc) (numPages key : ℕ) :
    (∃ a', a.alloc numPages key = (none, a') ∧ a'.pgt = a.pgt ∧ a'.mr <:+ a.mr) ∨
      ∃ idx idxs index a', a.mr = idx :: idxs ∧ 0 < numPages ∧ index + numPages ≤ pgtLen ∧
        (∀ j, index ≤ j → j < index + numPages → a.pgt.used j = false) ∧ a'.mr = idxs ∧
        a'.pgt.used = PgtAlloc.fill a.pgt.used index numPages true ∧
        a.alloc numPages key = (some (idx <<< lrKeyKeyPartWidth ||| key, ⟨index, numPages⟩),
          a') := by
  unfold Alloc.alloc
  cases hmr : a.mr with
  | nil => exact .inl ⟨a, rfl, rfl, hmr ▸ suffix_refl _⟩
  | cons idx idxs =>
    cases hpgt : a.pgt.alloc numPages with
    | none => exact .inl ⟨_, rfl, rfl, suffix_cons _ _⟩
    | some r =>
      obtain ⟨index, pgt⟩ := r
      obtain ⟨hpos, hbound, hfree, hused⟩ := PgtAlloc.alloc_eq hpgt
      exact .inr ⟨idx, idxs, index, _, rfl, hpos, hbound, hfree, rfl, hused, rfl⟩

theorem Mtt.register_cases {debug : Bool} {t t' : Mtt} {env : MrEnv} {numPages vaStart length : ℕ}
    {r : Except RdmaError (ℕ × PgtEntry)} (h : t.register debug env numPages vaStart length =
      some (r, t')) :
    (∃ e, r = .error e ∧ t'.alloc.pgt = t.alloc.pgt ∧ t'.alloc.mr <:+ t.alloc.mr ∧
      t'.mrkeyMap = t.mrkeyMap) ∨
      ∃ mrKey idx idxs entry, r = .ok (mrKey, entry) ∧ entry.count = numPages ∧
        Allocated debug t t' env.key mrKey idx idxs entry := by
  rw [Mtt.register] at h
  obtain ⟨a, ha, hpgt, hmr⟩ | ⟨idx, idxs, index, a, hfree, hpos, hbound, hunused, hmr, hused, ha⟩ :=
    t.alloc.alloc_cases numPages env.key.toNat
  · rw [ha] at h
    cases h
    exact .inl ⟨_, rfl, hpgt, hmr, rfl⟩
  · rw [ha] at h
    obtain ⟨-, h⟩ := ite_none_left_eq_some.1 h
    cases h
    exact .inr ⟨_, idx, idxs, _, rfl, rfl, hfree, rfl, hpos, hbound, hunused, hmr, hused, rfl⟩

theorem physAddrsOf_ok {env : MrEnv} {addr numPages : ℕ} {physAddrs : List ℕ}
    (h : physAddrsOf env addr numPages = .ok physAddrs) : ∃ phys, env.phys = .ok phys ∧
      (range numPages).map (fun j => phys (addr / pageSize + j)) = physAddrs.map some := by
  rw [physAddrsOf] at h
  cases hphys : env.phys with
  | error e =>
    rw [hphys] at h
    cases h
  | ok phys =>
    rw [hphys] at h
    refine ⟨phys, rfl, ?_⟩
    cases hcol : collectSome ((range numPages).map fun j => phys (addr / pageSize + j)) with
    | none =>
      simp only [Except.bind, hcol] at h
      cases h
    | some l =>
      simp only [Except.bind, hcol, Except.ok.injEq] at h
      rw [← h]
      exact collectSome_eq hcol

/-- **The outcomes of a registration.** One that fails sends nothing, but may leave a key and a
range given out. -/
theorem regMr_cases {debug : Bool} {t t' : Mtt} {env : MrEnv} {addr length pdHandle access : ℕ}
    {r : Except RdmaError ℕ} {commands : List MrCommand}
    (h : regMr debug t env addr length pdHandle access = some (r, t', commands)) :
    (∃ e, r = .error e ∧ commands = [] ∧ t'.alloc.pgt = t.alloc.pgt ∧ t'.alloc.mr <:+ t.alloc.mr ∧
      t'.mrkeyMap = t.mrkeyMap) ∨
      (∃ e mrKey idx idxs entry, r = .error e ∧ commands = [] ∧
        Allocated debug t t' env.key mrKey idx idxs entry) ∨
      ∃ mrKey idx idxs entry physAddrs, r = .ok mrKey ∧
        Registered debug t t' env addr length pdHandle access mrKey commands idx idxs entry
          physAddrs := by
  obtain ⟨-, h⟩ := ite_none_right_eq_some.1 h
  obtain ⟨⟨reg, t''⟩, hreg, h⟩ := map_eq_some_iff.1 h
  obtain ⟨e, rfl, hpgt, hmr, hmap⟩ | ⟨mrKey, idx, idxs, entry, rfl, hcount, halloc⟩ :=
    Mtt.register_cases hreg
  · obtain ⟨rfl, rfl, rfl⟩ := h
    exact .inl ⟨e, rfl, rfl, hpgt, hmr, hmap⟩
  · dsimp only at h
    split at h
    · obtain ⟨rfl, rfl, rfl⟩ := h
      exact .inr (.inl ⟨_, mrKey, idx, idxs, entry, rfl, rfl, halloc⟩)
    · next hshort =>
      cases hphys : physAddrsOf env addr (getNumPage addr length) with
      | error e =>
        simp only [hphys] at h
        obtain ⟨rfl, rfl, rfl⟩ := h
        exact .inr (.inl ⟨_, mrKey, idx, idxs, entry, rfl, rfl, halloc⟩)
      | ok physAddrs =>
        simp only [hphys] at h
        obtain ⟨rfl, rfl, rfl⟩ := h
        exact .inr (.inr ⟨mrKey, idx, idxs, entry, physAddrs, rfl, halloc, hcount, not_le.1 hshort,
          hcount ▸ physAddrsOf_ok hphys, rfl⟩)

/-- `HwDeviceCtx::reg_mr` with the pinned memory, to which `Mtt::register` adds the region once a
key and a range are given out. -/
def regMrPinned {P : Type*} (insert : P → ℕ → ℕ → P) (debug : Bool) (t : Mtt) (pins : P)
    (env : MrEnv) (addr length pdHandle access : ℕ) : Option (Except RdmaError ℕ × Mtt × P) :=
  (regMr debug t env addr length pdHandle access).map fun (r, t', _) =>
    (r, t', if (t.alloc.alloc (getNumPage addr length) env.key.toNat).1.isSome then insert pins addr
      length else pins)

/-- The next key that is given out is still in one of the maps. -/
def Mtt.KeyTaken (t : Mtt) (key : ℕ) : Prop :=
  ∃ idx ∈ t.alloc.mr.head?, t.mrkeyMap (idx <<< lrKeyKeyPartWidth ||| key) ≠ none ∨
    t.keyToVaRange (idx <<< lrKeyKeyPartWidth ||| key) ≠ none

/-- **A failed registration changes nothing exactly if** the memory is not in huge pages, where the
driver panics, no key is free, or there is a range and no error after that: the memory is not pinned
or the key is in the maps, where the driver panics, or the length and the pages are right. -/
theorem regMrPinned_error_unchanged_iff {P : Type*} (insert : P → ℕ → ℕ → P) (debug : Bool)
    (t : Mtt) (pins : P) (env : MrEnv) (addr length pdHandle access : ℕ) :
    (∀ e t' pins', regMrPinned insert debug t pins env addr length pdHandle access =
      some (.error e, t', pins') →
        t' = t ∧ pins' = pins) ↔
      env.isHugepage = false ∨ t.alloc.mr = [] ∨
      (t.alloc.pgt.alloc (getNumPage addr length)).isSome ∧
        ((debug = true ∧ t.KeyTaken env.key.toNat ∨ env.isPinned = false) ∨
          length < 2 ^ 32 ∧ (physAddrsOf env addr (getNumPage addr length)).isOk) := by
  by_cases hhuge : env.isHugepage = true
  swap
  · simp [regMrPinned, regMr, hhuge]
  cases hmr : t.alloc.mr with
  | nil => simp [regMrPinned, regMr, Mtt.register, Alloc.alloc, hhuge, hmr]
  | cons idx idxs =>
    have hchanged : ∀ t' : Mtt, t'.alloc.mr = idxs → t' ≠ t := by
      rintro t' ht' rfl
      exact cons_ne_self idx idxs (hmr.symm.trans ht')
    cases hpgt : t.alloc.pgt.alloc (getNumPage addr length) with
    | none => simp [regMrPinned, regMr, Mtt.register, Alloc.alloc, hhuge, hmr, hpgt, hchanged]
    | some r =>
      have htaken : t.KeyTaken env.key.toNat ↔
        t.mrkeyMap (idx <<< lrKeyKeyPartWidth ||| env.key.toNat) ≠ none ∨
          t.keyToVaRange (idx <<< lrKeyKeyPartWidth ||| env.key.toNat) ≠ none := by
        simp [Mtt.KeyTaken, hmr]
      rw [htaken]
      by_cases hpanic : debug = true ∧ (t.mrkeyMap (idx <<< lrKeyKeyPartWidth ||| env.key.toNat) ≠
        none ∨
          t.keyToVaRange (idx <<< lrKeyKeyPartWidth ||| env.key.toNat) ≠ none) ∨
          env.isPinned = false
      · simp only [regMrPinned, regMr, Mtt.register, Alloc.alloc, hhuge, hmr, hpgt, if_pos hpanic]
        simp [hpanic]
      · simp only [regMrPinned, regMr, Mtt.register, Alloc.alloc, hhuge, hmr, hpgt, if_neg hpanic]
        rw [or_iff_right hpanic]
        by_cases hlen : 4294967296 ≤ length
        · simp [hlen, hchanged, not_lt.2 hlen]
        · cases physAddrsOf env addr (getNumPage addr length) <;>
            simp [hlen, not_le.1 hlen, hchanged, Except.isOk, Except.toBool]

/-- A region without a page uses up a key, and one whose page has no physical address all that a
registration takes. -/
theorem regMrPinned_loses :
    (regMrPinned (fun pins va len => (va, len) :: pins) true {} [] ⟨0, true, true,
      .ok fun _ => none⟩ 0 0 0 0).map
        (fun r => (r.1.isOk, r.2.1.alloc.mr.length, r.2.2)) = some (false, maxMrCnt - 1, []) ∧
      (regMrPinned (fun pins va len => (va, len) :: pins) true {} [] ⟨0, true, true,
        .ok fun _ => none⟩ 0 1 0 0).map (fun r =>
      (r.1.isOk, r.2.1.alloc.mr.length, r.2.1.alloc.pgt.used 0,
          (r.2.1.mrkeyMap ((maxMrCnt - 1) <<< lrKeyKeyPartWidth)).isSome, r.2.2)) =
        some (false, maxMrCnt - 1, true, true, [(0, 1)]) := by
  decide +kernel

/-- **The outcomes of a deregistration.** Nothing is sent by any. -/
theorem Mtt.deregister_cases {t t' : Mtt} {mrKey : ℕ} {isUnpinned : Bool}
    {r : Except RdmaError Unit} (h : t.deregister mrKey isUnpinned = some (r, t')) :
    (t.mrkeyMap mrKey = none ∧ (∃ e, r = .error e) ∧ t' = t) ∨
      ∃ entry, t.mrkeyMap mrKey = some entry ∧
        t'.mrkeyMap = Function.update t.mrkeyMap mrKey none ∧
        t'.alloc.mr = mrKey >>> lrKeyKeyPartWidth :: t.alloc.mr ∧
        (r = .ok () ∧ t'.alloc.pgt.used =
            PgtAlloc.fill t.alloc.pgt.used entry.index entry.count false ∨
          pgtLen < entry.index + entry.count ∧ ∃ e, r = .error e) := by
  rw [Mtt.deregister] at h
  cases hmap : t.mrkeyMap mrKey with
  | none =>
    rw [hmap] at h
    cases h
    exact .inl ⟨rfl, ⟨_, rfl⟩, rfl⟩
  | some entry =>
    rw [hmap] at h
    refine .inr ⟨entry, rfl, ?_⟩
    by_cases hle : entry.index + entry.count ≤ pgtLen
    · simp only [Alloc.dealloc, PgtAlloc.dealloc, if_pos hle] at h
      obtain ⟨-, h⟩ := ite_none_left_eq_some.1 h
      cases h
      exact ⟨rfl, rfl, .inl ⟨rfl, rfl⟩⟩
    · simp only [Alloc.dealloc, PgtAlloc.dealloc, if_neg hle] at h
      cases h
      exact ⟨rfl, rfl, .inr ⟨not_le.1 hle, _, rfl⟩⟩

/-! ## Physical addresses -/

/-- The address of the frame in an entry of a page map. Bit 63 says that the page is present. The
product wraps, as in a build without overflow checks: unlike the rest of the driver, which is
modelled with them, these functions are compared in that build. With checks both panic at the same
entries of the page map, where the product does not fit (`frameAddr_of_lt`). -/
def frameAddr (basePageSize : ℕ) (entry : BitVec 64) : Option ℕ :=
  if entry >>> 63 &&& 1 ≠ 0 then some ((entry &&& (2 ^ 55 - 1)).toNat * basePageSize % 2 ^ 64)
    else none

/-- An address that fits is the same in both builds. -/
theorem frameAddr_of_lt {basePageSize : ℕ} {entry : BitVec 64} (hpresent : entry >>> 63 &&& 1 ≠ 0)
    (hlt : (entry &&& (2 ^ 55 - 1)).toNat * basePageSize < 2 ^ 64) :
    frameAddr basePageSize entry = some ((entry &&& (2 ^ 55 - 1)).toNat * basePageSize) := by
  rw [frameAddr, if_pos hpresent, Nat.mod_eq_of_lt hlt]

/-- `virt_to_phys`. The translator for the memory of a GPU is asked where the page map has no page;
both are given by the entry at an offset. -/
def virtToPhys (pagemap gpu : ℕ → BitVec 64) (basePageSize addr : ℕ) : Option ℕ :=
  let getPaFromFile (file : ℕ → BitVec 64) :=
    (frameAddr basePageSize (file (8 * (addr / basePageSize)))).map fun pa =>
      (pa + addr % basePageSize) % 2 ^ 64
  (getPaFromFile pagemap).or (getPaFromFile gpu)

/-- A loop of `virt_to_phys_range`, where no page has an address yet. A frame with address zero is
an error, and sets none. -/
def readPages (file : ℕ → BitVec 64) (basePageSize size start numPages : ℕ) : List (Option ℕ) :=
  (range numPages).map fun i =>
    (frameAddr basePageSize (file (8 * ((start + i * size) / basePageSize)))).filter (· ≠ 0)

/-- `virt_to_phys_range`. If the page map has none of the pages the translator is opened, but the
second loop reads the page map again. -/
def virtToPhysRange (pagemap : ℕ → BitVec 64) (basePageSize size start numPages : ℕ) :
    List (Option ℕ) :=
  let physAddrs := readPages pagemap basePageSize size start numPages
  if physAddrs.all Option.isNone then readPages pagemap basePageSize size start numPages
    else physAddrs

/-- **A range is translated like its pages exactly if** no page present has the frame zero and the
translator has none of the others. -/
theorem virtToPhysRange_eq_iff (pagemap gpu : ℕ → BitVec 64) {basePageSize size start : ℕ}
    (hsize : basePageSize ∣ size) (hstart : size ∣ start) (numPages : ℕ) :
    virtToPhysRange pagemap basePageSize size start numPages =
        (range numPages).map (fun i => virtToPhys pagemap gpu basePageSize
          (start + i * size)) ↔
      ∀ i < numPages, let offset := 8 * ((start + i * size) / basePageSize)
        frameAddr basePageSize (pagemap offset) ≠ some 0 ∧
          (frameAddr basePageSize (pagemap offset) = none → frameAddr basePageSize (gpu offset) =
            none) := by
  rw [virtToPhysRange, ite_self, readPages, map_inj_left]
  simp only [mem_range]
  refine forall₂_congr fun i _ => ?_
  have hmod : (start + i * size) % basePageSize = 0 :=
    Nat.mod_eq_zero_of_dvd (Nat.dvd_add (hsize.trans hstart) (hsize.mul_left i))
  cases hpage : frameAddr basePageSize (pagemap (8 * ((start + i * size) / basePageSize))) with
  | none => simp [virtToPhys, hpage, eq_comm]
  | some pa =>
    obtain ⟨-, hpa⟩ := ite_some_none_eq_some.1 hpage
    have hlt : pa < 2 ^ 64 := hpa ▸ Nat.mod_lt _ (by decide)
    simp only [virtToPhys, hpage, hmod, Option.map_some, Nat.add_zero, Nat.mod_eq_of_lt hlt]
    by_cases h0 : pa = 0 <;> simp [h0, Option.filter]

theorem virtToPhysRange_eq_host :
    virtToPhysRange (fun _ => 2 ^ 63 + 1) 4096 pageSize 0 2 =
      (range 2).map fun i => virtToPhys (fun _ => 2 ^ 63 + 1) (fun _ => 0) 4096 (0 + i *
        pageSize) :=
  (virtToPhysRange_eq_iff _ _ (by decide) (by decide) 2).2 (by decide +kernel)

/-- Memory of a GPU has no address in a range. -/
theorem virtToPhysRange_gpu :
    virtToPhysRange (fun _ => 0) 4096 pageSize 0 1 = [none] ∧
      virtToPhys (fun _ => 0) (fun _ => 2 ^ 63 + 1) 4096 0 = some 4096 := by
  decide +kernel

end OpenRdma.Driver
