import OpenRdma.Link.MemRegions

/-!
# The memory regions the driver registered and the table of the card

The driver gives the index of the key and the range of the page table of a region that is
deregistered to the next one, but the entry of the region stays in the table of the card. Packets
with the old key are translated with it, through a range that may belong to another region.
-/

namespace OpenRdma.Link

open Driver Rtl List Option Function

/-! ## Keys -/

theorem mrKey_eq (idx : ℕ) (key : BitVec 8) :
    idx <<< lrKeyKeyPartWidth ||| key.toNat = idx * 2 ^ 8 + key.toNat := by
  rw [lrKeyKeyPartWidth, ← Nat.shiftLeft_add_eq_or_of_lt key.isLt, Nat.shiftLeft_eq]

theorem index_mrKey (idx : ℕ) (key : BitVec 8) :
    (idx <<< lrKeyKeyPartWidth ||| key.toNat) >>> lrKeyKeyPartWidth = idx := by
  rw [mrKey_eq, lrKeyKeyPartWidth]
  omega

theorem rkey2IndexMR_ofNat {key : ℕ} (h : key < 2 ^ 21) :
    rkey2IndexMR (BitVec.ofNat 32 key) = BitVec.ofNat 13 (key >>> lrKeyKeyPartWidth) := by
  rw [← BitVec.toNat_inj, rkey2IndexMR, getMrRawIndexPartFromRkey, BitVec.toNat_setWidth,
    BitVec.extractLsb'_toNat, BitVec.toNat_ofNat, BitVec.toNat_ofNat, lrKeyKeyPartWidth]
  omega

theorem rkey2IndexMR_inj {key key' : ℕ} (h : key < 2 ^ 21) (h' : key' < 2 ^ 21) :
    rkey2IndexMR (BitVec.ofNat 32 key) = rkey2IndexMR (BitVec.ofNat 32 key') ↔
      key >>> lrKeyKeyPartWidth = key' >>> lrKeyKeyPartWidth := by
  rw [rkey2IndexMR_ofNat h, rkey2IndexMR_ofNat h', ← BitVec.toNat_inj, BitVec.toNat_ofNat,
    BitVec.toNat_ofNat, lrKeyKeyPartWidth]
  omega

theorem rkey2KeyPartMR_ofNat (key : ℕ) : rkey2KeyPartMR (BitVec.ofNat 32 key) =
    BitVec.ofNat 8 key :=
  BitVec.setWidth_ofNat_of_le (by decide) key

theorem mrKey_ext {key key' : ℕ} (hindex : key >>> lrKeyKeyPartWidth = key' >>> lrKeyKeyPartWidth)
    (hpart : BitVec.ofNat 8 key = BitVec.ofNat 8 key') : key = key' := by
  have hpart : key % 2 ^ 8 = key' % 2 ^ 8 := by simpa using congrArg BitVec.toNat hpart
  rw [lrKeyKeyPartWidth] at hindex
  omega

/-- The table has an entry for the key. -/
def HasEntry (mr : BitVec 13 → Option MemRegionTableEntry) (key : ℕ) : Prop :=
  key < 2 ^ 21 ∧ ∃ ent, mr (rkey2IndexMR (BitVec.ofNat 32 key)) = some ent ∧
    ent.keyPart = rkey2KeyPartMR (BitVec.ofNat 32 key)

theorem hasEntry_update {mr : BitVec 13 → Option MemRegionTableEntry} {mrKey key : ℕ}
    {ent : MemRegionTableEntry} (hlt : mrKey < 2 ^ 21)
    (hent : ent.keyPart = rkey2KeyPartMR (BitVec.ofNat 32 mrKey)) :
    HasEntry (update mr (rkey2IndexMR (BitVec.ofNat 32 mrKey)) (some ent)) key ↔
      key = mrKey ∨ key >>> lrKeyKeyPartWidth ≠ mrKey >>> lrKeyKeyPartWidth ∧ HasEntry mr key := by
  by_cases hkey : key < 2 ^ 21
  · have hsame := rkey2IndexMR_inj hkey hlt
    by_cases hindex : key >>> lrKeyKeyPartWidth = mrKey >>> lrKeyKeyPartWidth
    · rw [HasEntry, hsame.2 hindex, update_self]
      constructor
      · rintro ⟨-, ent', heq, hpart⟩
        cases heq
        rw [hent, rkey2KeyPartMR_ofNat, rkey2KeyPartMR_ofNat] at hpart
        exact .inl (mrKey_ext hindex hpart.symm)
      · rintro (rfl | ⟨hne, -⟩)
        · exact ⟨hkey, ent, rfl, hent⟩
        · exact absurd hindex hne
    · rw [HasEntry, update_of_ne (mt hsame.1 hindex)]
      constructor
      · exact fun h => .inr ⟨hindex, h⟩
      · rintro (rfl | ⟨-, h⟩)
        · exact absurd rfl hindex
        · exact h
  · constructor
    · exact fun h => absurd h.1 hkey
    · rintro (rfl | ⟨-, h⟩)
      · exact absurd hlt hkey
      · exact absurd h.1 hkey

/-! ## Calls -/

/-- A call of the verbs that register memory, with what the system calls return. -/
inductive MrCall
  | regMr (env : MrEnv) (addr length pdHandle access : ℕ) (buffer : PgtBuffer)
  | deregMr (mrKey : ℕ) (isUnpinned : Bool)

/-- The driver and the tables of the card. `registered` has the ranges of the page table of the
regions that are registered: those whose registration succeeded, and whose deregistration did not
since. -/
structure MrWorld where
  mtt : Mtt
  tables : MrTables
  registered : ℕ → Option PgtEntry

namespace MrWorld

/-- A new driver, and empty tables. -/
def initial : MrWorld := ⟨{}, emptyTables, fun _ => none⟩

/-- The range of the page table a command for a region names. -/
def rangeOf (numPages : ℕ) : List MrCommand → PgtEntry
  | .updateMtt u :: _ => ⟨u.basePgtOffset, numPages⟩
  | _ => ⟨0, numPages⟩

/-- The regions registered after a registration. -/
def registeredBy (registered : ℕ → Option PgtEntry) (range : PgtEntry) :
    Except RdmaError ℕ → ℕ → Option PgtEntry
  | .ok mrKey => update registered mrKey (some range)
  | .error _ => registered

/-- The regions registered after a deregistration. -/
def deregisteredBy (registered : ℕ → Option PgtEntry) (mrKey : ℕ) :
    Except RdmaError Unit → ℕ → Option PgtEntry
  | .ok _ => update registered mrKey none
  | .error _ => registered

/-- A call of the driver, whose commands the card executes. -/
def step (debug : Bool) (w : MrWorld) : MrCall → Option MrWorld
  | .regMr env addr length pdHandle access buffer =>
    (regMr debug w.mtt env addr length pdHandle access).bind fun r =>
      (w.tables.execAll buffer r.2.2).map fun tables =>
        ⟨r.2.1, tables, registeredBy w.registered (rangeOf (getNumPage addr length) r.2.2) r.1⟩
  | .deregMr mrKey isUnpinned =>
    (w.mtt.deregister mrKey isUnpinned).map fun r =>
      ⟨r.2, w.tables, deregisteredBy w.registered mrKey r.1⟩

/-- The table has the entries of the registered regions, and no others. -/
def Exact (w : MrWorld) : Prop := ∀ key, HasEntry w.tables.mr key ↔ w.registered key ≠ none

/-- No region that is registered is deregistered. (A build without debug assertions does not know
its regions, and refuses.) -/
def Ok (debug : Bool) (w : MrWorld) : MrCall → Prop
  | .regMr .. => True
  | .deregMr mrKey _ => debug = true → w.registered mrKey = none

instance (debug : Bool) (w : MrWorld) (call : MrCall) : Decidable (w.Ok debug call) := by
  unfold Ok
  split <;> infer_instance

/-! ## What a call does -/

variable {debug : Bool} {w w' : MrWorld} {call : MrCall} {given : ℕ → Option PgtEntry}

/-- **What a call does**: a registration fails with or without a key given out, or it succeeds; a
key that is not known is not deregistered, and one that is known is given back. -/
theorem step_cases (hs : w.step debug call = some w') :
    (∃ env addr length pdHandle access buffer,
      call = .regMr env addr length pdHandle access buffer ∧
    ((w'.tables = w.tables ∧ w'.registered = w.registered ∧
          w'.mtt.alloc.mr <:+ w.mtt.alloc.mr ∧ w'.mtt.mrkeyMap = w.mtt.mrkeyMap) ∨
        (∃ mrKey idx idxs entry, w'.tables = w.tables ∧ w'.registered = w.registered ∧
          Allocated debug w.mtt w'.mtt env.key mrKey idx idxs entry) ∨
        ∃ mrKey idx idxs entry, Allocated debug w.mtt w'.mtt env.key mrKey idx idxs entry ∧
          w'.tables.mr = update w.tables.mr (rkey2IndexMR (BitVec.ofNat 32 mrKey))
            (some (regionEntry addr length access mrKey entry.index)) ∧
          w'.registered = update w.registered mrKey (some entry))) ∨
      ∃ mrKey isUnpinned, call = .deregMr mrKey isUnpinned ∧ w'.tables = w.tables ∧
        ((w.mtt.mrkeyMap mrKey = none ∧ w'.mtt = w.mtt ∧ w'.registered = w.registered) ∨
          ∃ entry, w.mtt.mrkeyMap mrKey = some entry ∧
            w'.mtt.mrkeyMap = update w.mtt.mrkeyMap mrKey none ∧
            w'.mtt.alloc.mr = mrKey >>> lrKeyKeyPartWidth :: w.mtt.alloc.mr ∧
            (w'.registered = update w.registered mrKey none ∨
              pgtLen < entry.index + entry.count)) := by
  cases call with
  | regMr env addr length pdHandle access buffer =>
    refine .inl ⟨env, addr, length, pdHandle, access, buffer, rfl, ?_⟩
    obtain ⟨⟨r, mtt, commands⟩, hreg, hs⟩ := bind_eq_some_iff.1 hs
    obtain ⟨tables, htables, rfl⟩ := map_eq_some_iff.1 hs
    obtain ⟨e, rfl, rfl, -, hmr, hmap⟩ | ⟨e, mrKey, idx, idxs, entry, rfl, rfl, halloc⟩ |
      ⟨mrKey, idx, idxs, entry, physAddrs, rfl, hr⟩ := regMr_cases hreg
    · exact .inl ⟨(some.inj htables).symm, rfl, hmr, hmap⟩
    · exact .inr (.inl ⟨mrKey, idx, idxs, entry, (some.inj htables).symm, rfl, halloc⟩)
    · obtain ⟨tables', htables', hmr', -⟩ := execAll_registered hr buffer w.tables
      obtain rfl := some.inj (htables.symm.trans htables')
      refine .inr (.inr ⟨mrKey, idx, idxs, entry, hr.toAllocated, ?_, ?_⟩)
      · exact hmr'.trans (execUpdateMrTable_registered hr _)
      · rw [hr.commands, registeredBy, rangeOf, ← hr.count]
  | deregMr mrKey isUnpinned =>
    obtain ⟨⟨r, mtt⟩, hdereg, rfl⟩ := map_eq_some_iff.1 hs
    refine .inr ⟨mrKey, isUnpinned, rfl, rfl, ?_⟩
    obtain ⟨hmap, ⟨e, rfl⟩, rfl⟩ | ⟨entry, hmap, hmap', hmr', ⟨rfl, -⟩ | ⟨hlen, e, rfl⟩⟩ :=
      Mtt.deregister_cases hdereg
    · exact .inl ⟨hmap, rfl, rfl⟩
    · exact .inr ⟨entry, hmap, hmap', hmr', .inl rfl⟩
    · exact .inr ⟨entry, hmap, hmap', hmr', .inr hlen⟩

/-! ## Keys given out -/

/-- `given` has the keys that were given out and not given back, with their ranges. No two have the
same index, and their indices are not free. A build with debug assertions knows them. -/
structure Given (debug : Bool) (given : ℕ → Option PgtEntry) (w : MrWorld) : Prop where
  nodup : w.mtt.alloc.mr.Nodup
  lt : ∀ i ∈ w.mtt.alloc.mr, i < maxMrCnt
  key_lt : ∀ key, given key ≠ none → key < 2 ^ 21
  taken : ∀ key, given key ≠ none → key >>> lrKeyKeyPartWidth ∉ w.mtt.alloc.mr
  index_inj : ∀ key key', given key ≠ none → given key' ≠ none →
    key >>> lrKeyKeyPartWidth = key' >>> lrKeyKeyPartWidth → key = key'
  registered : ∀ key, w.registered key ≠ none → given key ≠ none
  known : w.mtt.mrkeyMap = if debug then given else fun _ => none
  bound : ∀ key entry, given key = some entry → entry.index + entry.count ≤ pgtLen

theorem alloc_initial : initial.mtt.alloc.mr = (List.range maxMrCnt).reverse := by
  simp only [initial, Alloc.new]

theorem given_initial : Given debug (fun _ => none) initial where
  nodup := by
    rw [alloc_initial, nodup_reverse]
    exact nodup_range
  lt i hi := by
    rw [alloc_initial, mem_reverse] at hi
    exact mem_range.1 hi
  key_lt key h := absurd rfl h
  taken key h := absurd rfl h
  index_inj key key' h := absurd rfl h
  registered key h := absurd rfl h
  known := by cases debug <;> rfl
  bound key entry h := absurd h (by simp)

section Allocated

variable {mtt' : Mtt} {key : BitVec 8} {mrKey idx : ℕ} {idxs : List ℕ} {entry : PgtEntry}
  (ha : Allocated debug w.mtt mtt' key mrKey idx idxs entry)
include ha

theorem Given.fresh (hi : Given debug given w) {key' : ℕ} (hkey' : given key' ≠ none) :
    key' >>> lrKeyKeyPartWidth ≠ mrKey >>> lrKeyKeyPartWidth := by
  intro heq
  have hidx : mrKey >>> lrKeyKeyPartWidth = idx := by rw [ha.keyEq, index_mrKey]
  apply hi.taken key' hkey'
  rw [heq, hidx, ha.free]
  exact mem_cons_self

theorem Given.mrKey_lt (hi : Given debug given w) : mrKey < 2 ^ 21 := by
  have hidx : idx < 8192 := hi.lt idx (by rw [ha.free]; exact mem_cons_self)
  rw [ha.keyEq, mrKey_eq]
  omega

theorem Given.allocated (hi : Given debug given w) (tables' : MrTables) {registered' : ℕ →
    Option PgtEntry} (hreg : ∀ key', registered' key' ≠ none → key' = mrKey ∨
    w.registered key' ≠ none) : Given debug (update given mrKey (some entry)) ⟨mtt',
    tables', registered'⟩ := by
  have hidx : mrKey >>> lrKeyKeyPartWidth = idx := by rw [ha.keyEq, index_mrKey]
  have hnodup := hi.nodup
  rw [ha.free, nodup_cons] at hnodup
  have hmem : ∀ {i}, i ∈ idxs → i ∈ w.mtt.alloc.mr := fun hi => by
    rw [ha.free]
    exact mem_cons_of_mem _ hi
  -- a key given out is the new one or one given out before
  have hor : ∀ {key'}, update given mrKey (some entry) key' ≠ none →
      key' = mrKey ∨ given key' ≠ none := by
    intro key' h
    by_cases heq : key' = mrKey
    · exact .inl heq
    · exact .inr (by rwa [update_of_ne heq] at h)
  refine ⟨?_, ?_, ?_, ?_, ?_, ?_, ?_, ?_⟩
  · rw [ha.mr']
    exact hnodup.2
  · rw [ha.mr']
    exact fun i hmi => hi.lt i (hmem hmi)
  · intro key' h
    obtain rfl | h := hor h
    · exact hi.mrKey_lt ha
    · exact hi.key_lt key' h
  · intro key' h
    rw [ha.mr']
    obtain rfl | h := hor h
    · rw [hidx]
      exact hnodup.1
    · exact fun hm => hi.taken key' h (hmem hm)
  · intro key₁ key₂ h₁ h₂ heq
    rcases hor h₁ with h₁' | h₁' <;> rcases hor h₂ with h₂' | h₂'
    · rw [h₁', h₂']
    · exact absurd (heq.symm.trans (by rw [h₁'])) (hi.fresh ha h₂')
    · exact absurd (heq.trans (by rw [h₂'])) (hi.fresh ha h₁')
    · exact hi.index_inj key₁ key₂ h₁' h₂' heq
  · intro key' h
    obtain rfl | h := hreg key' h
    · simp
    · by_cases heq : key' = mrKey
      · rw [heq]
        simp
      · rw [update_of_ne heq]
        exact hi.registered key' h
  · rw [ha.mrkeyMap', hi.known]
    cases debug <;> rfl
  · intro key' entry' h
    by_cases heq : key' = mrKey
    · rw [heq, update_self] at h
      cases h
      exact ha.bound
    · rw [update_of_ne heq] at h
      exact hi.bound key' entry' h

end Allocated

theorem Given.deallocated (hi : Given debug given w) {mrKey : ℕ} {entry : PgtEntry} {mtt' : Mtt}
    (hmap : w.mtt.mrkeyMap mrKey = some entry)
    (hmap' : mtt'.mrkeyMap = update w.mtt.mrkeyMap mrKey none)
    (hmr' : mtt'.alloc.mr = mrKey >>> lrKeyKeyPartWidth :: w.mtt.alloc.mr) :
    debug = true ∧ given mrKey = some entry ∧ Given debug (update given mrKey none)
      ⟨mtt', w.tables, update w.registered mrKey none⟩ := by
  have hknown := hi.known
  cases debug with
  | false =>
    rw [hknown] at hmap
    cases hmap
  | true =>
    replace hknown : w.mtt.mrkeyMap = given := hknown
    rw [hknown] at hmap hmap'
    have hgiven : given mrKey ≠ none := by simp [hmap]
    have hor : ∀ {key'}, update given mrKey none key' ≠ none → key' ≠ mrKey ∧
      given key' ≠ none := by
      intro key' h
      have hne : key' ≠ mrKey := by
        rintro rfl
        exact h (update_self ..)
      exact ⟨hne, by rwa [update_of_ne hne] at h⟩
    refine ⟨rfl, hmap, ?_, ?_, ?_, ?_, ?_, ?_, hmap', ?_⟩
    · rw [hmr']
      exact nodup_cons.2 ⟨hi.taken mrKey hgiven, hi.nodup⟩
    · rw [hmr']
      intro i hmem
      obtain rfl | hmem := mem_cons.1 hmem
      · have := hi.key_lt mrKey hgiven
        rw [lrKeyKeyPartWidth, maxMrCnt]
        omega
      · exact hi.lt i hmem
    · exact fun key' h => hi.key_lt key' (hor h).2
    · intro key' h hmem
      rw [hmr'] at hmem
      obtain heq | hmem := mem_cons.1 hmem
      · exact (hor h).1 (hi.index_inj key' mrKey (hor h).2 hgiven heq)
      · exact hi.taken key' (hor h).2 hmem
    · exact fun key₁ key₂ h₁ h₂ => hi.index_inj key₁ key₂ (hor h₁).2 (hor h₂).2
    · intro key' h
      have hne : key' ≠ mrKey := by
        rintro rfl
        exact h (update_self ..)
      dsimp only at h
      rw [update_of_ne hne] at h ⊢
      exact hi.registered key' h
    · intro key' entry' h
      exact hi.bound key' entry' (by rwa [update_of_ne (hor (by simp [h])).1] at h)

theorem given_step (hi : Given debug given w) (hs : w.step debug call = some w') :
    ∃ given', Given debug given' w' := by
  obtain ⟨env, addr, length, pdHandle, access, buffer, rfl,
      ⟨-, hreg, hmr, hmap⟩ | ⟨mrKey, idx, idxs, entry, -, hreg, ha⟩ |
      ⟨mrKey, idx, idxs, entry, ha, -, hreg⟩⟩ |
    ⟨mrKey, isUnpinned, rfl, htables, ⟨-, hmtt, hreg⟩ | ⟨entry, hmap, hmap', hmr', hreg | hlen⟩⟩ :=
    step_cases hs
  · refine ⟨given, hi.nodup.sublist hmr.sublist, fun i hmi => hi.lt i (hmr.subset hmi), hi.key_lt,
      fun key h hm => hi.taken key h (hmr.subset hm), hi.index_inj, ?_, hmap.trans hi.known,
      hi.bound⟩
    rw [hreg]
    exact hi.registered
  · exact ⟨_, hi.allocated ha w'.tables fun key' h => .inr (hreg ▸ h)⟩
  · refine ⟨_, hi.allocated ha w'.tables fun key' h => ?_⟩
    by_cases heq : key' = mrKey
    · exact .inl heq
    · rw [hreg, update_of_ne heq] at h
      exact .inr h
  · refine ⟨given, ?_⟩
    obtain ⟨mtt', tables', registered'⟩ := w'
    obtain ⟨rfl, rfl, rfl⟩ : mtt' = w.mtt ∧ tables' = w.tables ∧ registered' = w.registered :=
      ⟨hmtt, htables, hreg⟩
    exact hi
  · obtain ⟨-, -, hi'⟩ := hi.deallocated hmap hmap' hmr'
    obtain ⟨mtt', tables', registered'⟩ := w'
    obtain ⟨rfl, rfl⟩ : tables' = w.tables ∧ registered' = _ := ⟨htables, hreg⟩
    exact ⟨_, hi'⟩
  · obtain ⟨-, hgiven, -⟩ := hi.deallocated hmap hmap' hmr'
    exact absurd (hi.bound mrKey entry hgiven) (not_le.2 hlen)

/-! ## The table -/

/-- **The calls that keep the table exact** are the registrations, and the deregistrations of keys
that are not registered. -/
theorem exact_step_iff (hi : Given debug given w) (hexact : w.Exact)
    (hs : w.step debug call = some w') : w'.Exact ↔ w.Ok debug call := by
  obtain ⟨env, addr, length, pdHandle, access, buffer, rfl,
      ⟨htables, hreg, -⟩ | ⟨mrKey, idx, idxs, entry, htables, hreg, -⟩ |
      ⟨mrKey, idx, idxs, entry, ha, hmr, hreg⟩⟩ |
    ⟨mrKey, isUnpinned, rfl, htables, ⟨hmap, -, hreg⟩ | ⟨entry, hmap, hmap', hmr', hreg | hlen⟩⟩ :=
    step_cases hs
  · refine iff_of_true ?_ trivial
    rwa [Exact, htables, hreg]
  · refine iff_of_true ?_ trivial
    rwa [Exact, htables, hreg]
  · refine iff_of_true (fun key => ?_) trivial
    rw [hmr, hreg, hasEntry_update (hi.mrKey_lt ha) rfl, hexact key]
    by_cases heq : key = mrKey
    · rw [heq]
      simp
    · -- the keys of other regions have other indices
      rw [update_of_ne heq]
      exact ⟨fun h => (h.resolve_left heq).2, fun h => .inr ⟨hi.fresh ha (hi.registered key h), h⟩⟩
  · refine iff_of_true (by rwa [Exact, htables, hreg]) ?_
    rintro rfl
    have hgiven : given mrKey = none := by rw [← hmap, hi.known, if_pos rfl]
    by_contra hne
    exact hi.registered mrKey hne hgiven
  · obtain ⟨rfl, -, -⟩ := hi.deallocated hmap hmap' hmr'
    rw [Exact, htables, hreg]
    constructor
    · intro hexact' _
      by_contra hne
      exact (hexact' mrKey).1 ((hexact mrKey).2 hne) (update_self ..)
    · intro hnone
      have hsame := update_eq_self mrKey w.registered
      rw [hnone rfl] at hsame
      rw [hsame]
      exact hexact
  · obtain ⟨-, hgiven, -⟩ := hi.deallocated hmap hmap' hmr'
    exact absurd (hi.bound mrKey entry hgiven) (not_le.2 hlen)

/-- The entry of a registered region has its range of the page table. -/
def Entries (w : MrWorld) : Prop :=
  ∀ key range, w.registered key = some range →
    ∃ ent, w.tables.mr (rkey2IndexMR (BitVec.ofNat 32 key)) = some ent ∧
      ent.pgtOffset = BitVec.ofNat 17 range.index

theorem entries_step (hi : Given debug given w) (he : w.Entries)
    (hs : w.step debug call = some w') : w'.Entries := by
  obtain ⟨env, addr, length, pdHandle, access, buffer, rfl,
      ⟨htables, hreg, -⟩ | ⟨mrKey, idx, idxs, entry, htables, hreg, -⟩ |
      ⟨mrKey, idx, idxs, entry, ha, hmr, hreg⟩⟩ |
    ⟨mrKey, isUnpinned, rfl, htables, ⟨hmap, -, hreg⟩ | ⟨entry, hmap, hmap', hmr', hreg | hlen⟩⟩ :=
    step_cases hs
  · rwa [Entries, htables, hreg]
  · rwa [Entries, htables, hreg]
  · intro key range hkey
    rw [hreg] at hkey
    rw [hmr]
    by_cases heq : key = mrKey
    · subst heq
      rw [update_self] at hkey
      cases hkey
      exact ⟨_, update_self .., rfl⟩
    · rw [update_of_ne heq] at hkey
      have hgiven : given key ≠ none := hi.registered key (by simp [hkey])
      have hne : rkey2IndexMR (BitVec.ofNat 32 key) ≠ rkey2IndexMR (BitVec.ofNat 32 mrKey) := by
        rw [Ne, rkey2IndexMR_inj (hi.key_lt key hgiven) (hi.mrKey_lt ha)]
        exact hi.fresh ha hgiven
      rw [update_of_ne hne]
      exact he key range hkey
  · rwa [Entries, htables, hreg]
  · intro key range hkey
    have hne : key ≠ mrKey := by
      rintro rfl
      rw [hreg, update_self] at hkey
      cases hkey
    rw [hreg, update_of_ne hne] at hkey
    rw [htables]
    exact he key range hkey
  · obtain ⟨-, hgiven, -⟩ := hi.deallocated hmap hmap' hmr'
    exact absurd (hi.bound mrKey entry hgiven) (not_le.2 hlen)

/-! ## Packets and work requests -/

/-- The packet's answers are used, and its payload is checked if its queue pair has a context. -/
def PayloadChecked (t : Tables) (m : RdmaRecvPacketMeta) : Prop :=
  QueryUsed t m ∧ (m.hasPayload → (t.queryQpc m.bth.dqpn).isSome → m.isNeedQueryMrTable)

instance (t : Tables) (m : RdmaRecvPacketMeta) : Decidable (PayloadChecked t m) :=
  inferInstanceAs (Decidable (_ ∧ _))

theorem hasEntry_of_checked {card : Card} {m : RdmaRecvPacketMeta}
    {peer : ThinMacIpUdpMetaDataForRecv} {tail : Option (BitVec 8)}
    (hok : PayloadChecked card.tables m) (hp : m.hasPayload)
    (hd : (checkedOf card (parseEntry m peer) tail).isDiscard = false) :
    HasEntry card.tables.mr m.reth.rkey.toNat ∧
      ∃ ent, card.tables.mr (rkey2IndexMR m.reth.rkey) = some ent ∧
        (checkedOf card (parseEntry m peer) tail).payloadConReq.pgtOffset = ent.pgtOffset := by
  have hnormal : (checkedOf card (parseEntry m peer) tail).packetStatus = .normal := by
    rw [← RdmaRecvPacketStatus.isRecvPacketStatusNormal_iff]
    simpa [CheckedPipelineEntry.isDiscard] using hd
  obtain ⟨hcheck, -⟩ := checkMrTableStep3Entry_normal hnormal
  obtain ⟨hparse, qpc, hqpc, htables⟩ := checkEntry_normal (show (checkOf card _).packetStatus =
    _ from hcheck)
  have hqpc' : card.tables.queryQpc m.bth.dqpn = some qpc := hqpc
  have hneed : m.isNeedQueryMrTable := hok.2 hp (by rw [hqpc']; rfl)
  obtain ⟨-, ent, hent, hkey, -⟩ := htables hneed
  have hentry : (parseEntry m peer).mrEntry (qpcOf card (parseEntry m peer))
      (mrOf card (parseEntry m peer)) = some ent := by
    rw [hqpc, hent]
    exact if_pos hneed
  have hindex := (parseEntry_normal hparse).2 hneed
  refine ⟨⟨?_, ent, ?_, ?_⟩, ent, hent, ?_⟩
  · rw [getMrRawIndexPartFromRkey, BitVec.extractLsb'_toNat, maxMr] at hindex
    omega
  · rw [BitVec.ofNat_toNat]
    exact hent
  · rw [BitVec.ofNat_toNat]
    exact hkey
  · simp only [checkedOf, CheckedPipelineEntry.payloadConReq, checkMrTableStep3Entry,
      checkMrTableStep2Entry, checkOf, checkEntry, hentry, getD_some]

/-! ## Runs -/

variable {calls : List MrCall}

theorem given_exact_entries (h : Run (step debug) (Ok debug) initial calls w) :
    (∃ given, Given debug given w) ∧ w.Exact ∧ w.Entries := by
  refine h.invariant (I := fun _ w => (∃ given, Given debug given w) ∧ w.Exact ∧ w.Entries)
    ⟨⟨_, given_initial⟩, ?_, ?_⟩ ?_
  · exact fun key => ⟨fun ⟨_, ent, hent, _⟩ => (by cases hent), fun h => absurd rfl h⟩
  · exact fun key range hkey => by cases hkey
  · rintro _ w call w' ⟨⟨given, hi⟩, hexact, he⟩ hok hs
    exact ⟨given_step hi hs, (exact_step_iff hi hexact hs).2 hok, entries_step hi he hs⟩

theorem Entries.eq (he : w.Entries) {key : BitVec 32} {ent : MemRegionTableEntry}
    (hreg : w.registered key.toNat ≠ none) (hent : w.tables.mr (rkey2IndexMR key) = some ent) :
    ∃ range, w.registered key.toNat = some range ∧ ent.pgtOffset = BitVec.ofNat 17 range.index := by
  obtain ⟨range, hrange⟩ := ne_none_iff_exists'.1 hreg
  obtain ⟨ent', hent', hoffset⟩ := he key.toNat range hrange
  rw [BitVec.ofNat_toNat, BitVec.setWidth_eq, hent] at hent'
  cases hent'
  exact ⟨range, hrange, hoffset⟩

/-- **The table is exact** after every sequence of calls that deregister no region that is
registered. Then every payload that is written is that of a packet with the key of a registered
region, and is translated through the range of that region, in every run of the receive queue whose
packets take their own answers and whose payloads are checked; and so is every payload that is read,
in every run of the packet generator on work requests with the keys of registered regions. The first
other call leaves the table wrong. -/
theorem mrExact_of_run (h : Run (step debug) (Ok debug) initial calls w) :
    w.Exact ∧
      (∀ (card : Card) frames s₀ ls rq, card.tables.mr = w.tables.mr → s₀.Initial →
        Run (rqStep card frames) (ParsesOnly (PayloadChecked card.tables)) (s₀, {}) ls rq →
        rq.1.conReqOut =
            (rq.2.issued.filter fun e => e.rdmaPacketMeta.hasPayload && !e.isDiscard).map
            (·.payloadConReq) ∧
          ∀ e ∈ rq.2.issued, e.rdmaPacketMeta.hasPayload → e.isDiscard = false →
            ∃ range, w.registered e.rdmaPacketMeta.reth.rkey.toNat = some range ∧
              e.payloadConReq.pgtOffset = BitVec.ofNat 17 range.index) ∧
      (∀ (t : Tables) u ls s, t.mr = w.tables.mr →
        Run (PacketGen.step t u)
          (fun _ l => ∀ wqe ∈ l.wqes, wqe.hasPayload → w.registered wqe.lkey.toNat ≠ none) {} ls s →
        ∃ wqes, wqes <+: ls.flatMap (·.wqes) ∧ s.genReqPipeOut = wqes.filterMap (·.genReq t u) ∧
          ∀ wqe ∈ wqes, ∀ req, wqe.genReq t u = some req →
            ∃ range, w.registered wqe.lkey.toNat = some range ∧
              req.pgtOffset = BitVec.ofNat 17 range.index) ∧
      ∀ call w', w.step debug call = some w' → (w'.Exact ↔ w.Ok debug call) := by
  obtain ⟨⟨given, hi⟩, hexact, he⟩ := given_exact_entries h
  refine ⟨hexact, ?_, ?_, fun call w' hs => exact_step_iff hi hexact hs⟩
  · intro card frames s₀ ls rq hmr hs₀ hrun
    have hpipe := pipelineInv_of_run (fun _ h => h.1) hs₀ hrun
    refine ⟨hpipe.conReq, fun e hmem hp hd => ?_⟩
    obtain ⟨m, peer, tail, hok, rfl⟩ := hpipe.exists_of_mem_issued hmem
    obtain ⟨hhas, ent, hent, hoffset⟩ := hasEntry_of_checked hok hp hd
    rw [hmr] at hhas hent
    obtain ⟨range, hrange, hrangeOffset⟩ := he.eq ((hexact _).1 hhas) hent
    exact ⟨range, hrange, hoffset.trans hrangeOffset⟩
  · intro t u ls s hmr hrun
    have hkeys : ∀ wqe ∈ ls.flatMap (·.wqes), wqe.hasPayload →
      w.registered wqe.lkey.toNat ≠ none := by
      refine hrun.invariant
        (I := fun ls _ => ∀ wqe ∈ ls.flatMap (·.wqes), wqe.hasPayload →
          w.registered wqe.lkey.toNat ≠ none)
        (fun wqe hwqe => by cases hwqe) ?_
      intro ls s l s' ih hok _ wqe hwqe
      rw [flatMap_append, flatMap_singleton, mem_append] at hwqe
      exact hwqe.elim (ih wqe) (hok wqe)
    obtain ⟨A, B, hgen⟩ := packetGenInv_of_run hrun
    refine ⟨A, ?_, hgen.genReqs, fun wqe hwqe req hreq => ?_⟩
    · rw [hgen.arrived, append_assoc]
      exact prefix_append _ _
    · have hmem : wqe ∈ ls.flatMap (·.wqes) := by
        rw [hgen.arrived]
        exact mem_append_left _ (mem_append_left _ hwqe)
      obtain ⟨hp, rfl⟩ := ite_some_none_eq_some.1 hreq
      have hreg := hkeys wqe hmem hp
      obtain ⟨-, ent, hent, -⟩ := (hexact _).2 hreg
      rw [BitVec.ofNat_toNat] at hent
      obtain ⟨range, hrange, hoffset⟩ := he.eq hreg hent
      refine ⟨range, hrange, ?_⟩
      rw [hmr, show w.tables.mr (lkey2IndexMR wqe.lkey) = some ent from hent]
      exact hoffset

/-- **Keys in use stay apart** after every sequence of calls, in both builds: no index is free
twice, that of a registered region is not free, and no two regions have the same. -/
theorem run_keys_apart (h : Run (step debug) (fun _ _ => True) initial calls w) :
    w.mtt.alloc.mr.Nodup ∧ (∀ key, w.registered key ≠ none → key < 2 ^ 21 ∧
    key >>> lrKeyKeyPartWidth ∉ w.mtt.alloc.mr) ∧ ∀ key key', w.registered key ≠ none →
    w.registered key' ≠ none →
      key >>> lrKeyKeyPartWidth = key' >>> lrKeyKeyPartWidth → key = key' := by
  obtain ⟨given, hi⟩ := h.invariant (I := fun _ w => ∃ given, Given debug given w) ⟨_,
    given_initial⟩ fun _ _ _ _ ⟨_, hi⟩ _ hs => given_step hi hs
  exact ⟨hi.nodup, fun key h => ⟨hi.key_lt key (hi.registered key h),
    hi.taken key (hi.registered key h)⟩, fun key key' h h' =>
    hi.index_inj key key' (hi.registered key h) (hi.registered key' h')⟩

end MrWorld

/-- The sample card with a table of memory regions. -/
def cardWith (mr : BitVec 13 → Option MemRegionTableEntry) : Card :=
  { sampleCard with tables := ⟨sampleCard.tables.qpc, mr⟩ }

/-- A region for writes of one page at `addr`, with a random part of its key. -/
def registerAt (key : BitVec 8) (addr : ℕ) : MrCall :=
  .regMr { memoryAt addr with key := key } addr 0x1000 0 0x3 emptyBuffer

/-- A write of 32 bytes to `va` with a key. -/
def writeWith (rkey va : ℕ) : ℕ → Frame := fun _ => samplePacketFrame 7 0x0a 0x100 va rkey 32 1

/-- Two regions are registered, and a key that is not known is deregistered. -/
def registerTwo : List MrCall := [registerAt 0x12 0x200000, registerAt 0x34 0x400000,
    .deregMr 0x12 true]

/-- The table is exact, and a write with the second key is translated through the second entry of
the page table, which is that of its region. -/
theorem mrExact_of_run_registerTwo : ∃ w rq,
    Run (MrWorld.step true) (MrWorld.Ok true) MrWorld.initial registerTwo w ∧ w.Exact ∧
      Run (rqStep (cardWith w.tables.mr) (writeWith 0x1ffe34 0x400010))
        (ParsesOnly (MrWorld.PayloadChecked (cardWith w.tables.mr).tables))
        ({ packetParser := resetParse }, {}) (passThrough 4 1) rq ∧
      rq.1.conReqOut = [⟨0x400010, 32, 0x400000, 1⟩] ∧ w.registered 0x1ffe34 = some ⟨1, 1⟩ := by
  have hrun : Run (MrWorld.step true) (MrWorld.Ok true) MrWorld.initial registerTwo _ :=
    .of_isSome (by decide +kernel)
  exact ⟨_, _, hrun, (MrWorld.mrExact_of_run hrun).1, .of_isSome (by decide +kernel),
    by decide +kernel, by decide +kernel⟩

/-- Two regions are registered and deregistered, and a third one is registered. -/
def registerAfter : List MrCall :=
  [registerAt 0x12 0x200000, registerAt 0x34 0x400000, .deregMr 0x1fff12 true,
    .deregMr 0x1ffe34 true, registerAt 0x56 0x600000]

/-- The third region has the index of the second one again, and the first is free. -/
theorem run_keys_apart_registerAfter : ∃ w,
    Run (MrWorld.step true) (fun _ _ => True) MrWorld.initial registerAfter w ∧
      w.registered 0x1ffe56 ≠ none ∧ 0x1ffe56 >>> lrKeyKeyPartWidth ∉ w.mtt.alloc.mr :=
  ⟨_, .of_isSome (by decide +kernel), by decide +kernel,
    ((MrWorld.run_keys_apart (.of_isSome _)).2.1 _ (by decide +kernel)).2⟩

/-- **The key of a deregistered region is still good**: a write with it, and a work request, are
translated through the entry of the page table that belongs to the third region. -/
theorem deregistered_translated : ∃ w rq,
    Run (MrWorld.step true) (fun _ _ => True) MrWorld.initial registerAfter w ∧ ¬ w.Exact ∧
      w.registered 0x1fff12 = none ∧ w.registered 0x1ffe56 = some ⟨0, 1⟩ ∧
      Run (rqStep (cardWith w.tables.mr) (writeWith 0x1fff12 0x200010))
        (ParsesOnly (MrWorld.PayloadChecked (cardWith w.tables.mr).tables))
        ({ packetParser := resetParse }, {}) (passThrough 4 1) rq ∧
      rq.1.conReqOut = [⟨0x200010, 32, 0x200000, 0⟩] ∧
      (⟨0, 0x200000, 0x200010⟩ : PgtAddrTranslateReq).answer w.tables.pgt = 0x600010 ∧
      ∀ (u : MemRegionTableEntry) (wqe : WorkQueueElem), wqe.opcode = .rdmaWrite →
      wqe.laddr = 0x200010 →
        wqe.lkey = 0x1fff12 → wqe.len = 32 →
          wqe.genReq (cardWith w.tables.mr).tables u = some ⟨0x200010, 32, 0x200000, 0⟩ := by
  refine ⟨_, _, .of_isSome (by decide +kernel), fun hexact => ?_, by decide +kernel,
    by decide +kernel, .of_isSome (by decide +kernel), by decide +kernel, by
    decide +kernel, fun u wqe hop hladdr hlkey hlen => ?_⟩
  · exact (hexact 0x1fff12).1 ⟨by decide, _, eq_some_of_isSome (by decide +kernel),
      by decide +kernel⟩ (by decide +kernel)
  · rw [WorkQueueElem.genReq, WorkQueueElem.hasPayload, payloadGenReq, hop, hladdr, hlkey, hlen,
      (by decide +kernel : (cardWith _).tables.mr (lkey2IndexMR 0x1fff12) =
        some ⟨0, 0x200000, 0x1000, 0x3, 0x12⟩)]
    rfl

end OpenRdma.Link
