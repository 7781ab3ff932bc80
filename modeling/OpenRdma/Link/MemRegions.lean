import OpenRdma.Driver.Mtt
import OpenRdma.Link.PacketGen
import OpenRdma.Rtl.AddressTranslate
import OpenRdma.Rtl.RqChecks

/-!
# The memory regions of the driver and the tables of the card

A registration sends a command for the table of memory regions, and then the pages of the region in
commands of at most 16 page table entries, each of which the card reads from a buffer in host
memory.
-/

namespace OpenRdma.Link

open Driver Rtl List Option

/-! ## Execution of the commands -/

def updateMrTableDesc (u : MttUpdate) : CmdQueueReqDescUpdateMrTable where
  mrBaseVA := .ofNat _ u.mrBaseVa
  mrLength := .ofNat _ u.mrLength
  mrKey := .ofNat _ u.mrKey
  accFlags := .ofNat _ u.accFlags
  pgtOffset := .ofNat _ u.basePgtOffset

/-- The buffer for page table entries: its address, and what it holds behind the entries of a
command. -/
structure PgtBuffer where
  physAddr : BitVec 64
  rest : ℕ → BitVec 64

def updatePgtDesc (buffer : PgtBuffer) (u : PgtUpdate) : CmdQueueReqDescUpdatePGT where
  dmaAddr := buffer.physAddr
  startIndex := .ofNat _ u.pgtOffset
  zeroBasedEntryCount := .ofNat _ u.zeroBasedEntryCount

/-- The content of the buffer with the entries of a command. -/
def PgtBuffer.mem (buffer : PgtBuffer) (buf : List ℕ) (j : ℕ) : BitVec 64 :=
  (buf[j]?.map (BitVec.ofNat 64)).getD (buffer.rest j)

/-- The two tables of the card, and the register of the updater that is left from the last
command. -/
structure MrTables where
  mr : BitVec 13 → Option MemRegionTableEntry
  pgt : BitVec 17 → BitVec 27
  curBeatOfData : BitVec 256

def MrTables.exec (buffer : PgtBuffer) (t : MrTables) : MrCommand → Option MrTables
  | .updateMtt u => some { t with mr := execUpdateMrTable t.mr (updateMrTableDesc u) }
  | .updatePgt u buf =>
    (execUpdatePgt t.pgt (updatePgtDesc buffer u) (buffer.mem buf) t.curBeatOfData).map fun s =>
      { t with pgt := s.pgt, curBeatOfData := s.curBeatOfDataReg }

def MrTables.execAll (buffer : PgtBuffer) : MrTables → List MrCommand → Option MrTables
  | t, [] => some t
  | t, c :: cs => (t.exec buffer c).bind fun t' => MrTables.execAll buffer t' cs

/-! ## The page table after a registration -/

theorem writtenPgt_congr {pgt : BitVec 17 → BitVec 27} {start : BitVec 17}
    {mem mem' : ℕ → BitVec 64} {n : ℕ} (h : ∀ j < n, mem j = mem' j) :
    writtenPgt pgt start mem n = writtenPgt pgt start mem' n := by
  funext idx
  rw [writtenPgt, writtenPgt]
  split
  · next hlt => rw [h _ hlt]
  · rfl

theorem writtenPgt_append (pgt : BitVec 17 → BitVec 27) (start : BitVec 17) (mem : ℕ → BitVec 64)
    {a c : ℕ} (h : a + c ≤ 2 ^ 17) :
    writtenPgt (writtenPgt pgt start mem a) (start + BitVec.ofNat 17 a) (fun j => mem (a + j)) c =
      writtenPgt pgt start mem (a + c) := by
  funext idx
  have hsub : (idx - (start + BitVec.ofNat 17 a)).toNat =
      if a ≤ (idx - start).toNat then (idx - start).toNat - a else (idx - start).toNat + 2 ^ 17 -
        a := by
    rw [← sub_sub, BitVec.toNat_sub (idx - start), BitVec.toNat_ofNat]
    split <;> omega
  rw [writtenPgt, writtenPgt, writtenPgt, hsub]
  by_cases ha : a ≤ (idx - start).toNat
  · rw [if_pos ha]
    by_cases hc : (idx - start).toNat - a < c
    · rw [if_pos hc, if_pos (by omega), Nat.add_sub_cancel' ha]
    · rw [if_neg hc, if_neg (by omega), if_neg (by omega)]
  · rw [if_neg ha, if_neg (by omega), if_pos (by omega), if_pos (by omega)]

/-- The entries of a region in the page table. -/
def physMem (physAddrs : List ℕ) (j : ℕ) : BitVec 64 := BitVec.ofNat 64 (physAddrs.getD j 0)

section Chunks

variable {buffer : PgtBuffer} {t : MrTables} {entry : PgtEntry} {physAddrs : List ℕ}

theorem exec_updatePgt (buffer : PgtBuffer) (t : MrTables) (index : ℕ) {count : ℕ} (buf : List ℕ)
    (hpos : 0 < count) (hle : count ≤ 16) : ∃ cur,
    t.exec buffer (.updatePgt ⟨index, count - 1⟩ buf) =
      some { t with
        pgt := writtenPgt t.pgt (BitVec.ofNat 17 index) (buffer.mem buf) count
        curBeatOfData := cur } := by
  obtain ⟨s, hs, -, hpgt⟩ := execUpdatePgt_eq t.pgt (updatePgtDesc buffer ⟨index, count - 1⟩)
    (buffer.mem buf) t.curBeatOfData
  have hcount : ((BitVec.ofNat 32 (count - 1)).setWidth 6).toNat + 1 = count := by
    rw [BitVec.toNat_setWidth, BitVec.toNat_ofNat]
    omega
  refine ⟨s.curBeatOfDataReg, ?_⟩
  rw [MrTables.exec, hs, Option.map_some, hpgt, updatePgtDesc]
  rw [hcount, BitVec.setWidth_ofNat_of_le (by decide)]

/-- The part of a region with 16 entries from the `16 * i`-th on. -/
def pgtChunk (entry : PgtEntry) (i : ℕ) : PgtEntry :=
  ⟨entry.index + i * maxNumPgtEntryPerAlloc,
    min maxNumPgtEntryPerAlloc (entry.index + entry.count -
      (entry.index + i * maxNumPgtEntryPerAlloc))⟩

theorem pgtChunks_eq (entry : PgtEntry) :
    pgtChunks entry = (List.range' 0 ((entry.count + 15) / 16)).map (pgtChunk entry) := by
  rw [pgtChunks, range_eq_range']
  rfl

theorem execAll_pgtCommands {pgt : BitVec 17 → BitVec 27} (hlen : physAddrs.length = entry.count)
    (hbound : entry.index + entry.count ≤ pgtLen) {i m : ℕ} (hm : 16 * (i + m) < entry.count + 16)
    (ht : t.pgt = writtenPgt pgt (BitVec.ofNat 17 entry.index) (physMem physAddrs)
      (min (16 * i) entry.count)) :
    ∃ t', t.execAll buffer
        (pgtCommands ((List.range' i m).map (pgtChunk entry)) (physAddrs.drop (16 * i))) = some t' ∧
      t'.mr = t.mr ∧ t'.pgt = writtenPgt pgt (BitVec.ofNat 17 entry.index) (physMem physAddrs)
        (min (16 * (i + m)) entry.count) := by
  induction m generalizing i t with
  | zero => exact ⟨t, rfl, rfl, ht⟩
  | succ m ih =>
    have hlt : entry.index + entry.count ≤ 2 ^ 17 := hbound
    set c := pgtChunk entry i with hc
    have hindex : c.index = entry.index + 16 * i := by rw [Nat.mul_comm]; rfl
    have hcount : c.count = min 16 (entry.count - 16 * i) := by
      show min 16 (entry.index + entry.count - (entry.index + i * 16)) = _
      omega
    obtain ⟨cur, hexec⟩ := exec_updatePgt buffer t c.index
      ((physAddrs.drop (16 * i)).take c.count) (show 0 < c.count by omega) (by omega)
    have hdrop : (physAddrs.drop (16 * i)).drop c.count = physAddrs.drop (16 * (i + 1)) := by
      rw [drop_drop]
      by_cases h16 : 16 ≤ entry.count - 16 * i
      · exact congrArg physAddrs.drop (by omega)
      · rw [drop_eq_nil_of_le (by omega), drop_eq_nil_of_le (by omega)]
    have hmem : ∀ j < c.count, buffer.mem ((physAddrs.drop (16 * i)).take c.count) j =
        physMem physAddrs (16 * i + j) := by
      intro j hj
      rw [PgtBuffer.mem, physMem, getElem?_take_of_lt hj, getElem?_drop,
        getD_eq_getElem?_getD, getElem?_eq_getElem (by omega)]
      rfl
    have hnext : writtenPgt t.pgt (BitVec.ofNat 17 c.index)
        (buffer.mem ((physAddrs.drop (16 * i)).take c.count)) c.count =
          writtenPgt pgt (BitVec.ofNat 17 entry.index) (physMem physAddrs)
            (min (16 * (i + 1)) entry.count) := by
      rw [writtenPgt_congr hmem, ht, hindex, BitVec.ofNat_add, show min (16 * i) entry.count = 16 *
        i by omega, writtenPgt_append _ _ _ (by omega)]
      exact congrArg _ (by omega)
    rw [range'_succ, map_cons, pgtCommands, MrTables.execAll, hexec, hdrop]
    obtain ⟨t', ht', hmr, hpgt⟩ := ih (i := i + 1) (t := ⟨t.mr, _, cur⟩) (by omega) hnext
    exact ⟨t', ht', hmr, by rw [hpgt, Nat.add_right_comm, Nat.add_assoc]⟩

end Chunks

/-- **The tables after a registration**: the entry of the region, and its pages. -/
theorem execAll_registered {debug : Bool} {t t' : Mtt} {env : MrEnv}
    {addr length pdHandle access mrKey : ℕ} {commands : List MrCommand} {idx : ℕ} {idxs : List ℕ}
    {entry : PgtEntry} {physAddrs : List ℕ} (hreg : Registered debug t t' env addr length pdHandle
    access mrKey commands idx idxs entry physAddrs) (buffer : PgtBuffer) (tables : MrTables) :
    ∃ tables', tables.execAll buffer commands = some tables' ∧
      tables'.mr = execUpdateMrTable tables.mr
        (updateMrTableDesc ⟨addr, length, mrKey, pdHandle, access, entry.index⟩) ∧
      tables'.pgt =
        writtenPgt tables.pgt (BitVec.ofNat 17 entry.index) (physMem physAddrs) entry.count := by
  have hlen : physAddrs.length = entry.count := by
    obtain ⟨phys, -, hphys⟩ := hreg.phys
    rw [← List.length_map (f := some), ← hphys, List.length_map, length_range]
  rw [hreg.commands, pgtChunks_eq]
  have hstart : tables.pgt = writtenPgt tables.pgt (BitVec.ofNat 17 entry.index) (physMem physAddrs)
      (min (16 * 0) entry.count) := by
    funext i
    simp [writtenPgt]
  obtain ⟨tables', htables', hmr, hpgt⟩ := execAll_pgtCommands
    (t := ⟨execUpdateMrTable tables.mr
      (updateMrTableDesc ⟨addr, length, mrKey, pdHandle, access, entry.index⟩), tables.pgt, _⟩)
    hlen hreg.bound (i := 0) (m := (entry.count + 15) / 16) (by omega) hstart
  refine ⟨tables', htables', hmr, ?_⟩
  rw [hpgt]
  exact congrArg _ (by omega)

/-! ## Translation in a registered region -/

theorem page_lt_getNumPage {addr length v : ℕ} (hv : addr ≤ v) (hv' : v < addr + length)
    (hlt : v < 2 ^ 64) : v / pageSize - addr / pageSize < getNumPage addr length := by
  rw [getNumPage, if_neg (by omega), pageSize]
  -- the last address does not pass the end, also where the end is cut to 64 bits
  dsimp only
  omega

theorem pteIdx_sub {addr v : ℕ} (index : ℕ) (hv : addr ≤ v) (hlt : v < 2 ^ 64)
    (hpages : v / 2 ^ 21 - addr / 2 ^ 21 < 2 ^ 17) :
    ((⟨BitVec.ofNat 17 index, BitVec.ofNat 64 addr,
      BitVec.ofNat 64 v⟩ : PgtAddrTranslateReq).pteIdx - BitVec.ofNat 17 index).toNat = v / 2 ^ 21 -
    addr / 2 ^ 21 := by
  have hnum : ∀ x < 2 ^ 64, (getPageNumber (BitVec.ofNat 64 x)).toNat = x / 2 ^ 21 % 2 ^ 27 := by
    intro x hx
    rw [getPageNumber, BitVec.toNat_setWidth, BitVec.toNat_ushiftRight, BitVec.toNat_ofNat,
      Nat.mod_eq_of_lt hx, Nat.shiftRight_eq_div_pow]
  rw [PgtAddrTranslateReq.pteIdx, add_sub_cancel_left, BitVec.toNat_setWidth, BitVec.toNat_sub,
    hnum v hlt, hnum addr (by omega)]
  omega

section Registered

variable {debug : Bool} {t t' : Mtt} {env : MrEnv} {addr length pdHandle access mrKey : ℕ}
  {commands : List MrCommand} {idx : ℕ} {idxs : List ℕ} {entry : PgtEntry} {physAddrs : List ℕ}

/-- The entry of a region that is registered. -/
def regionEntry (addr length access mrKey index : ℕ) : MemRegionTableEntry where
  pgtOffset := BitVec.ofNat 17 index
  baseVA := BitVec.ofNat 64 addr
  len := BitVec.ofNat 32 length
  accFlags := BitVec.ofNat 8 access
  keyPart := rkey2KeyPartMR (BitVec.ofNat 32 mrKey)

variable
  (hreg : Registered debug t t' env addr length pdHandle access mrKey commands idx idxs entry physAddrs)
include hreg

theorem execUpdateMrTable_registered (mr : BitVec 13 → Option MemRegionTableEntry) :
    execUpdateMrTable mr (updateMrTableDesc ⟨addr, length, mrKey, pdHandle, access, entry.index⟩) =
      Function.update mr (rkey2IndexMR (BitVec.ofNat 32 mrKey))
        (some (regionEntry addr length access mrKey entry.index)) := by
  have hpos := hreg.pos
  have hshort := hreg.short
  have hlength : BitVec.ofNat 32 length ≠ 0 := by
    intro h0
    have h0 : length % 2 ^ 32 = 0 := by simpa using congrArg BitVec.toNat h0
    obtain rfl : length = 0 := by omega
    rw [hreg.count] at hpos
    cases hpos
  rw [execUpdateMrTable]
  exact congrArg _ (if_neg hlength)

/-- **The translation of an address of a registered region** is that of its physical page. -/
theorem answer_registered
    {phys : ℕ → Option ℕ} (hphys : env.phys = .ok phys) (pgt : BitVec 17 →
      BitVec 27) {v : ℕ} (hv : addr ≤ v)
    (hv' : v < addr + length) (hlt : v < 2 ^ 64) : ∃ pa, phys (v / pageSize) = some pa ∧
      (⟨BitVec.ofNat 17 entry.index, BitVec.ofNat 64 addr,
        BitVec.ofNat 64 v⟩ : PgtAddrTranslateReq).answer
          (writtenPgt pgt (BitVec.ofNat 17 entry.index) (physMem physAddrs) entry.count) =
        restorePA (getPageNumber (BitVec.ofNat 64 pa)) (getPageOffset (BitVec.ofNat 64 v)) := by
  have hpage : v / pageSize - addr / pageSize < entry.count :=
    hreg.count ▸ page_lt_getNumPage hv hv' hlt
  have hbound : entry.index + entry.count ≤ 2 ^ 17 := hreg.bound
  have hle : addr / pageSize ≤ v / pageSize := Nat.div_le_div_right hv
  have hidx := pteIdx_sub entry.index hv hlt (show v / pageSize - addr / pageSize < 2 ^ 17 by omega)
  obtain ⟨phys', hphys', hmap⟩ := hreg.phys
  obtain rfl := Except.ok.inj (hphys.symm.trans hphys')
  -- the page of the address is the one that many pages behind the first
  have hget := congrArg (·[v / pageSize - addr / pageSize]?) hmap
  simp only [List.getElem?_map, getElem?_range hpage, Option.map_some,
    Nat.add_sub_cancel' hle] at hget
  obtain ⟨pa, hpa, hsome⟩ := map_eq_some_iff.1 hget.symm
  refine ⟨pa, hsome.symm, ?_⟩
  rw [PgtAddrTranslateReq.answer, writtenPgt, hidx]
  rw [if_pos (show v / 2 ^ 21 - addr / 2 ^ 21 < entry.count from hpage), physMem,
    getD_eq_getElem?_getD, show physAddrs[v / 2 ^ 21 - addr / 2 ^ 21]? = some pa from hpa]
  rfl

end Registered

/-- **A translation in a registered region is right if and only if the physical address of the page
is below `2 ^ 47`.** Every request is answered. -/
theorem translate_registered_iff {debug : Bool} {t t' : Mtt} {env : MrEnv}
    {addr length pdHandle access mrKey : ℕ} {commands : List MrCommand} {phys : ℕ → Option ℕ}
    (h : regMr debug t env addr length pdHandle access = some (.ok mrKey, t', commands))
    (hphys : env.phys = .ok phys) (buffer : PgtBuffer) (tables : MrTables) :
    ∃ tables' entry, tables.execAll buffer commands = some tables' ∧
      tables'.mr (rkey2IndexMR (BitVec.ofNat 32 mrKey)) = some entry ∧
      ∀ v, addr ≤ v → v < addr + length → v < 2 ^ 64 → ∃ pa, phys (v / pageSize) = some pa ∧
        (pa < 2 ^ 48 → pageSize ∣ pa → ∀ ls s k,
          Run (AddressTranslate.step tables'.pgt) (fun _ _ => True) {} ls s →
          (ls.flatMap (·.requests))[k]? = some ⟨entry.pgtOffset, entry.baseVA, BitVec.ofNat 64 v⟩ →
          (∃ ls' s', (∀ l ∈ ls', l.requests = []) ∧
            Run (AddressTranslate.step tables'.pgt) (fun _ _ => True) {} (ls ++ ls') s' ∧
              k < s'.translateResp.length) ∧
          ∀ resp, s.translateResp[k]? = some resp →
            (resp = BitVec.ofNat 64 (pa + v % pageSize) ↔ pa < 2 ^ 47)) := by
  obtain ⟨e, he, -⟩ | ⟨e, _, _, _, _, he, -⟩ | ⟨key, idx, idxs, entry, physAddrs, hkey, hreg⟩ :=
    regMr_cases h
  · cases he
  · cases he
  cases hkey
  obtain ⟨tables', htables', hmr, hpgt⟩ := execAll_registered hreg buffer tables
  refine ⟨tables', regionEntry addr length access mrKey entry.index, htables', ?_, ?_⟩
  · rw [hmr, execUpdateMrTable_registered hreg, Function.update_self]
  intro v hv hv' hlt
  obtain ⟨pa, hpa, hanswer⟩ := answer_registered hreg hphys tables.pgt hv hv' hlt
  refine ⟨pa, hpa, fun h48 hpage ls s k hrun hk => ⟨?_, fun resp hresp => ?_⟩⟩
  · obtain ⟨ls', s', hls', hrun', hresp⟩ := AddressTranslate.run_completes hrun
    refine ⟨ls', s', hls', hrun', ?_⟩
    rw [hresp, List.length_map]
    exact (List.getElem?_eq_some_iff.1 hk).1
  · obtain ⟨rest, hrest⟩ := AddressTranslate.run_answers hrun
    have hat := congrArg (·[k]?) hrest
    simp only [List.getElem?_append_left (List.getElem?_eq_some_iff.1 hresp).1,
      hresp, List.getElem?_map, hk, Option.map_some, Option.some.injEq, hpgt] at hat
    rw [hat, ← restorePA_eq_iff h48 hpage v, ← hanswer]
    rfl

/-- Memory whose pages are all at one physical address. -/
def memoryAt (pa : ℕ) : MrEnv := ⟨0x12, true, true, .ok fun _ => some pa⟩

def emptyBuffer : PgtBuffer := ⟨0, fun _ => 0⟩

def emptyTables : MrTables := ⟨fun _ => none, fun _ => 0, 0⟩

/-- A request, and the two rules that answer it. -/
def translateOne (entry : MemRegionTableEntry) (v : BitVec 64) : List TranslateLabel :=
  [.request ⟨entry.pgtOffset, entry.baseVA, v⟩, .handleTranslateReq, .handleTranslateResp]

/-- The key of the first region, and the translations of an address in it. -/
def translations (env : MrEnv) (addr length v : ℕ) : Option (ℕ × List (BitVec 64)) :=
  (regMr true {} env addr length 0 0).bind fun r =>
    r.1.toOption.bind fun mrKey =>
      (emptyTables.execAll emptyBuffer r.2.2).bind fun tables =>
        (tables.mr (rkey2IndexMR (BitVec.ofNat 32 mrKey))).bind fun entry =>
          (exec (AddressTranslate.step tables.pgt) (fun _ _ => True) {}
            (translateOne entry (BitVec.ofNat 64 v))).map fun s => (mrKey, s.translateResp)

/-- A region with its page at `2 ^ 47`: the translation is extended by ones. -/
theorem translate_high_page :
    ∃ t' commands tables' entry s,
      regMr true {} (memoryAt (2 ^ 47)) 0x200000 1 0 0 = some (.ok 0x1fff12, t', commands) ∧
      emptyTables.execAll emptyBuffer commands = some tables' ∧
      tables'.mr (rkey2IndexMR 0x1fff12) = some entry ∧
      Run (AddressTranslate.step tables'.pgt) (fun _ _ => True) {} (translateOne entry 0x200000) s ∧
      s.translateResp = [0xFFFF800000000000] ∧
      (0xFFFF800000000000 : BitVec 64) ≠ BitVec.ofNat 64 (2 ^ 47 + 0x200000 % pageSize) := by
  have h : translations (memoryAt (2 ^ 47)) 0x200000 1 0x200000 =
    some (0x1fff12, [0xFFFF800000000000]) := by
    decide +kernel
  obtain ⟨⟨r, t', commands⟩, hreg, h⟩ := bind_eq_some_iff.1 h
  obtain ⟨mrKey, hkey, h⟩ := bind_eq_some_iff.1 h
  obtain ⟨tables', htables', h⟩ := bind_eq_some_iff.1 h
  obtain ⟨entry, hentry, h⟩ := bind_eq_some_iff.1 h
  obtain ⟨s, hs, h⟩ := map_eq_some_iff.1 h
  obtain ⟨rfl, hresp⟩ := Prod.mk.inj h
  cases r with
  | error e => cases hkey
  | ok key =>
    cases hkey
    exact ⟨t', commands, tables', entry, s, hreg, htables', hentry, Run.of_exec hs,
      hresp, by decide⟩

/-- Memory whose pages are in descending order. -/
def descendingMemory : MrEnv := ⟨0x12, true, true, .ok fun page => some ((64 - page) * pageSize)⟩

/-- A region of four pages, and an address in the third of them. -/
theorem translate_low_page :
    ∃ t' commands tables' entry,
      regMr true {} descendingMemory 0x3ffff0 0x400020 0 0 = some (.ok 0x1fff12, t', commands) ∧
      emptyTables.execAll emptyBuffer commands = some tables' ∧
      tables'.mr (rkey2IndexMR 0x1fff12) = some entry ∧
      ∀ ls s, Run (AddressTranslate.step tables'.pgt) (fun _ _ => True) {} ls s →
        (ls.flatMap (·.requests))[0]? = some ⟨entry.pgtOffset, entry.baseVA, 0x600009⟩ →
        ∀ resp, s.translateResp[0]? = some resp → resp = 0x7a00009 := by
  have h : (regMr true {} descendingMemory 0x3ffff0 0x400020 0 0).map (·.1.toOption) =
      some (some 0x1fff12) := by
    decide +kernel
  obtain ⟨⟨r, t', commands⟩, hreg, h⟩ := map_eq_some_iff.1 h
  cases r with
  | error e => cases h
  | ok key =>
    cases h
    obtain ⟨tables', entry, htables', hentry, htrans⟩ :=
      translate_registered_iff hreg rfl emptyBuffer emptyTables
    refine ⟨t', commands, tables', entry, hreg, htables', hentry, fun ls s hrun hk resp hresp => ?_⟩
    obtain ⟨pa, hpa, htrans⟩ := htrans 0x600009 (by decide) (by decide) (by decide)
    cases hpa
    exact ((htrans (by decide) (by decide) ls s 0 hrun hk).2 resp hresp).2 (by decide)

end OpenRdma.Link
