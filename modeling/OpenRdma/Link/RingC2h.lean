import OpenRdma.Driver.Rings

/-!
# The ring from the card to the host

Descriptors enter the card, which writes them to the ring in bursts; the writes land in host memory
in their order, and the driver reads what has landed. The system has four counts: `consumed`
descriptors were read by the driver, `landed` are in memory, and after those that are posted and
those in the queue for data comes the one that the shadow of the head is for. The card reserves the
slots of a burst before it sends it, by the tail that the driver wrote last.
-/

namespace OpenRdma.Link

open OpenRdma.Driver OpenRdma.Rtl List Option RingbufC2h

structure PostedWrite where
  addr : BitVec 64
  data : RawDesc
  isLast : Bool
  deriving DecidableEq

/-- What takes the writes of the card: addresses of bursts that wait for their data, the next
address of the burst whose data is coming, the writes that have not landed, and the responses to
bursts that have. -/
structure DmaWriter where
  addrs : List (BitVec 64)
  burst : Option (BitVec 64)
  posted : List PostedWrite
  owed : ℕ

/-- The trait of the elements of a ring, for what `try_pop` uses of it. -/
structure FromRingBytes (α : Type) where
  hasNext : RawDesc → Bool
  fromBytes : List RawDesc → Option α

/-- The card, the writer, the memory and the ring of the driver. The last five fields are the
history: what entered, landed and was consumed, the groups that the calls of `try_pop` read, and
what they returned. -/
structure C2hSystem (α : Type) where
  card : RingbufC2h
  dma : DmaWriter
  mem : BitVec 64 → RawDesc
  ring : ConsumerRing
  entered : List RawDesc
  landed : List (BitVec 64 × RawDesc)
  consumed : ℕ
  popped : List (List RawDesc)
  returned : List (Option α)

/-- A descriptor enters, or a step of the rest. -/
inductive C2hLabel
  | enter (desc : RawDesc)
  | card (rule : RingbufC2h.Rule)
  | takeAddr
  | takeBeat
  | land
  | respond (ok : Bool)
  | driver
  deriving DecidableEq

def C2hLabel.Own (l : C2hLabel) : Prop := ∀ desc, l ≠ .enter desc

namespace C2hSystem

variable {α : Type}

/-- The state after a reset: the card and the driver have the same base address. -/
def init (baseAddr : BitVec 64) (zeroBasedDescWriteCnt : BitVec 2) (mem : BitVec 64 → RawDesc) :
    C2hSystem α :=
  ⟨.init baseAddr zeroBasedDescWriteCnt, ⟨[], none, [], 0⟩, mem, ⟨baseAddr, 0, .start⟩, [],
    [], 0, [], []⟩

/-- A beat of the burst with this address is taken. -/
def accept (s : C2hSystem α) (addr : BitVec 64) (addrs : List (BitVec 64)) (ds : DescDataStream)
    (beats : List DescDataStream) : C2hSystem α :=
  { s with
    card := { s.card with dmaWriteDataQ := beats }
    dma := { s.dma with
      addrs := addrs
      burst := if ds.isLast then none else some (addr + 32)
      posted := s.dma.posted ++ [⟨addr, ds.data, ds.isLast⟩] } }

/-- The next step of the driver in `try_pop`. -/
def tryPop (spec : FromRingBytes α) (s : C2hSystem α) : Option (C2hSystem α) :=
  match s.ring.call with
  | .start =>
    (s.ring.ready spec.hasNext s.mem).map fun n =>
      { s with ring := { s.ring with call := .readAndAdvance [] n } }
  | .readAndAdvance popped left =>
    let (desc, ring, mem) := s.ring.readAndAdvance s.mem
    let call := if left ≤ 1 then .writeTailCsr (popped ++ [desc])
      else .readAndAdvance (popped ++ [desc]) (left - 1)
    some { s with mem := mem, ring := { ring with call := call }, consumed := s.consumed + 1 }
  | .writeTailCsr popped =>
    some { s with
      card := { s.card with tailReg := (s.ring.cachedTail &&& hwPtrMask).setWidth 13 }
      ring := { s.ring with call := .start }
      popped := s.popped ++ [popped]
      returned := s.returned ++ [spec.fromBytes popped] }

/-- A step of the card, of the writer or of the driver. -/
def step (spec : FromRingBytes α) (s : C2hSystem α) : C2hLabel → Option (C2hSystem α)
  | .enter desc =>
    if s.card.inputQ.length < 1 then
      some { s with
        card := { s.card with inputQ := s.card.inputQ ++ [desc] }
        entered := s.entered ++ [desc] }
    else none
  | .card rule => (s.card.fire rule).map fun card => { s with card := card }
  | .takeAddr =>
    match s.card.dmaWriteAddrQ with
    | [] => none
    | req :: reqs => some { s with
        card := { s.card with dmaWriteAddrQ := reqs }
        dma := { s.dma with addrs := s.dma.addrs ++ [req.addr] } }
  | .takeBeat =>
    match s.card.dmaWriteDataQ with
    | [] => none
    | ds :: beats =>
      match s.dma.burst, s.dma.addrs with
      | some addr, addrs => some (s.accept addr addrs ds beats)
      | none, addr :: addrs => some (s.accept addr addrs ds beats)
      | none, [] => none
  | .land =>
    match s.dma.posted with
    | [] => none
    | w :: ws => some { s with
        dma := { s.dma with posted := ws, owed := s.dma.owed + if w.isLast then 1 else 0 }
        mem := Function.update s.mem w.addr w.data
        landed := s.landed ++ [(w.addr, w.data)] }
  | .respond ok =>
    if 0 < s.dma.owed ∧ s.card.dmaWriteRespQ.length < 1 then
      some { s with
        card := { s.card with dmaWriteRespQ := s.card.dmaWriteRespQ ++ [ok] }
        dma := { s.dma with owed := s.dma.owed - 1 } }
    else none
  | .driver => s.tryPop spec

/-- What enters are the descriptors of the groups, in their order. -/
def Possible (groups : List (List RawDesc)) (s : C2hSystem α) : C2hLabel → Prop
  | .enter desc => s.entered ++ [desc] <+: groups.flatten
  | _ => True

instance (groups : List (List RawDesc)) (s : C2hSystem α) (l : C2hLabel) :
    Decidable (s.Possible groups l) := by
  unfold Possible
  split <;> infer_instance

end C2hSystem

/-- One valid descriptor that no other follows, or two where the first says so. -/
def IsGroup (hasNext : RawDesc → Bool) : List RawDesc → Prop
  | [a] => a.valid = true ∧ hasNext a = false
  | [a, b] => a.valid = true ∧ hasNext a = true ∧ b.valid = true
  | _ => False

instance (hasNext : RawDesc → Bool) : (g : List RawDesc) → Decidable (IsGroup hasNext g)
  | [_] => inferInstanceAs (Decidable (_ ∧ _))
  | [_, _] => inferInstanceAs (Decidable (_ ∧ _))
  | [] | _ :: _ :: _ :: _ => .isFalse id

theorem IsGroup.length_le {hasNext : RawDesc → Bool} {g : List RawDesc} (h : IsGroup hasNext g) :
    g.length ≤ 2 := by
  match g, h with
  | [_], _ => exact Nat.le_succ 1
  | [_, _], _ => exact Nat.le_refl 2

/-! ## Bursts -/

/-- Beats follow each other in bursts: the next one is in an open burst, and after all of them it is
open or not. -/
def Chain : Bool → List DescDataStream → Bool → Prop
  | o, [], o' => o = o'
  | o, ds :: beats, o' => ds.isFirst = !o ∧ Chain (!ds.isLast) beats o'

/-- The numbers of the beats that start a burst. -/
def starts : ℕ → List DescDataStream → List ℕ
  | _, [] => []
  | n, ds :: beats => (if ds.isFirst then [n] else []) ++ starts (n + 1) beats

theorem Chain.append {o o' : Bool} {beats : List DescDataStream} {ds : DescDataStream}
    (h : Chain o beats o') (hfirst : ds.isFirst = !o') : Chain o (beats ++ [ds]) (!ds.isLast) := by
  induction beats generalizing o with
  | nil =>
    obtain rfl : o = o' := h
    exact ⟨hfirst, rfl⟩
  | cons d beats ih => exact ⟨h.1, ih h.2⟩

theorem starts_append (n : ℕ) (beats : List DescDataStream) (ds : DescDataStream) :
    starts n (beats ++ [ds]) = starts n beats ++ if ds.isFirst then [n + beats.length] else [] := by
  induction beats generalizing n with
  | nil => simp [starts]
  | cons d beats ih =>
    rw [cons_append, starts, ih, starts, append_assoc, length_cons, Nat.add_right_comm n 1,
      Nat.add_assoc n]

/-- How many descriptors are left of the burst the card sends. -/
def leftOf (r : RingbufC2h) : ℕ := if r.isSendingDescBodyReg then r.zeroBasedDescWriteCntReg.toNat +
    1 else 0

/-- The number of the descriptor that is sent next, when `n` have landed. -/
def sentOf (n : ℕ) (r : RingbufC2h) (d : DmaWriter) : ℕ :=
  n + d.posted.length + r.dmaWriteDataQ.length

/-- Bursts, addresses and pointers fit the counts: `n` descriptors have landed, and by the tail the
driver has consumed `t`. -/
structure Flow (n t : ℕ) (r : RingbufC2h) (d : DmaWriter) : Prop where
  headShadow : r.headShadowReg = BitVec.ofNat 13 (sentOf n r d)
  tail : r.tailReg = BitVec.ofNat 13 t
  le : t ≤ n
  validCounter : r.validCounter = BitVec.ofNat 4 r.bufQ.length
  bufQ : r.bufQ.length ≤ 8
  room : sentOf n r d + leftOf r ≤ t + 4096
  available : leftOf r ≤ r.bufQ.length
  block : sentOf n r d % 4 + leftOf r ≤ 4
  chain : Chain d.burst.isSome r.dmaWriteDataQ (!r.isWriteStreamFirstBeatReg)
  first : r.isSendingDescBodyReg = false → r.isWriteStreamFirstBeatReg = true
  inner : ∀ i ds, r.dmaWriteDataQ[i]? = some ds → ds.isLast = false →
    (n + d.posted.length + i) % 4 ≠ 3
  burst : ∀ addr, d.burst = some addr → addr = (ringAt r.baseAddrReg).slot (n + d.posted.length)
  addrs : d.addrs ++ r.dmaWriteAddrQ.map (·.addr) = (starts (n + d.posted.length) r.dmaWriteDataQ ++
    if r.isSendingDescBodyReg && r.isWriteStreamFirstBeatReg then [sentOf n r d] else []).map
      (ringAt r.baseAddrReg).slot
  posted : ∀ i w, d.posted[i]? = some w → w.addr = (ringAt r.baseAddrReg).slot (n + i)
  inFlight : r.inFlightWriteReqHeaadUpdateQ.length = r.dmaWriteDataQ.countP (·.isLast) +
    d.posted.countP (·.isLast) + d.owed + r.dmaWriteRespQ.length

theorem flow_init (baseAddr : BitVec 64) (cnt : BitVec 2) :
    Flow 0 0 (.init baseAddr cnt) ⟨[], none, [], 0⟩ where
  headShadow := rfl
  tail := rfl
  le := Nat.le_refl 0
  validCounter := rfl
  bufQ := Nat.zero_le 8
  room := Nat.zero_le _
  available := Nat.le_refl 0
  block := Nat.zero_le 4
  chain := rfl
  first := fun _ => rfl
  inner := fun _ _ h => absurd h (by simp [init])
  burst := fun _ h => absurd h (by simp)
  addrs := rfl
  posted := fun _ _ h => absurd h (by simp)
  inFlight := rfl

section Flow

variable {n t : ℕ} {r r' : RingbufC2h} {d : DmaWriter}

theorem Flow.forwardInput (h : Flow n t r d) (hs : r.forwardInput = some r') : Flow n t r' d := by
  rw [RingbufC2h.forwardInput] at hs
  split at hs
  · cases hs
  · obtain ⟨hlt, rfl⟩ := ite_some_none_eq_some.1 hs
    exact { h with
      validCounter := by
        rw [h.validCounter, length_append]
        exact (BitVec.ofNat_add _ 1).symm
      bufQ := by
        rw [length_append]
        exact hlt
      available := h.available.trans (by
        rw [length_append]
        exact Nat.le_add_right _ _) }

theorem Flow.handleBatchDelay (h : Flow n t r d) (hs : r.handleBatchDelay = some r') :
    Flow n t r' d := by
  rw [RingbufC2h.handleBatchDelay] at hs
  split at hs
  · obtain ⟨-, hs⟩ := Option.ite_none_left_eq_some.1 hs
    cases hs
    exact { h with }
  · obtain ⟨-, hs⟩ := Option.ite_none_left_eq_some.1 hs
    cases hs
    exact { h with }

theorem toNat_minBits {w : ℕ} (a b : BitVec w) :
    (RingbufC2h.minBits a b).toNat = min a.toNat b.toNat := by
  rw [minBits]
  split
  · next h => exact (Nat.min_eq_left h).symm
  · next h => exact (Nat.min_eq_right (Nat.le_of_lt (BitVec.not_le.1 h))).symm

theorem Flow.toNat_freeSlotCnt (h : Flow n t r d) :
    r.freeSlotCnt.toNat = t + 4096 - sentOf n r d := by
  have hroom := h.room
  have hle := h.le
  have hsent : n ≤ sentOf n r d := by
    rw [sentOf]
    omega
  have hdist : (r.headShadowReg - r.tailReg).toNat = sentOf n r d - t := by
    rw [h.headShadow, h.tail]
    exact toNat_ofNat_sub_ofNat (by omega) (by omega)
  have hsize : (4096 : RingbufPointer).toNat = 4096 := rfl
  rw [freeSlotCnt, BitVec.toNat_sub]
  omega

theorem Flow.toNat_zeroBasedDescWriteCnt (h : Flow n t r d) (hne : r.bufQ ≠ [])
    (hfree : 0 < r.freeSlotCnt) : r.zeroBasedDescWriteCnt.toNat + 1 ≤ r.bufQ.length ∧
      sentOf n r d + (r.zeroBasedDescWriteCnt.toNat + 1) ≤ t + 4096 ∧
      sentOf n r d % 4 + (r.zeroBasedDescWriteCnt.toNat + 1) ≤ 4 := by
  have hpos : 0 < r.freeSlotCnt.toNat := hfree
  rw [h.toNat_freeSlotCnt] at hpos
  have hle := h.le
  have hsent : n ≤ sentOf n r d := by
    rw [sentOf]
    omega
  have hdist : (r.headShadowReg - r.tailReg).toNat = sentOf n r d - t := by
    rw [h.headShadow, h.tail]
    exact toNat_ofNat_sub_ofNat (by omega) (by omega)
  have hfreeCnt : ((4095 : RingbufPointer) - (r.headShadowReg - r.tailReg)).toNat = t +
    4095 - sentOf n r d := by
    have hsize : (4095 : RingbufPointer).toNat = 4095 := rfl
    rw [BitVec.toNat_sub]
    omega
  have hlen : 0 < r.bufQ.length := length_pos_of_ne_nil hne
  have hbuf := h.bufQ
  have havail : ((r.validCounter - 1).setWidth 13).toNat = r.bufQ.length - 1 := by
    have hone : (1 : BitVec 4).toNat = 1 := rfl
    rw [h.validCounter, BitVec.toNat_setWidth, BitVec.toNat_sub, BitVec.toNat_ofNat]
    omega
  have hblock : ((3 : RingbufPointer) - (r.headShadowReg.setWidth 2).setWidth 13).toNat =
    3 - sentOf n r d % 4 := by
    have hthree : (3 : RingbufPointer).toNat = 3 := rfl
    rw [BitVec.toNat_sub, BitVec.toNat_setWidth, BitVec.toNat_setWidth, h.headShadow,
      BitVec.toNat_ofNat]
    omega
  have hcnt : r.zeroBasedDescWriteCnt.toNat =
      min (min (3 - sentOf n r d % 4) (r.bufQ.length - 1)) (t + 4095 - sentOf n r d) % 4 := by
    rw [zeroBasedDescWriteCnt, BitVec.toNat_setWidth, toNat_minBits, toNat_minBits, hfreeCnt,
      havail, hblock]
  omega

theorem Flow.prepareDmaWrite (h : Flow n t r d) (hs : r.prepareDmaWrite = some r') :
    Flow n t r' d := by
  obtain ⟨⟨hsending, -, hne, hfree, -⟩, rfl⟩ := ite_some_none_eq_some.1 hs
  obtain ⟨havailable, hroom, hblock⟩ := h.toNat_zeroBasedDescWriteCnt hne hfree
  have haddrs := h.addrs
  rw [hsending, Bool.false_and, if_neg Bool.false_ne_true, append_nil] at haddrs
  exact { h with
    room := hroom
    available := havailable
    block := hblock
    first := fun hf => absurd hf (by simp)
    addrs := by
      change d.addrs ++ (r.dmaWriteAddrQ ++ [_]).map _ = map _ (starts _ r.dmaWriteDataQ ++
        if true && r.isWriteStreamFirstBeatReg then [sentOf n r d] else [])
      rw [h.first hsending, Bool.true_and, if_pos rfl, map_append, ← append_assoc, haddrs,
        map_append, map_singleton, map_singleton, h.headShadow, addr_ofNat] }

theorem leftOf_send (hsending : r.isSendingDescBodyReg = true) (desc : RawDesc)
    (descs : List RawDesc) : leftOf (r.send desc descs) + 1 = leftOf r := by
  have heq : leftOf (r.send desc descs) = if !r.isLast then (r.zeroBasedDescWriteCntReg - 1).toNat +
    1 else 0 := rfl
  rw [heq, leftOf, hsending, if_pos rfl, isLast]
  by_cases h0 : r.zeroBasedDescWriteCntReg = 0
  · rw [h0]
    rfl
  · have hne : r.zeroBasedDescWriteCntReg.toNat ≠ 0 := fun h => h0 (BitVec.eq_of_toNat_eq h)
    have hone : (1 : BitVec 2).toNat = 1 := rfl
    rw [decide_eq_false h0, Bool.not_false, if_pos rfl, BitVec.toNat_sub]
    omega

theorem sentOf_send (n : ℕ) (r : RingbufC2h) (d : DmaWriter) (desc : RawDesc)
    (descs : List RawDesc) : sentOf n (r.send desc descs) d = sentOf n r d + 1 := by
  rw [sentOf, sentOf]
  change _ + (r.dmaWriteDataQ ++ [_]).length = _
  rw [length_append, length_singleton, ← Nat.add_assoc]

theorem leftOf_send_pos (hsending : r.isSendingDescBodyReg = true) (hlast : r.isLast = false)
    (desc : RawDesc) (descs : List RawDesc) : 2 ≤ leftOf r := by
  have heq : leftOf (r.send desc descs) = if !r.isLast then (r.zeroBasedDescWriteCntReg - 1).toNat +
    1 else 0 := rfl
  rw [hlast, Bool.not_false, if_pos rfl] at heq
  have hleft := leftOf_send hsending desc descs
  omega

variable (h : Flow n t r d)
include h

theorem Flow.send {desc : RawDesc} {descs : List RawDesc} (hq : r.bufQ = desc :: descs)
    (hsending : r.isSendingDescBodyReg = true) : Flow n t (r.send desc descs) d := by
  have hleft := leftOf_send hsending desc descs
  have hsent := sentOf_send n r d desc descs
  have hlen : r.bufQ.length = descs.length + 1 := congrArg length hq
  have hroom := h.room
  have havailable := h.available
  have hblock := h.block
  have hbuf := h.bufQ
  exact { h with
    headShadow := by
      rw [hsent, BitVec.ofNat_add, ← h.headShadow]
      rfl
    validCounter := by
      change r.validCounter - 1 = BitVec.ofNat 4 descs.length
      rw [h.validCounter, hlen, BitVec.ofNat_add]
      exact BitVec.add_sub_cancel _ _
    bufQ := by
      change descs.length ≤ 8
      omega
    room := by
      omega
    available := by
      change _ ≤ descs.length
      omega
    block := by
      omega
    chain := h.chain.append (Bool.not_not _).symm
    first := fun hf => (Bool.not_eq_false' _).mp hf
    inner := by
      intro i ds hi hlast
      change (r.dmaWriteDataQ ++ [_])[i]? = some ds at hi
      rcases Nat.lt_or_ge i r.dmaWriteDataQ.length with hlt | hge
      · rw [getElem?_append_left hlt] at hi
        exact h.inner i ds hi hlast
      · -- the descriptor just sent is followed by another one of its block
        have hi' := (List.getElem?_eq_some_iff.1 hi).1
        rw [length_append, length_singleton] at hi'
        obtain rfl : i = r.dmaWriteDataQ.length := by omega
        rw [getElem?_concat_length] at hi
        cases hi
        have hpos := leftOf_send_pos hsending hlast desc descs
        rw [sentOf] at hblock
        omega
    addrs := by
      have haddrs := h.addrs
      rw [hsending] at haddrs
      change d.addrs ++ r.dmaWriteAddrQ.map _ = map _ (starts _ (r.dmaWriteDataQ ++ [_]) ++
        if !r.isLast && r.isLast then _ else _)
      rw [Bool.not_and_self, if_neg Bool.false_ne_true, append_nil, starts_append]
      exact haddrs
    inFlight := by
      change (r.inFlightWriteReqHeaadUpdateQ ++ if r.isLast then _ else _).length =
        (r.dmaWriteDataQ ++ [_]).countP _ + _ + _ + _
      rw [length_append, h.inFlight, countP_append]
      cases r.isLast with
      | false => rfl
      | true =>
        change _ + 1 = _ + 1 + _ + _ + _
        ac_rfl }

theorem Flow.doDmaWrite (hs : r.doDmaWrite = some r') : Flow n t r' d := by
  rw [RingbufC2h.doDmaWrite] at hs
  split at hs
  · cases hs
  · next hq =>
    obtain ⟨⟨hsending, -, -⟩, rfl⟩ := ite_some_none_eq_some.1 hs
    exact h.send hq hsending

theorem Flow.handleWriteResp (hs : r.handleWriteResp = some r') : Flow n t r' d := by
  rw [RingbufC2h.handleWriteResp] at hs
  split at hs
  · next hresp hhead =>
    cases hs
    have hinFlight := h.inFlight
    rw [hresp, hhead] at hinFlight
    exact { h with inFlight := Nat.succ.inj hinFlight }
  · cases hs

theorem Flow.fire {rule : RingbufC2h.Rule} (hs : r.fire rule = some r') : Flow n t r' d := by
  cases rule with
  | forwardInput => exact h.forwardInput hs
  | handleBatchDelay => exact h.handleBatchDelay hs
  | prepareDmaWrite => exact h.prepareDmaWrite hs
  | doDmaWrite => exact h.doDmaWrite hs
  | handleWriteResp => exact h.handleWriteResp hs

theorem Flow.takeAddr {req : RingbufDmaWriteReq} {reqs : List RingbufDmaWriteReq}
    (hq : r.dmaWriteAddrQ = req :: reqs) :
    Flow n t { r with dmaWriteAddrQ := reqs } { d with addrs := d.addrs ++ [req.addr] } :=
  { h with
    addrs := by
      rw [append_assoc, singleton_append, ← map_cons, ← hq]
      exact h.addrs }

theorem Flow.next {ds : DescDataStream} {beats : List DescDataStream}
    (hq : r.dmaWriteDataQ = ds :: beats) {addr : BitVec 64} {addrs : List (BitVec 64)}
    (haddr : d.burst = some addr ∧ d.addrs = addrs ∨ d.burst = none ∧ d.addrs = addr :: addrs) :
    addr = (ringAt r.baseAddrReg).slot (n + d.posted.length) ∧
      addrs ++ r.dmaWriteAddrQ.map (·.addr) = (starts (n + d.posted.length + 1) beats ++
        if r.isSendingDescBodyReg && r.isWriteStreamFirstBeatReg then [sentOf n r d] else []).map
          (ringAt r.baseAddrReg).slot := by
  have hchain := h.chain
  have haddrs := h.addrs
  rw [hq] at hchain
  rw [hq, starts, hchain.1] at haddrs
  rcases haddr with ⟨hburst, rfl⟩ | ⟨hburst, hcons⟩
  · rw [hburst] at haddrs
    exact ⟨h.burst addr hburst, haddrs⟩
  · rw [hburst, hcons] at haddrs
    exact cons.inj haddrs

theorem Flow.takeBeat {ds : DescDataStream} {beats : List DescDataStream}
    (hq : r.dmaWriteDataQ = ds :: beats) {addr : BitVec 64} {addrs : List (BitVec 64)}
    (haddr : d.burst = some addr ∧ d.addrs = addrs ∨ d.burst = none ∧ d.addrs = addr :: addrs) :
    Flow n t { r with dmaWriteDataQ := beats } { d with
      addrs := addrs
      burst := if ds.isLast then none else some (addr + 32)
      posted := d.posted ++ [⟨addr, ds.data, ds.isLast⟩] } := by
  obtain ⟨hslot, haddrs⟩ := h.next hq haddr
  have hchain := h.chain
  have hinFlight := h.inFlight
  rw [hq] at hchain
  rw [hq, countP_cons] at hinFlight
  have hsent : sentOf n { r with dmaWriteDataQ := beats } { d with
      addrs := addrs
      burst := if ds.isLast then none else some (addr + 32)
      posted := d.posted ++ [⟨addr, ds.data, ds.isLast⟩] } = sentOf n r d := by
    simp only [sentOf, hq, length_append, length_cons, length_nil]
    omega
  have hlen : n + (d.posted ++ [(⟨addr, ds.data, ds.isLast⟩ : PostedWrite)]).length = n +
    d.posted.length + 1 := by
    rw [length_append, length_singleton, ← Nat.add_assoc]
  exact { h with
    headShadow := by
      rw [hsent]
      exact h.headShadow
    room := by
      rw [hsent]
      exact h.room
    block := by
      rw [hsent]
      exact h.block
    chain := by
      have hopen : (if ds.isLast then none else some (addr + 32)).isSome = !ds.isLast := by
        cases ds.isLast <;> rfl
      rw [hopen]
      exact hchain.2
    inner := by
      intro i b hi hlast
      rw [hlen, Nat.add_assoc, Nat.add_comm 1]
      exact h.inner (i + 1) b (hq ▸ hi) hlast
    burst := by
      intro a ha
      rw [hlen]
      -- the address of the next beat of a burst is that of the next slot, which is in the same block
      obtain ⟨hlast, ha⟩ := Option.ite_none_left_eq_some.1 ha
      have hblock := h.inner 0 ds (hq ▸ rfl) (Bool.eq_false_iff.2 hlast)
      rw [← Option.some.inj ha, hslot]
      exact slot_succ _ (by omega)
    addrs := by
      rw [hlen, hsent]
      exact haddrs
    posted := by
      intro i w hi
      rcases Nat.lt_or_ge i d.posted.length with hlt | hge
      · rw [getElem?_append_left hlt] at hi
        exact h.posted i w hi
      · have hi' := (List.getElem?_eq_some_iff.1 hi).1
        rw [length_append, length_singleton] at hi'
        obtain rfl : i = d.posted.length := by omega
        rw [getElem?_concat_length] at hi
        cases hi
        exact hslot
    inFlight := by
      rw [hinFlight, countP_append, countP_singleton]
      ac_rfl }

theorem Flow.land {w : PostedWrite} {ws : List PostedWrite} (hq : d.posted = w :: ws) :
    Flow (n + 1) t r { d with posted := ws, owed := d.owed + if w.isLast then 1 else 0 } := by
  have hlen : n + 1 + ws.length = n + d.posted.length := by
    rw [hq, length_cons, Nat.add_assoc, Nat.add_comm 1]
  have hsent : sentOf (n + 1) r { d with posted := ws, owed := d.owed +
    if w.isLast then 1 else 0 } =
      sentOf n r d := congrArg (· + _) hlen
  have hinFlight := h.inFlight
  rw [hq, countP_cons] at hinFlight
  exact { h with
    headShadow := hsent ▸ h.headShadow
    le := Nat.le_succ_of_le h.le
    room := hsent ▸ h.room
    block := hsent ▸ h.block
    inner := hlen ▸ h.inner
    burst := hlen ▸ h.burst
    addrs := by
      rw [hlen, hsent]
      exact h.addrs
    posted := by
      intro i w' hi
      rw [Nat.add_assoc, Nat.add_comm 1]
      exact h.posted (i + 1) w' (hq ▸ hi)
    inFlight := by
      dsimp only
      rw [hinFlight]
      ac_rfl }

theorem Flow.respond (howed : 0 < d.owed) (ok : Bool) :
    Flow n t { r with dmaWriteRespQ := r.dmaWriteRespQ ++ [ok] } { d with owed := d.owed - 1 } :=
  { h with
    inFlight := by
      have hinFlight := h.inFlight
      dsimp only
      rw [length_append, length_singleton]
      omega }

theorem Flow.writeTail {t' : ℕ} (hle : t ≤ t') (hle' : t' ≤ n) :
    Flow n t' { r with tailReg := BitVec.ofNat 13 t' } d :=
  { h with
    tail := rfl
    le := hle'
    room := h.room.trans (Nat.add_le_add_right hle _) }

end Flow

end OpenRdma.Link
