import OpenRdma.Driver.Rings
import OpenRdma.Foundations.Run

/-!
# The ring from the host to the card is a queue

The driver writes descriptors to the ring and then the head; the card reads up to the head, a burst
at a time, and counts in the tail what came back. The driver writes to slots that are free by the
tail it read, and the tail only grows, so that a descriptor stays in its slot until the card has it.
-/

namespace OpenRdma.Link

open OpenRdma.Driver OpenRdma.Rtl List Option RingbufH2c

/-- A burst that is read: the next address and how many descriptors are left. -/
structure ReadBurst where
  addr : BitVec 64
  left : ℕ
  isFirst : Bool
  deriving DecidableEq

/-- The card, the burst that is read and what was read, the memory and the ring of the driver. The
last fields are the history: the addresses that the driver wrote, the descriptors pushed, how many
the card received, those that left it, and whether its assertions held. -/
structure H2cSystem where
  card : RingbufH2c
  burst : Option ReadBurst
  ready : List DescDataStream
  mem : BitVec 64 → RawDesc
  ring : ProducerRing
  written : List (BitVec 64)
  pushed : List RawDesc
  received : ℕ
  out : List RawDesc
  asserted : Bool

/-- A step of a call of the driver, of the card, of the memory or of what takes the descriptors. -/
inductive H2cLabel
  | push (kind : PushKind) (descs : List RawDesc)
  | writeSlot
  | writeHead
  | forwardOutput
  | sendDmaReq
  | recvDmaResp
  | takeReq
  | read
  | deliver
  | takeDesc
  deriving DecidableEq

namespace H2cSystem

/-- The state after a reset: the card and the driver have the same base address. -/
def init (baseAddr : BitVec 64) (mem : BitVec 64 → RawDesc) : H2cSystem :=
  ⟨.init baseAddr, none, [], mem, ⟨baseAddr, 0, none⟩, [], [], 0, [], true⟩

/-- The address that a call writes next. -/
def nextAddr (s : H2cSystem) (c : PushCall) : BitVec 64 :=
  bufferAddr s.ring.physAddr (s.ring.writeIndex c)

/-- A step of the card, of the reader or of the driver. -/
def step (s : H2cSystem) : H2cLabel → Option H2cSystem
  | .push kind descs =>
    match s.ring.call with
    | some _ => none
    | none =>
      -- a call that finds no room returns at once
      some (if s.ring.accepts (s.card.tailReg.setWidth 32) kind descs then
        { s with ring := { s.ring with call := some ⟨kind, descs, 0⟩ } } else s)
  | .writeSlot =>
    match s.ring.call with
    | none => none
    | some c =>
      match c.descs[c.written]? with
      | none => none
      | some desc => some { s with
          mem := Function.update s.mem (s.nextAddr c) desc
          ring := { s.ring with call := some { c with written := c.written + 1 } }
          written := s.written ++ [s.nextAddr c] }
  | .writeHead =>
    match s.ring.call with
    | none => none
    | some c =>
      if c.written = c.descs.length then
        let newHead := s.ring.cachedHead + BitVec.ofNat 32 c.descs.length
        some { s with
          card := { s.card with headReg := newHead.setWidth 13 }
          ring := { s.ring with cachedHead := newHead, call := none }
          pushed := s.pushed ++ c.descs }
      else none
  | .forwardOutput => s.card.forwardOutput.map fun card => { s with card := card }
  | .sendDmaReq => s.card.sendDmaReq.map fun card => { s with card := card }
  | .recvDmaResp => s.card.recvDmaResp.map fun out =>
      { s with card := out.1, received := s.received + 1, asserted := s.asserted && out.2 }
  | .takeReq =>
    match s.burst, s.card.dmaReqQ with
    | none, req :: reqs => some { s with
        card := { s.card with dmaReqQ := reqs }
        burst := some ⟨req.addr, req.zeroBasedDescReadCnt.toNat + 1, true⟩ }
    | _, _ => none
  | .read =>
    match s.burst with
    | none => none
    | some b => some { s with
        burst := if b.left = 1 then none else some ⟨b.addr + 32, b.left - 1, false⟩
        ready := s.ready ++ [⟨s.mem b.addr, b.isFirst, b.left = 1⟩] }
  | .deliver =>
    match s.ready with
    | [] => none
    | ds :: beats =>
      if s.card.dmaRespQ.length < 1 then
        some { s with card := { s.card with dmaRespQ := s.card.dmaRespQ ++ [ds] }, ready := beats }
      else none
  | .takeDesc =>
    match s.card.outputQ with
    | [] => none
    | desc :: descs => some { s with card := { s.card with outputQ := descs }, out := s.out ++ [desc] }

/-! ## The next burst -/

section Burst

variable {r : RingbufH2c} {p ts : ℕ}

theorem sameBlock_iff (hhead : r.headReg = BitVec.ofNat 13 p)
    (hshadow : r.tailShadowReg = BitVec.ofNat 13 ts) (hle : ts ≤ p) (hsize : p ≤ ts + 4096) :
    r.isHeadAndTailShadowInTheSameReadBlock = true ↔ p / 16 = ts / 16 := by
  have hidx (n : ℕ) : ((BitVec.ofNat 13 n >>> 4).setWidth 11).toNat = n % 8192 / 16 := by
    rw [BitVec.toNat_setWidth, BitVec.toNat_ushiftRight, BitVec.toNat_ofNat]
    omega
  rw [isHeadAndTailShadowInTheSameReadBlock, decide_eq_true_iff, hhead, hshadow, ← BitVec.toNat_inj,
    hidx, hidx]
  omega

theorem exists_newTailShadow (hhead : r.headReg = BitVec.ofNat 13 p)
    (hshadow : r.tailShadowReg = BitVec.ofNat 13 ts) (hlt : ts < p) (hsize : p ≤ ts + 4096) :
    ∃ ts', ts < ts' ∧ ts' ≤ p ∧ r.newTailShadow = BitVec.ofNat 13 ts' ∧
      ts + (r.zeroBasedDescReadCnt.toNat + 1) = ts' ∧ ∀ n, ts ≤ n → n + 1 < ts' → n % 16 ≠ 15 := by
  have hone : (1 : BitVec 4).toNat = 1 := rfl
  have hmax : (15 : BitVec 4).toNat = 15 := rfl
  have hoff (n : ℕ) : ((BitVec.ofNat 13 n).setWidth 4).toNat = n % 16 := by
    rw [BitVec.toNat_setWidth, BitVec.toNat_ofNat]
    omega
  by_cases hblock : r.isHeadAndTailShadowInTheSameReadBlock = true
  · have heq := (sameBlock_iff hhead hshadow (Nat.le_of_lt hlt) hsize).1 hblock
    refine ⟨p, hlt, Nat.le_refl p, ?_, ?_, fun n hn hn' => by omega⟩
    · rw [newTailShadow, if_pos hblock, hhead]
    · rw [zeroBasedDescReadCnt, if_pos hblock, hhead, hshadow, BitVec.toNat_sub, BitVec.toNat_sub,
        hoff, hoff]
      omega
  · have hne := mt (sameBlock_iff hhead hshadow (Nat.le_of_lt hlt) hsize).2 hblock
    refine ⟨(ts / 16 + 1) * 16, by omega, by omega, ?_, ?_, fun n hn hn' => by omega⟩
    · have hone' : (1 : BitVec 13).toNat = 1 := rfl
      rw [newTailShadow, if_neg hblock, hshadow]
      refine BitVec.eq_of_toNat_eq ?_
      rw [BitVec.toNat_shiftLeft, BitVec.toNat_add, BitVec.toNat_ushiftRight, BitVec.toNat_ofNat,
        BitVec.toNat_ofNat]
      omega
    · rw [zeroBasedDescReadCnt, if_neg hblock, hshadow, BitVec.toNat_sub, hoff]
      omega

end Burst

/-! ## The invariant -/

/-- The descriptors of a call that are in the ring before the head is written. -/
def writtenOf : Option PushCall → List RawDesc
  | none => []
  | some c => c.descs.take c.written

/-- How many slots a call uses. -/
def sizeOf : Option PushCall → ℕ
  | none => 0
  | some c => c.descs.length

/-- The request of a burst waits, or it is being read, or all of it is read: `n` is the number of
the next descriptor to read, and the burst ends before `ts`. -/
def Reading (baseAddr : BitVec 64) (n ts : ℕ) : List RingbufDmaReadReq → Option ReadBurst → Prop
  | [], none => n = ts
  | [], some b => b.addr = (ringAt baseAddr).slot n ∧ 0 < b.left ∧ n + b.left = ts
  | [req], none => req.addr = (ringAt baseAddr).slot n ∧
      n + (req.zeroBasedDescReadCnt.toNat + 1) = ts
  | _, _ => False

/-- The counts fit: `received` descriptors came back, those before `ts` were asked for, and those
that were pushed are in their slots as long as they have not come back. -/
structure InvAt (baseAddr : BitVec 64) (s : H2cSystem) (ts : ℕ) : Prop where
  base : s.card.baseAddrReg = baseAddr
  physAddr : s.ring.physAddr = baseAddr
  head : s.card.headReg = BitVec.ofNat 13 s.pushed.length
  cachedHead : s.ring.cachedHead = BitVec.ofNat 32 s.pushed.length
  tail : s.card.tailReg = BitVec.ofNat 13 s.received
  shadow : s.card.tailShadowReg = BitVec.ofNat 13 ts
  le : s.received ≤ ts
  le' : ts ≤ s.pushed.length
  waiting : s.card.isWaitingDmaRespReg = decide (s.received < ts)
  room : s.pushed.length + sizeOf s.ring.call ≤ s.received + 4096
  written : ∀ i addr, s.written[i]? = some addr → addr = (ringAt baseAddr).slot i
  writtenLe : s.written.length = s.pushed.length + (writtenOf s.ring.call).length
  holds : (ringAt baseAddr).Holds s.mem s.received (s.pushed.drop s.received ++
    writtenOf s.ring.call)
  beats : ∀ i ds, (s.card.dmaRespQ ++ s.ready)[i]? = some ds →
    s.pushed[s.received + i]? = some ds.data ∧ ds.isLast = decide (s.received + i + 1 = ts)
  block : ∀ n, s.received ≤ n → n + 1 < ts → n % 16 ≠ 15
  reading : Reading baseAddr (s.received + (s.card.dmaRespQ ++ s.ready).length)
    ts s.card.dmaReqQ s.burst
  order : s.out ++ (s.card.outputQ ++ s.card.bufQ) = s.pushed.take s.received
  asserted : s.asserted = true

/-- The counts fit, for some number of descriptors that were asked for. -/
def Inv (baseAddr : BitVec 64) (s : H2cSystem) : Prop := ∃ ts, InvAt baseAddr s ts

variable {baseAddr : BitVec 64} {s s' : H2cSystem} {ts : ℕ} {l : H2cLabel}
variable {descs : List RawDesc} {card : RingbufH2c}

theorem invAt_init (baseAddr : BitVec 64) (mem : BitVec 64 → RawDesc) :
    InvAt baseAddr (init baseAddr mem) 0 where
  base := rfl
  physAddr := rfl
  head := rfl
  cachedHead := rfl
  tail := rfl
  shadow := rfl
  le := Nat.le_refl 0
  le' := Nat.le_refl 0
  waiting := rfl
  room := Nat.zero_le _
  written := fun _ _ h => absurd h (by simp [init])
  writtenLe := rfl
  holds := RingSlots.holds_nil _ _ _
  beats := fun _ _ h => absurd h (by simp [init, RingbufH2c.init])
  block := fun _ _ h => absurd h (Nat.not_lt_zero _)
  reading := rfl
  order := rfl
  asserted := rfl

section

variable (h : InvAt baseAddr s ts)
include h

theorem InvAt.room_of_accepts {kind : PushKind}
    (hcall : s.ring.call = none) (hok : s.ring.accepts (s.card.tailReg.setWidth 32) kind descs =
      true) :
    s.pushed.length + descs.length ≤ s.received + 4096 := by
  have hroom := h.room
  rw [hcall] at hroom
  have hle : s.received ≤ s.pushed.length := h.le.trans h.le'
  have havailable := ProducerRing.toNat_available h.cachedHead hle hroom
  rw [h.tail] at hok
  have hlen : descs.length ≤ s.received + 4096 - s.pushed.length := by
    cases kind with
    | batchWrite =>
      rw [ProducerRing.accepts, decide_eq_true_iff, havailable] at hok
      exact hok.2.2
    | tryPushAtomic =>
      rw [ProducerRing.accepts, decide_eq_true_iff, havailable] at hok
      exact hok
  omega

theorem InvAt.push {kind : PushKind} (hcall : s.ring.call = none)
    (hok : s.ring.accepts (s.card.tailReg.setWidth 32) kind descs = true) :
    InvAt baseAddr { s with ring := { s.ring with call := some ⟨kind, descs, 0⟩ } } ts := by
  have hwritten := h.writtenLe
  have hholds := h.holds
  rw [hcall] at hwritten hholds
  exact { h with
    room := h.room_of_accepts hcall hok
    writtenLe := hwritten
    holds := hholds }

theorem InvAt.nextAddr_eq (c : PushCall) :
    s.nextAddr c = (ringAt baseAddr).slot (s.pushed.length + c.written) := by
  rw [nextAddr, ProducerRing.bufferAddr_writeIndex h.cachedHead, h.physAddr]

theorem InvAt.writeSlot {c : PushCall} {desc : RawDesc} (hcall : s.ring.call = some c)
    (hdesc : c.descs[c.written]? = some desc) : InvAt baseAddr { s with
      mem := Function.update s.mem (s.nextAddr c) desc
      ring := { s.ring with call := some { c with written := c.written + 1 } }
      written := s.written ++ [s.nextAddr c] } ts := by
  have hlt := (List.getElem?_eq_some_iff.1 hdesc).1
  have htake : c.descs.take (c.written + 1) = c.descs.take c.written ++ [desc] := by
    rw [take_add_one, hdesc]
    rfl
  have hlen : (writtenOf s.ring.call).length = c.written := by
    rw [hcall, writtenOf, length_take, Nat.min_eq_left (Nat.le_of_lt hlt)]
  have hroom := h.room
  rw [hcall] at hroom
  have hroom' : s.pushed.length + c.descs.length ≤ s.received + 4096 := hroom
  have hle : s.received ≤ s.pushed.length := h.le.trans h.le'
  have hcount := h.writtenLe
  rw [hlen] at hcount
  exact { h with
    room := hroom
    written := by
      intro i addr hi
      rcases Nat.lt_or_ge i s.written.length with hi' | hi'
      · rw [getElem?_append_left hi'] at hi
        exact h.written i addr hi
      · have hlast := (List.getElem?_eq_some_iff.1 hi).1
        rw [length_append, length_singleton] at hlast
        obtain rfl : i = s.written.length := by omega
        rw [getElem?_concat_length] at hi
        rw [← Option.some.inj hi, h.nextAddr_eq, hcount]
    writtenLe := by
      change (s.written ++ [_]).length = s.pushed.length + (c.descs.take (c.written + 1)).length
      rw [length_append, length_singleton, length_take, Nat.min_eq_left hlt, hcount,
        Nat.add_assoc]
    holds := by
      change RingSlots.Holds _ _ _ (s.pushed.drop s.received ++ c.descs.take (c.written + 1))
      have hitems : (s.pushed.drop s.received ++ writtenOf s.ring.call).length =
          s.pushed.length + c.written - s.received := by
        rw [length_append, length_drop]
        omega
      have hpush := h.holds.push (x := desc) (by rw [hitems]; change _ < 4096; omega)
      rw [hitems, Nat.add_sub_cancel' (by omega), hcall] at hpush
      rw [h.nextAddr_eq, htake, ← append_assoc]
      exact hpush }

theorem InvAt.writeHead {c : PushCall} (hcall : s.ring.call = some c)
    (hdone : c.written = c.descs.length) : InvAt baseAddr { s with
      card := { s.card with
        headReg := (s.ring.cachedHead + BitVec.ofNat 32 c.descs.length).setWidth 13 }
      ring := { s.ring with cachedHead := s.ring.cachedHead + BitVec.ofNat 32 c.descs.length, call := none }
      pushed := s.pushed ++ c.descs } ts := by
  have hhead : s.ring.cachedHead + BitVec.ofNat 32 c.descs.length = BitVec.ofNat 32 (s.pushed ++ c.descs).length := by
    rw [h.cachedHead, length_append, BitVec.ofNat_add]
  have hall : writtenOf s.ring.call = c.descs := by
    rw [hcall, writtenOf, hdone, take_length]
  have hroom := h.room
  have hle : s.received ≤ s.pushed.length := h.le.trans h.le'
  have hholds := h.holds
  have hwritten := h.writtenLe
  rw [hcall] at hroom
  rw [hall] at hholds hwritten
  exact { h with
    head := by
      rw [hhead, setWidth_ofNat]
    cachedHead := hhead
    le' := h.le'.trans (by
      rw [length_append]
      exact Nat.le_add_right _ _)
    room := by
      rw [length_append]
      exact hroom
    writtenLe := by
      rw [length_append]
      exact hwritten
    holds := by
      rw [drop_append_of_le_length hle]
      change RingSlots.Holds _ _ _ (_ ++ [])
      rw [append_nil]
      exact hholds
    beats := fun i ds hi => ⟨by
      have hget := (h.beats i ds hi).1
      rw [getElem?_append_left (List.getElem?_eq_some_iff.1 hget).1]
      exact hget, (h.beats i ds hi).2⟩
    order := by
      rw [take_append_of_le_length hle]
      exact h.order }

theorem InvAt.forwardOutput (hs : s.card.forwardOutput = some card) :
    InvAt baseAddr { s with card := card } ts := by
  rw [RingbufH2c.forwardOutput] at hs
  split at hs
  · cases hs
  · next hq =>
    obtain ⟨-, rfl⟩ := ite_some_none_eq_some.1 hs
    exact { h with
      order := by
        rw [← h.order, hq]
        simp }

theorem InvAt.sendDmaReq (hs : s.card.sendDmaReq = some card) :
    Inv baseAddr { s with card := card } := by
  obtain ⟨⟨hwaiting, hne, -, -⟩, rfl⟩ := ite_some_none_eq_some.1 hs
  rw [h.waiting, decide_eq_false_iff_not] at hwaiting
  obtain rfl : s.received = ts := Nat.le_antisymm h.le (Nat.le_of_not_lt hwaiting)
  have hle := h.le'
  have hroom := h.room
  have hlt : s.received < s.pushed.length := by
    refine Nat.lt_of_le_of_ne hle fun heq => hne ?_
    rw [h.head, h.shadow, heq]
  obtain ⟨ts', hlt', hle', hshadow, hcnt, hblock⟩ :=
    exists_newTailShadow h.head h.shadow hlt (by omega)
  -- nothing of the last burst is left
  have hreading := h.reading
  have hidle : s.card.dmaReqQ = [] ∧ s.burst = none ∧ (s.card.dmaRespQ ++ s.ready).length = 0 := by
    generalize s.card.dmaReqQ = reqs at hreading
    generalize s.burst = burst at hreading
    match reqs, burst, hreading with
    | [], none, heq => exact ⟨rfl, rfl, Nat.add_eq_left.1 heq⟩
    | [], some b, heq => exact absurd heq.2 (by omega)
    | [req], none, heq => exact absurd heq.2 (by omega)
  have hbeats : s.card.dmaRespQ ++ s.ready = [] := eq_nil_of_length_eq_zero hidle.2.2
  exact ⟨ts', { h with
    shadow := hshadow
    le := Nat.le_of_lt hlt'
    le' := hle'
    waiting := (decide_eq_true hlt').symm
    beats := fun i ds hi => absurd hi (by
      rw [hbeats]
      simp)
    block := hblock
    reading := by
      rw [hidle.1, hidle.2.1, hidle.2.2, h.shadow, h.base, addr_ofNat]
      exact ⟨rfl, hcnt⟩ }⟩

theorem InvAt.recvDmaResp {ok : Bool} (hs : s.card.recvDmaResp = some (card, ok)) :
    InvAt baseAddr { s with
      card := card
      received := s.received + 1
      asserted := s.asserted && ok } ts := by
  rw [RingbufH2c.recvDmaResp] at hs
  split at hs
  · cases hs
  · next ds resps hq =>
    obtain ⟨⟨hwaiting, -⟩, hs⟩ := Option.ite_none_right_eq_some.1 hs
    cases hs
    rw [h.waiting, decide_eq_true_iff] at hwaiting
    obtain ⟨hget, hlast⟩ := h.beats 0 ds (by rw [hq]; rfl)
    rw [Nat.add_zero] at hget hlast
    have hlen := (List.getElem?_eq_some_iff.1 hget).1
    have hdrop : s.pushed.drop s.received = ds.data :: s.pushed.drop (s.received + 1) := by
      rw [drop_eq_getElem_cons hlen, (List.getElem?_eq_some_iff.1 hget).2]
    have hroom := h.room
    have hholds := h.holds
    have hreading := h.reading
    rw [hdrop] at hholds
    rw [hq] at hreading
    have htail : s.card.tailReg + 1 = BitVec.ofNat 13 (s.received + 1) := by
      rw [h.tail]
      exact (BitVec.ofNat_add _ 1).symm
    exact { h with
      tail := htail
      le := hwaiting
      waiting := by
        change (!ds.isLast) = decide (s.received + 1 < ts)
        rw [hlast, ← decide_not]
        exact decide_eq_decide.2 ⟨fun hne => by omega, fun hlt => by omega⟩
      room := by
        change s.pushed.length + sizeOf s.ring.call ≤ s.received + 1 + 4096
        omega
      holds := hholds.pop
      beats := by
        intro i b hi
        have hb := h.beats (i + 1) b (by rw [hq]; exact hi)
        rw [Nat.add_assoc s.received, Nat.add_comm 1 i]
        exact hb
      block := fun n hn hn' => h.block n (Nat.le_of_succ_le hn) hn'
      reading := by
        rw [Nat.add_assoc, Nat.add_comm 1]
        exact hreading
      order := by
        rw [take_add_one, hget, ← h.order]
        simp
      asserted := by
        rw [h.asserted, htail, h.shadow, hlast]
        by_cases heq : s.received + 1 = ts
        · rw [heq]
          simp
        · rw [decide_eq_false heq]
          rfl }

theorem InvAt.takeReq {req : RingbufDmaReadReq} {reqs : List RingbufDmaReadReq}
    (hburst : s.burst = none) (hq : s.card.dmaReqQ = req :: reqs) : InvAt baseAddr { s with
      card := { s.card with dmaReqQ := reqs }
      burst := some ⟨req.addr, req.zeroBasedDescReadCnt.toNat + 1, true⟩ } ts := by
  have hreading := h.reading
  rw [hburst, hq] at hreading
  match reqs, hreading with
  | [], hreading => exact { h with reading := ⟨hreading.1, Nat.succ_pos _, hreading.2⟩ }

theorem InvAt.read {b : ReadBurst} (hburst : s.burst = some b) : InvAt baseAddr { s with
      burst := if b.left = 1 then none else some ⟨b.addr + 32, b.left - 1, false⟩
      ready := s.ready ++ [⟨s.mem b.addr, b.isFirst, b.left = 1⟩] } ts := by
  have hreading := h.reading
  rw [hburst] at hreading
  generalize hk : (s.card.dmaRespQ ++ s.ready).length = k at hreading
  have hreqs : s.card.dmaReqQ = [] := by
    match hreq : s.card.dmaReqQ with
    | [] => rfl
    | [_] | _ :: _ :: _ =>
      rw [hreq] at hreading
      exact hreading.elim
  rw [hreqs] at hreading
  obtain ⟨haddr, hpos, hend⟩ := hreading
  have hle := h.le'
  have hlt : s.received + k < s.pushed.length := by omega
  have hmem : s.pushed[s.received + k]? = some (s.mem b.addr) := by
    have hget : (s.pushed.drop s.received ++ writtenOf s.ring.call)[k]? =
      some (s.pushed.get ⟨s.received + k, hlt⟩) := by
      rw [getElem?_append_left (by rw [length_drop]; omega), getElem?_drop]
      exact getElem?_eq_getElem hlt
    rw [haddr, h.holds k _ hget]
    exact getElem?_eq_getElem hlt
  have hbeats : s.card.dmaRespQ ++ (s.ready ++
    [(⟨s.mem b.addr, b.isFirst, b.left = 1⟩ : DescDataStream)]) =
      s.card.dmaRespQ ++ s.ready ++ [⟨s.mem b.addr, b.isFirst, b.left = 1⟩] :=
      (append_assoc _ _ _).symm
  exact { h with
    beats := by
      intro i ds hi
      dsimp only at hi ⊢
      rw [hbeats] at hi
      rcases Nat.lt_or_ge i k with hi' | hi'
      · rw [getElem?_append_left (hk.symm ▸ hi')] at hi
        exact h.beats i ds hi
      · have hlast := (List.getElem?_eq_some_iff.1 hi).1
        rw [length_append, length_singleton] at hlast
        obtain rfl : i = k := by omega
        rw [← hk, getElem?_concat_length] at hi
        cases hi
        exact ⟨hmem, decide_eq_decide.2 ⟨fun h1 => by omega, fun h1 => by omega⟩⟩
    reading := by
      dsimp only
      rw [hbeats, length_append, hk, length_singleton, hreqs]
      split
      · change s.received + (k + 1) = ts
        omega
      · have hblock := h.block (s.received + k) (Nat.le_add_right _ _) (by omega)
        refine ⟨?_, by change 0 < b.left - 1; omega, by change _ + (b.left - 1) = ts; omega⟩
        rw [haddr, slot_succ _ (by omega), Nat.add_assoc] }

theorem InvAt.deliver {ds : DescDataStream} {beats : List DescDataStream} (hq : s.ready = ds :: beats) :
    InvAt baseAddr { s with
      card := { s.card with dmaRespQ := s.card.dmaRespQ ++ [ds] }
      ready := beats } ts := by
  have heq : s.card.dmaRespQ ++ [ds] ++ beats = s.card.dmaRespQ ++ s.ready := by
    rw [hq, append_assoc, singleton_append]
  exact { h with
    beats := heq ▸ h.beats
    reading := heq ▸ h.reading }

theorem InvAt.takeDesc {desc : RawDesc} (hq : s.card.outputQ = desc :: descs) :
    InvAt baseAddr { s with card := { s.card with outputQ := descs }, out := s.out ++ [desc] } ts :=
  { h with
    order := by
      rw [← h.order, hq, append_assoc]
      rfl }

end

theorem Inv.step (h : Inv baseAddr s) (hs : s.step l = some s') : Inv baseAddr s' := by
  obtain ⟨ts, h⟩ := h
  cases l with
  | push kind descs =>
    rw [H2cSystem.step] at hs
    split at hs
    · cases hs
    · next hcall =>
      cases hs
      split
      · next hok => exact ⟨ts, h.push hcall hok⟩
      · exact ⟨ts, h⟩
  | writeSlot =>
    rw [H2cSystem.step] at hs
    split at hs
    · cases hs
    · next hcall =>
      split at hs
      · cases hs
      · next hdesc =>
        cases hs
        exact ⟨ts, h.writeSlot hcall hdesc⟩
  | writeHead =>
    rw [H2cSystem.step] at hs
    split at hs
    · cases hs
    · next hcall =>
      obtain ⟨hdone, rfl⟩ := ite_some_none_eq_some.1 hs
      exact ⟨ts, h.writeHead hcall hdone⟩
  | forwardOutput =>
    obtain ⟨card, hcard, rfl⟩ := map_eq_some_iff.1 hs
    exact ⟨ts, h.forwardOutput hcard⟩
  | sendDmaReq =>
    obtain ⟨card, hcard, rfl⟩ := map_eq_some_iff.1 hs
    exact h.sendDmaReq hcard
  | recvDmaResp =>
    obtain ⟨⟨card, ok⟩, hcard, rfl⟩ := map_eq_some_iff.1 hs
    exact ⟨ts, h.recvDmaResp hcard⟩
  | takeReq =>
    rw [H2cSystem.step] at hs
    split at hs
    · next hburst hq =>
      cases hs
      exact ⟨ts, h.takeReq hburst hq⟩
    · cases hs
  | read =>
    rw [H2cSystem.step] at hs
    split at hs
    · cases hs
    · next hburst =>
      cases hs
      exact ⟨ts, h.read hburst⟩
  | deliver =>
    rw [H2cSystem.step] at hs
    split at hs
    · cases hs
    · next hq =>
      obtain ⟨-, rfl⟩ := ite_some_none_eq_some.1 hs
      exact ⟨ts, h.deliver hq⟩
  | takeDesc =>
    rw [H2cSystem.step] at hs
    split at hs
    · cases hs
    · next hq =>
      cases hs
      exact ⟨ts, h.takeDesc hq⟩

/-- **The ring from the host to the card is a queue.** In every run what left the card are the first
descriptors that were pushed, the driver never writes a slot whose descriptor the card has not
received, and no assertion of the card fails. -/
theorem run_pushed_out {mem : BitVec 64 → RawDesc} {ls : List H2cLabel}
    (h : Run step (fun _ _ => True) (init baseAddr mem) ls s) :
    s.out <+: s.pushed ∧
    (∀ c, s.ring.call = some c → c.written < c.descs.length →
      s.nextAddr c ∉ s.written.drop s.received) ∧
    s.asserted = true := by
  obtain ⟨ts, hinv⟩ : Inv baseAddr s := h.invariant (I := fun _ s => Inv baseAddr s)
    ⟨0, invAt_init baseAddr mem⟩ fun _ _ _ _ hI _ hs => hI.step hs
  refine ⟨?_, fun c hcall hlt hmem => ?_, hinv.asserted⟩
  · exact (hinv.order ▸ prefix_append _ _).trans (List.take_prefix _ _)
  · obtain ⟨i, hi⟩ := List.mem_iff_getElem?.1 hmem
    rw [getElem?_drop] at hi
    have hi' := (List.getElem?_eq_some_iff.1 hi).1
    have heq := hinv.written _ _ hi
    have hroom := hinv.room
    have hcount := hinv.writtenLe
    rw [hcall, sizeOf] at hroom
    rw [hcall, writtenOf, length_take] at hcount
    rw [hinv.nextAddr_eq] at heq
    exact RingSlots.slot_ne_of_ne (by omega) (by change _ < _ + 4096; omega) (by change _ < _ + 4096; omega) heq

/-- Two descriptors are pushed, read in one burst and taken. -/
def passTwo : List H2cLabel :=
  [.push .batchWrite [1, 2], .writeSlot, .writeSlot, .writeHead, .sendDmaReq, .takeReq] ++
    (replicate 2 [.read, .deliver, .recvDmaResp, .forwardOutput, .takeDesc]).flatten

theorem run_pushed_out_passTwo : ∃ s, Run step (fun _ _ => True) (init 0 fun _ => 0) passTwo s ∧
    s.pushed = [1, 2] ∧ s.out = [1, 2] ∧ s.out <+: s.pushed :=
  ⟨_, .of_isSome (by decide +kernel), by decide +kernel, by decide +kernel, (run_pushed_out (.of_isSome _)).1⟩

/-- No step is possible but those of calls of the driver. -/
def atRest (s : H2cSystem) : Bool :=
  [.forwardOutput, .sendDmaReq, .recvDmaResp, .takeReq, .read, .deliver, .takeDesc].all
    (s.step · |>.isNone)

theorem InvAt.out_eq (hi : InvAt baseAddr s ts) (hrest : s.atRest) : s.out = s.pushed := by
  simp only [atRest, all_cons, Bool.and_eq_true, isNone_iff_eq_none, H2cSystem.step] at hrest
  obtain ⟨hforward, hsend, hrecv, htake, hread, hdeliver, hdesc, -⟩ := hrest
  have hout : s.card.outputQ = [] := by
    split at hdesc
    · assumption
    · cases hdesc
  have hbuf : s.card.bufQ = [] := by
    cases h : s.card.bufQ <;> simp_all [RingbufH2c.forwardOutput]
  have hburst : s.burst = none := by
    split at hread
    · assumption
    · cases hread
  have hreq : s.card.dmaReqQ = [] := by
    cases h : s.card.dmaReqQ <;> simp_all
  have hreading := hi.reading
  rw [hreq, hburst, Reading] at hreading
  have hresp : s.card.dmaRespQ = [] := by
    cases h : s.card.dmaRespQ with
    | nil => rfl
    | cons ds resps =>
      rw [h, length_append, length_cons] at hreading
      simp [RingbufH2c.recvDmaResp, h, hi.waiting, hbuf] at hrecv
      omega
  have hready : s.ready = [] := by
    cases h : s.ready <;> simp_all
  rw [hresp, hready, append_nil, length_nil, Nat.add_zero] at hreading
  -- nothing is asked for, so the head is where the card stopped
  have hhead : s.card.headReg = s.card.tailShadowReg := by
    by_contra hne
    simp [RingbufH2c.sendDmaReq, hi.waiting, hne, hbuf, hreq] at hsend
    omega
  rw [hi.head, hi.shadow, ← BitVec.toNat_inj, BitVec.toNat_ofNat, BitVec.toNat_ofNat] at hhead
  have horder := hi.order
  have hroom := hi.room
  have hle := hi.le'
  rw [hout, hbuf, append_nil, append_nil, take_of_length_le] at horder
  · exact horder
  · omega

/-- **No descriptor is left in the ring** after any run: when the card and the memory rest,
everything that was pushed has left the card. -/
theorem run_drains {mem : BitVec 64 → RawDesc} {ls : List H2cLabel}
    (h : Run step (fun _ _ => True) (init baseAddr mem) ls s) (hrest : s.atRest) :
    s.out = s.pushed := by
  obtain ⟨ts, hinv⟩ : Inv baseAddr s := h.invariant (I := fun _ s => Inv baseAddr s)
    ⟨0, invAt_init baseAddr mem⟩ fun _ _ _ _ hI _ hs => hI.step hs
  exact hinv.out_eq hrest

theorem run_drains_passTwo : ∃ s, Run step (fun _ _ => True) (init 0 fun _ => 0) passTwo s ∧
    s.atRest ∧ s.pushed = [1, 2] ∧ s.out = s.pushed :=
  ⟨_, .of_isSome (by decide +kernel), by decide +kernel, by decide +kernel,
    run_drains (.of_isSome _) (by decide +kernel)⟩

end H2cSystem

end OpenRdma.Link
