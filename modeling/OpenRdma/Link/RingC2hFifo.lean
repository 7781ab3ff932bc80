import OpenRdma.Foundations.Run
import OpenRdma.Link.RingC2h

/-!
# The ring from the card to the host is a queue

A descriptor is valid in memory from when it lands until the driver has read it, and the slots of
the others are zero: that is how the driver knows what to read. It returns the groups that entered,
in their order, and each write lands in a slot that the driver has consumed.
-/

namespace OpenRdma.Link

open OpenRdma.Driver OpenRdma.Rtl List Option Function RingbufC2h

/-! ## The invariant -/

/-- What the card has of the stream of descriptors. -/
def streamOf (r : RingbufC2h) : List RawDesc := r.dmaWriteDataQ.map (·.data) ++ (r.bufQ ++ r.inputQ)

theorem streamOf_fire {r r' : RingbufC2h} {rule : RingbufC2h.Rule} (hs : r.fire rule = some r') :
    streamOf r' = streamOf r ∧ r'.baseAddrReg = r.baseAddrReg := by
  cases rule with
  | forwardInput =>
    rw [RingbufC2h.fire, RingbufC2h.forwardInput] at hs
    split at hs
    · cases hs
    · next hq =>
      obtain ⟨-, rfl⟩ := ite_some_none_eq_some.1 hs
      simp [streamOf, hq]
  | handleBatchDelay =>
    rw [RingbufC2h.fire, RingbufC2h.handleBatchDelay] at hs
    split at hs
    · obtain ⟨-, hs⟩ := ite_none_left_eq_some.1 hs
      cases hs
      exact ⟨rfl, rfl⟩
    · obtain ⟨-, hs⟩ := ite_none_left_eq_some.1 hs
      cases hs
      exact ⟨rfl, rfl⟩
  | prepareDmaWrite =>
    obtain ⟨-, rfl⟩ := ite_some_none_eq_some.1 hs
    exact ⟨rfl, rfl⟩
  | doDmaWrite =>
    rw [RingbufC2h.fire, RingbufC2h.doDmaWrite] at hs
    split at hs
    · cases hs
    · next hq =>
      obtain ⟨-, rfl⟩ := ite_some_none_eq_some.1 hs
      simp [streamOf, send, hq]
  | handleWriteResp =>
    rw [RingbufC2h.fire, RingbufC2h.handleWriteResp] at hs
    split at hs
    · cases hs
      exact ⟨rfl, rfl⟩
    · cases hs

/-- Where a call is: the groups returned and the one it reads are the first ones, and what it reads
has landed. -/
def InCall (groups returned : List (List RawDesc)) (consumed landed : ℕ) : TryPop → Prop
  | .start => returned <+: groups ∧ consumed = returned.flatten.length ∧ consumed ≤ landed
  | .readAndAdvance popped left => ∃ rest, rest.length = left ∧ 0 < left ∧
      returned ++ [popped ++ rest] <+: groups ∧ consumed = returned.flatten.length + popped.length ∧
      consumed + left ≤ landed
  | .writeTailCsr popped => returned ++ [popped] <+: groups ∧
      consumed = returned.flatten.length + popped.length ∧ consumed ≤ landed

section InCall

variable {groups returned : List (List RawDesc)} {consumed landed : ℕ} {call : TryPop}

theorem InCall.bounds (h : InCall groups returned consumed landed call) :
    returned <+: groups ∧ returned.flatten.length ≤ consumed ∧ consumed ≤ landed := by
  match call, h with
  | .start, ⟨hpre, heq, hle⟩ => exact ⟨hpre, Nat.le_of_eq heq.symm, hle⟩
  | .readAndAdvance popped left, ⟨rest, _, _, hpre, heq, hle⟩ =>
    exact ⟨(prefix_append _ _).trans hpre, by omega, by omega⟩
  | .writeTailCsr popped, ⟨hpre, heq, hle⟩ => exact ⟨(prefix_append _ _).trans hpre, by omega, hle⟩

theorem InCall.land (h : InCall groups returned consumed landed call) :
    InCall groups returned consumed (landed + 1) call := by
  match call, h with
  | .start, ⟨hpre, heq, hle⟩ => exact ⟨hpre, heq, Nat.le_succ_of_le hle⟩
  | .readAndAdvance popped left, ⟨rest, hlen, hpos, hpre, heq, hle⟩ =>
    exact ⟨rest, hlen, hpos, hpre, heq, Nat.le_succ_of_le hle⟩
  | .writeTailCsr popped, ⟨hpre, heq, hle⟩ => exact ⟨hpre, heq, Nat.le_succ_of_le hle⟩

end InCall

namespace C2hSystem

variable {α : Type} {spec : FromRingBytes α} {groups : List (List RawDesc)} {baseAddr : BitVec 64}
  {s s' : C2hSystem α} {l : C2hLabel}

/-- The counts fit everywhere: on the card, in memory and in the driver. -/
structure Inv (spec : FromRingBytes α) (groups : List (List RawDesc)) (baseAddr : BitVec 64)
    (s : C2hSystem α) : Prop where
  base : s.card.baseAddrReg = baseAddr
  physAddr : s.ring.physAddr = baseAddr
  order : s.landed.map (·.2) ++ (s.dma.posted.map (·.data) ++ streamOf s.card) = s.entered
  entered : s.entered <+: groups.flatten
  landed : ∀ i x, s.landed[i]? = some x → x.1 = (ringAt baseAddr).slot i
  flow : Flow s.landed.length s.popped.flatten.length s.card s.dma
  cachedTail : s.ring.cachedTail = BitVec.ofNat 32 s.consumed
  holds : (ringAt baseAddr).Holds s.mem s.consumed ((s.landed.map (·.2)).drop s.consumed)
  clear : ∀ n, s.landed.length ≤ n → n < s.consumed + 4096 → s.mem ((ringAt baseAddr).slot n) = 0
  call : InCall groups s.popped s.consumed s.landed.length s.ring.call
  returned : s.returned = s.popped.map spec.fromBytes

theorem inv_init {mem : BitVec 64 → RawDesc} (groups : List (List RawDesc)) (cnt : BitVec 2)
    (hmem : ∀ n < 4096, mem ((ringAt baseAddr).slot n) = 0) :
    Inv spec groups baseAddr (init baseAddr cnt mem) where
  base := rfl
  physAddr := rfl
  order := rfl
  entered := nil_prefix
  landed := fun _ _ h => absurd h (by simp [init])
  flow := flow_init baseAddr cnt
  cachedTail := rfl
  holds := RingSlots.holds_nil _ _ _
  clear := fun n _ hn => hmem n (by simpa [init] using hn)
  call := ⟨List.nil_prefix, rfl, Nat.le_refl 0⟩
  returned := rfl

section

variable (h : Inv spec groups baseAddr s)
include h

theorem Inv.landed_prefix : s.landed.map (·.2) <+: groups.flatten :=
  (h.order ▸ prefix_append _ _).trans h.entered

theorem Inv.enter {desc : RawDesc} (hok : s.Possible groups (.enter desc)) :
    Inv spec groups baseAddr { s with
      card := { s.card with inputQ := s.card.inputQ ++ [desc] }
      entered := s.entered ++ [desc] } :=
  { h with
    order := by
      rw [← h.order]
      simp [streamOf]
    entered := hok
    flow := { h.flow with } }

theorem Inv.fire {rule : RingbufC2h.Rule} {card : RingbufC2h}
    (hs : s.card.fire rule = some card) : Inv spec groups baseAddr { s with card := card } := by
  obtain ⟨hstream, hbase⟩ := streamOf_fire hs
  exact { h with
    base := hbase.trans h.base
    order := by
      rw [hstream]
      exact h.order
    flow := h.flow.fire hs }

theorem Inv.accept {ds : DescDataStream} {beats : List DescDataStream}
    (hq : s.card.dmaWriteDataQ = ds :: beats) {addr : BitVec 64} {addrs : List (BitVec 64)}
    (haddr : s.dma.burst = some addr ∧ s.dma.addrs = addrs ∨ s.dma.burst = none ∧
      s.dma.addrs = addr :: addrs) :
    Inv spec groups baseAddr (s.accept addr addrs ds beats) :=
  { h with
    order := by
      rw [C2hSystem.accept, ← h.order]
      simp [streamOf, hq]
    flow := h.flow.takeBeat hq haddr }

theorem Inv.lt_size {i : ℕ} (hi : i < s.dma.posted.length) :
    s.landed.length + i < s.consumed + 4096 := by
  have hroom := h.flow.room
  have hle := h.call.bounds.2.1
  rw [sentOf] at hroom
  omega

theorem Inv.land {w : PostedWrite} {ws : List PostedWrite} (hq : s.dma.posted = w :: ws) :
    Inv spec groups baseAddr { s with
      dma := { s.dma with posted := ws, owed := s.dma.owed + if w.isLast then 1 else 0 }
      mem := Function.update s.mem w.addr w.data
      landed := s.landed ++ [(w.addr, w.data)] } := by
  have hlen : (s.landed ++ [(w.addr, w.data)]).length = s.landed.length + 1 := by
    rw [length_append, length_singleton]
  have haddr : w.addr = (ringAt baseAddr).slot s.landed.length := by
    rw [h.flow.posted 0 w (hq ▸ rfl), h.base]
    rfl
  have hlt : s.landed.length < s.consumed + 4096 :=
    h.lt_size (i := 0) (by rw [hq]; exact Nat.succ_pos _)
  have hle := h.call.bounds.2.2
  exact { h with
    order := by
      rw [← h.order, hq]
      simp
    landed := by
      intro i x hi
      rcases Nat.lt_or_ge i s.landed.length with hlt' | hge
      · rw [getElem?_append_left hlt'] at hi
        exact h.landed i x hi
      · have hi' := (List.getElem?_eq_some_iff.1 hi).1
        rw [hlen] at hi'
        obtain rfl : i = s.landed.length := by omega
        rw [getElem?_concat_length] at hi
        rw [← some.inj hi]
        exact haddr
    flow := by
      rw [hlen]
      exact h.flow.land hq
    holds := by
      have hdrop : ((s.landed ++ [(w.addr, w.data)]).map (·.2)).drop s.consumed =
          (s.landed.map (·.2)).drop s.consumed ++ [w.data] := by
        rw [map_append, drop_append_of_le_length (by rw [length_map]; exact hle)]
        rfl
      have hcount : ((s.landed.map (·.2)).drop s.consumed).length = s.landed.length -
        s.consumed := by
        rw [length_drop, length_map]
      have hpush := h.holds.push (x := w.data) (by rw [hcount]; change _ < 4096; omega)
      rw [hcount, Nat.add_sub_cancel' hle] at hpush
      rw [hdrop, haddr]
      exact hpush
    clear := by
      intro n hn hn'
      rw [hlen] at hn
      dsimp only at hn' ⊢
      rw [haddr, update_of_ne (RingSlots.slot_ne_of_ne (by omega) (by change _ < _ + 4096; omega)
        (by change _ < _ + 4096; omega))]
      exact h.clear n (by omega) hn'
    call := by
      rw [hlen]
      exact h.call.land }

theorem Inv.mem_slot {g : List RawDesc} (hpre : s.popped ++ [g] <+: groups) {i : ℕ}
    {x : RawDesc} (hx : g[i]? = some x) (h₁ : s.consumed ≤ s.popped.flatten.length + i)
    (h₂ : s.popped.flatten.length + i < s.landed.length) :
    s.mem ((ringAt baseAddr).slot (s.popped.flatten.length + i)) = x := by
  obtain ⟨later, hlater⟩ := h.landed_prefix
  obtain ⟨rest, rfl⟩ := hpre
  have hi := (List.getElem?_eq_some_iff.1 hx).1
  have hleft : (s.landed.map (·.2) ++ later)[s.popped.flatten.length + i]? =
      (s.landed.map (·.2))[s.popped.flatten.length + i]? :=
    getElem?_append_left (by rwa [length_map])
  have hget : (s.landed.map (·.2))[s.popped.flatten.length + i]? = some x := by
    rw [← hleft, hlater, append_assoc, flatten_append,
      getElem?_append_right (Nat.le_add_right _ _), Nat.add_sub_cancel_left,
      singleton_append, flatten_cons, getElem?_append_left hi, hx]
  have hholds := h.holds (s.popped.flatten.length + i - s.consumed) x
  rw [getElem?_drop, Nat.add_sub_cancel' h₁] at hholds
  exact hholds hget

theorem Inv.lt_landed {n : ℕ} (hn : n < s.consumed + 4096)
    (hvalid : (s.mem ((ringAt baseAddr).slot n)).valid = true) : n < s.landed.length := by
  by_contra hge
  rw [h.clear n (Nat.le_of_not_lt hge) hn] at hvalid
  simp [RawDesc.valid] at hvalid

theorem Inv.exists_group (hlt : s.popped.flatten.length < s.landed.length) :
    ∃ g, s.popped ++ [g] <+: groups := by
  obtain ⟨rest, hrest⟩ := h.call.bounds.1
  cases rest with
  | nil =>
    rw [append_nil] at hrest
    have hle := h.landed_prefix.length_le
    rw [length_map, ← hrest] at hle
    omega
  | cons g rest => exact ⟨g, rest, by rw [← hrest, append_assoc, singleton_append]⟩

end

theorem isGroup_of_next (hgroups : ∀ g ∈ groups, IsGroup spec.hasNext g) {g : List RawDesc}
    {returned : List (List RawDesc)} (hpre : returned ++ [g] <+: groups) : IsGroup spec.hasNext g :=
  hgroups g (hpre.subset (mem_append_right _ (mem_singleton_self g)))

section

variable (h : Inv spec groups baseAddr s)
include h

theorem Inv.start (hgroups : ∀ g ∈ groups, IsGroup spec.hasNext g)
    (hcall : s.ring.call = .start) {k : ℕ} (hk : s.ring.ready spec.hasNext s.mem = some k) :
    Inv spec groups baseAddr { s with ring := { s.ring with call := .readAndAdvance [] k } } := by
  rw [ConsumerRing.ready_eq h.cachedTail, h.physAddr] at hk
  obtain ⟨hvalid, hk⟩ := ite_none_right_eq_some.1 hk
  have hin := h.call
  rw [hcall] at hin
  obtain ⟨-, heq, -⟩ := hin
  have hlt := h.lt_landed (Nat.lt_add_of_pos_right (by decide)) hvalid
  obtain ⟨g, hpre⟩ := h.exists_group (heq ▸ hlt)
  have hfacts : g.length = k ∧ 0 < k ∧ s.consumed + k ≤ s.landed.length := by
    match g, isGroup_of_next hgroups hpre, hpre with
    | [a], hg, hpre =>
      -- one descriptor, and the driver takes one
      have ha := h.mem_slot hpre (i := 0) rfl (Nat.le_of_eq heq) (heq ▸ hlt)
      rw [Nat.add_zero, ← heq] at ha
      rw [ha, hg.2] at hk
      cases hk
      exact ⟨rfl, Nat.one_pos, hlt⟩
    | [a, b], hg, hpre =>
      -- two descriptors, both of which have landed
      have ha := h.mem_slot hpre (i := 0) rfl (Nat.le_of_eq heq) (heq ▸ hlt)
      rw [Nat.add_zero, ← heq] at ha
      rw [ha, hg.2.1] at hk
      obtain ⟨hvalid', hk⟩ := ite_none_right_eq_some.1 hk
      have hlt' := h.lt_landed (Nat.add_lt_add_left (by decide) _) hvalid'
      cases hk
      exact ⟨rfl, Nat.two_pos, hlt'⟩
  exact { h with call := ⟨g, hfacts.1, hfacts.2.1, hpre, heq, hfacts.2.2⟩ }

theorem Inv.readAndAdvance {popped : List RawDesc} {left : ℕ}
    (hcall : s.ring.call = .readAndAdvance popped left) (hs : s.tryPop spec = some s') :
    Inv spec groups baseAddr s' := by
  have hin := h.call
  rw [hcall] at hin
  obtain ⟨rest, hlen, hpos, hpre, heq, hle⟩ := hin
  obtain ⟨x, rest, rfl⟩ : ∃ x rest', rest = x :: rest' :=
    exists_cons_of_ne_nil (ne_nil_of_length_pos (hlen ▸ hpos))
  rw [length_cons] at hlen
  have hlt : s.consumed < s.landed.length := by omega
  have hx : s.mem ((ringAt baseAddr).slot s.consumed) = x := by
    have hget : (popped ++ x :: rest)[popped.length]? = some x := by
      rw [getElem?_append_right (Nat.le_refl _), Nat.sub_self]
      rfl
    rw [heq]
    exact h.mem_slot hpre hget (Nat.le_of_eq heq) (heq ▸ hlt)
  have haddr : bufferAddr s.ring.physAddr (s.ring.cachedTail &&& bufSizeMask) =
      (ringAt baseAddr).slot s.consumed := by
    rw [h.physAddr, h.cachedTail, bufferAddr_ofNat]
  have hread : s.ring.readAndAdvance s.mem = (x,
    { s.ring with cachedTail := s.ring.cachedTail + 1 },
      update s.mem ((ringAt baseAddr).slot s.consumed) 0) := by
    rw [ConsumerRing.readAndAdvance, haddr, hx]
  rw [tryPop, hcall] at hs
  simp only [hread] at hs
  cases hs
  have hdrop : (s.landed.map (·.2)).drop s.consumed =
      (s.landed.map (·.2)).get ⟨s.consumed, by rwa [length_map]⟩ ::
      (s.landed.map (·.2)).drop (s.consumed + 1) :=
    drop_eq_getElem_cons _
  have hsize : s.landed.length ≤ s.consumed + 4096 := by
    have hroom := h.flow.room
    rw [sentOf] at hroom
    omega
  exact { h with
    cachedTail := by
      rw [h.cachedTail]
      exact (BitVec.ofNat_add _ 1).symm
    holds := by
      have hholds := h.holds
      rw [hdrop] at hholds
      refine hholds.pop.update_outside (.inl ⟨Nat.lt_succ_self _, ?_⟩)
      rw [length_drop, length_map]
      change _ ≤ _ + 4096
      omega
    clear := by
      intro n hn hn'
      dsimp only at hn hn' ⊢
      rcases Nat.lt_or_ge n (s.consumed + 4096) with hlt' | hge
      · rw [update_of_ne (RingSlots.slot_ne_of_ne (by omega) (by change _ < _ + 4096; omega)
          (by change _ < _ + 4096; omega))]
        exact h.clear n hn hlt'
      · -- the slot that was cleared is free for the next round
        obtain rfl : n = s.consumed + 4096 := by omega
        rw [slot_add_size, update_self]
    call := by
      dsimp only
      split
      · obtain rfl : rest = [] := eq_nil_of_length_eq_zero (by omega)
        exact ⟨hpre, by rw [heq, length_append]; rfl, hlt⟩
      · refine ⟨rest, by omega, by omega, ?_, by rw [heq, length_append]; rfl, by omega⟩
        rwa [append_assoc] }

theorem Inv.writeTail {popped : List RawDesc} (hcall : s.ring.call = .writeTailCsr popped) :
    Inv spec groups baseAddr { s with
      card := { s.card with tailReg := (s.ring.cachedTail &&& hwPtrMask).setWidth 13 }
      ring := { s.ring with call := .start }
      popped := s.popped ++ [popped]
      returned := s.returned ++ [spec.fromBytes popped] } := by
  have hin := h.call
  rw [hcall] at hin
  obtain ⟨hpre, heq, hle⟩ := hin
  have hcount : (s.popped ++ [popped]).flatten.length = s.consumed := by
    rw [flatten_append, length_append, flatten_singleton, heq]
  exact { h with
    flow := by
      rw [hcount, h.cachedTail, setWidth_and_hwPtrMask]
      exact h.flow.writeTail (heq ▸ Nat.le_add_right _ _) hle
    call := ⟨hpre, hcount.symm, hle⟩
    returned := by rw [map_append, ← h.returned]; rfl }

theorem Inv.step (hgroups : ∀ g ∈ groups, IsGroup spec.hasNext g)
    (hok : s.Possible groups l) (hs : s.step spec l = some s') : Inv spec groups baseAddr s' := by
  cases l with
  | enter desc =>
    obtain ⟨-, rfl⟩ := ite_some_none_eq_some.1 hs
    exact h.enter hok
  | card rule =>
    obtain ⟨card, hcard, rfl⟩ := map_eq_some_iff.1 hs
    exact h.fire hcard
  | takeAddr =>
    rw [C2hSystem.step] at hs
    split at hs
    · cases hs
    · next hq =>
      cases hs
      exact { h with flow := h.flow.takeAddr hq }
  | takeBeat =>
    rw [C2hSystem.step] at hs
    split at hs
    · cases hs
    · next hq =>
      split at hs
      · next hburst =>
        cases hs
        exact h.accept hq (.inl ⟨hburst, rfl⟩)
      · next hburst haddrs =>
        cases hs
        exact h.accept hq (.inr ⟨hburst, haddrs⟩)
      · cases hs
  | land =>
    rw [C2hSystem.step] at hs
    split at hs
    · cases hs
    · next hq =>
      cases hs
      exact h.land hq
  | respond ok =>
    obtain ⟨⟨howed, -⟩, rfl⟩ := ite_some_none_eq_some.1 hs
    exact { h with flow := h.flow.respond howed ok }
  | driver =>
    rw [C2hSystem.step] at hs
    cases hcall : s.ring.call with
    | start =>
      rw [tryPop, hcall] at hs
      obtain ⟨k, hk, rfl⟩ := map_eq_some_iff.1 hs
      exact h.start hgroups hcall hk
    | readAndAdvance popped left => exact h.readAndAdvance hcall hs
    | writeTailCsr popped =>
      rw [tryPop, hcall] at hs
      cases hs
      exact h.writeTail hcall

end

theorem inv_of_run {mem : BitVec 64 → RawDesc} {cnt : BitVec 2} {ls : List C2hLabel}
    (hgroups : ∀ g ∈ groups, IsGroup spec.hasNext g) (hmem : ∀ n < 4096,
      mem ((ringAt baseAddr).slot n) = 0)
    (h : Run (step spec) (Possible groups) (init baseAddr cnt mem) ls s) :
    Inv spec groups baseAddr s :=
  h.invariant (I := fun _ s => Inv spec groups baseAddr s) (inv_init groups cnt hmem)
    fun _ _ _ _ hI hok hs => hI.step hgroups hok hs

/-! ## Coming to rest -/

/-- The number of steps at most until the delay for a batch is over. -/
def delayOf (r : RingbufC2h) : ℕ :=
  if r.bufQ = [] then if r.batchDelayCounterReg = 0 then 0 else 1 else 15 -
    r.batchDelayCounterReg.toNat

/-- The step that starts a burst, and the one that takes its address. -/
def idleOf (r : RingbufC2h) : ℕ := if r.isSendingDescBodyReg then 0 else 2

/-- The number of steps that are left at most on the card, and then for what it has. -/
def cardMeasure (r : RingbufC2h) : ℕ :=
  50 * r.inputQ.length + 30 * r.bufQ.length + delayOf r + idleOf r + r.dmaWriteAddrQ.length +
    8 * r.dmaWriteDataQ.length + r.dmaWriteRespQ.length

/-- The steps a call makes before it takes a descriptor, or after it. -/
def callMeasure : TryPop → ℕ
  | .start => 2
  | .readAndAdvance _ _ => 1
  | .writeTailCsr _ => 3

/-- The number of steps that are left at most. -/
def measure (s : C2hSystem α) : ℕ :=
  cardMeasure s.card + 7 * s.dma.posted.length + 2 * s.dma.owed + 4 *
    (s.landed.length - s.consumed) + callMeasure s.ring.call

theorem delayOf_le (r : RingbufC2h) : delayOf r ≤ 15 := by
  rw [delayOf]
  split
  · split <;> omega
  · omega

theorem idleOf_le (r : RingbufC2h) : idleOf r ≤ 2 := by
  rw [idleOf]
  split <;> omega

theorem cardMeasure_fire {r r' : RingbufC2h} {rule : RingbufC2h.Rule} (hs : r.fire rule = some r') :
    cardMeasure r' < cardMeasure r := by
  cases rule with
  | forwardInput =>
    rw [RingbufC2h.fire, RingbufC2h.forwardInput] at hs
    split at hs
    · cases hs
    · next hq =>
      obtain ⟨-, hs⟩ := ite_none_right_eq_some.1 hs
      have hdelay := delayOf_le r'
      cases hs
      simp only [cardMeasure, idleOf, hq, length_append, length_cons, length_nil]
      omega
  | handleBatchDelay =>
    rw [RingbufC2h.fire, RingbufC2h.handleBatchDelay] at hs
    split at hs
    · next hq =>
      obtain ⟨hne, hs⟩ := ite_none_left_eq_some.1 hs
      cases hs
      simp only [cardMeasure, idleOf, delayOf, hq, hne, if_true, if_false]
      omega
    · next hq =>
      obtain ⟨hne, hs⟩ := ite_none_left_eq_some.1 hs
      cases hs
      have hlt : r.batchDelayCounterReg.toNat < 15 := by
        have hmax : (-1 : BitVec 4).toNat = 15 := rfl
        have hne' : r.batchDelayCounterReg.toNat ≠ 15 :=
          fun h => hne (BitVec.eq_of_toNat_eq (h.trans hmax.symm))
        omega
      have hone : (1 : BitVec 4).toNat = 1 := rfl
      have hnext : (r.batchDelayCounterReg + 1).toNat = r.batchDelayCounterReg.toNat + 1 := by
        rw [BitVec.toNat_add]
        omega
      simp only [cardMeasure, idleOf, delayOf, hq, if_false]
      omega
  | prepareDmaWrite =>
    obtain ⟨⟨hsending, -⟩, rfl⟩ := ite_some_none_eq_some.1 hs
    simp only [cardMeasure, idleOf, delayOf, hsending, length_append, length_singleton,
      if_true, if_false, Bool.false_eq_true]
    omega
  | doDmaWrite =>
    rw [RingbufC2h.fire, RingbufC2h.doDmaWrite] at hs
    split at hs
    · cases hs
    · next hq =>
      obtain ⟨-, hs⟩ := ite_none_right_eq_some.1 hs
      have hdelay := delayOf_le r'
      have hidle := idleOf_le r'
      cases hs
      simp only [cardMeasure, send, hq, length_append, length_cons, length_nil]
        at hdelay hidle ⊢
      omega
  | handleWriteResp =>
    rw [RingbufC2h.fire, RingbufC2h.handleWriteResp] at hs
    split at hs
    · next hresp _ =>
      cases hs
      simp only [cardMeasure, idleOf, delayOf, hresp, length_cons]
      omega
    · cases hs

theorem cardMeasure_takeBeat {r : RingbufC2h} {ds : DescDataStream} {beats : List DescDataStream}
    (hq : r.dmaWriteDataQ = ds :: beats) : cardMeasure { r with dmaWriteDataQ := beats } + 8 =
    cardMeasure r := by
  rw [cardMeasure, cardMeasure, hq, length_cons]
  change 50 * r.inputQ.length + 30 * r.bufQ.length + delayOf r + idleOf r + r.dmaWriteAddrQ.length +
    8 * beats.length + r.dmaWriteRespQ.length + 8 = _
  omega

theorem Inv.measure_lt (h : Inv spec groups baseAddr s) (hl : l.Own)
    (hs : s.step spec l = some s') : s'.measure < s.measure := by
  cases l with
  | enter desc => exact absurd rfl (hl desc)
  | card rule =>
    obtain ⟨card, hcard, rfl⟩ := map_eq_some_iff.1 hs
    have hlt := cardMeasure_fire hcard
    simp only [measure]
    omega
  | takeAddr =>
    rw [C2hSystem.step] at hs
    split at hs
    · cases hs
    · next hq =>
      cases hs
      simp only [measure, cardMeasure, idleOf, delayOf, hq, length_cons]
      omega
  | takeBeat =>
    rw [C2hSystem.step] at hs
    split at hs
    · cases hs
    · next hq =>
      split at hs
      case h_3 => cases hs
      all_goals
        cases hs
        have hcard := cardMeasure_takeBeat hq
        simp only [measure, C2hSystem.accept, length_append, length_singleton]
        omega
  | land =>
    rw [C2hSystem.step] at hs
    split at hs
    · cases hs
    · next w ws hq =>
      cases hs
      have howed : (if w.isLast then 1 else 0) ≤ 1 := by
        split <;> omega
      simp only [measure, hq, length_append, length_cons, length_nil]
      omega
  | respond ok =>
    obtain ⟨⟨howed, -⟩, rfl⟩ := ite_some_none_eq_some.1 hs
    simp only [measure, cardMeasure, idleOf, delayOf, length_append, length_singleton]
    omega
  | driver =>
    have hin := h.call
    rw [C2hSystem.step, tryPop] at hs
    cases hcall : s.ring.call with
    | start =>
      rw [hcall] at hs
      obtain ⟨k, -, rfl⟩ := map_eq_some_iff.1 hs
      simp only [measure, hcall, callMeasure]
      omega
    | readAndAdvance popped left =>
      rw [hcall] at hs hin
      obtain ⟨-, -, hpos, -, -, hle⟩ := hin
      cases hs
      simp only [measure, callMeasure]
      split <;> omega
    | writeTailCsr popped =>
      rw [hcall] at hs
      cases hs
      simp only [measure, hcall, callMeasure, cardMeasure, idleOf, delayOf]
      omega

/-! ## At rest -/

section Rest

variable (hq : Quiescent (C2hSystem.step spec) (Possible groups) C2hLabel.Own s)
include hq

theorem addrQ_of_quiescent : s.card.dmaWriteAddrQ = [] := by
  by_contra hne
  obtain ⟨req, reqs, hcons⟩ := exists_cons_of_ne_nil hne
  have hnone := hq .takeAddr (by rintro _ ⟨⟩) trivial
  rw [C2hSystem.step, hcons] at hnone
  cases hnone

variable (h : Inv spec groups baseAddr s)
include h

theorem Inv.landed_of_quiescent :
    s.dma.posted = [] ∧ s.card.dmaWriteDataQ = [] ∧ s.card.inFlightWriteReqHeaadUpdateQ = [] := by
  have hposted : s.dma.posted = [] := by
    by_contra hne
    obtain ⟨w, ws, hcons⟩ := exists_cons_of_ne_nil hne
    have hnone := hq .land (by rintro _ ⟨⟩) trivial
    rw [C2hSystem.step, hcons] at hnone
    cases hnone
  have hdata : s.card.dmaWriteDataQ = [] := by
    by_contra hne
    obtain ⟨ds, beats, hcons⟩ := exists_cons_of_ne_nil hne
    have hnone := hq .takeBeat (by rintro _ ⟨⟩) trivial
    have hchain := h.flow.chain
    have haddrs := h.flow.addrs
    rw [hcons] at hchain
    rw [hcons, starts, hchain.1, addrQ_of_quiescent hq] at haddrs
    rw [C2hSystem.step, hcons] at hnone
    cases hburst : s.dma.burst with
    | some addr =>
      rw [hburst] at hnone
      cases hnone
    | none =>
      -- the beat is the first of a burst, whose address was taken
      rw [hburst] at hnone haddrs
      cases hwait : s.dma.addrs with
      | nil =>
        rw [hwait] at haddrs
        cases haddrs
      | cons addr addrs =>
        rw [hwait] at hnone
        cases hnone
  have hinFlight := h.flow.inFlight
  rw [hposted, hdata] at hinFlight
  simp only [countP_nil] at hinFlight
  refine ⟨hposted, hdata, ?_⟩
  by_contra hne
  obtain ⟨head, heads, hcons⟩ := exists_cons_of_ne_nil hne
  have hresp := hq (.card .handleWriteResp) (by rintro _ ⟨⟩) trivial
  rw [C2hSystem.step, RingbufC2h.fire, RingbufC2h.handleWriteResp, hcons] at hresp
  cases hq' : s.card.dmaWriteRespQ with
  | cons ok resps =>
    rw [hq'] at hresp
    cases hresp
  | nil =>
    have hnone := hq (.respond true) (by rintro _ ⟨⟩) trivial
    rw [hq', hcons, length_cons, length_nil] at hinFlight
    rw [C2hSystem.step, hq', if_pos ⟨by omega, Nat.one_pos⟩] at hnone
    cases hnone

theorem Inv.not_sending_of_quiescent : s.card.isSendingDescBodyReg = false := by
  obtain ⟨-, hdata, hinFlight⟩ := h.landed_of_quiescent hq
  by_contra hsending
  rw [Bool.not_eq_false] at hsending
  have havailable := h.flow.available
  rw [leftOf, hsending, if_pos rfl] at havailable
  obtain ⟨desc, descs, hcons⟩ := exists_cons_of_ne_nil
    (ne_nil_of_length_pos (l := s.card.bufQ) (by omega))
  have hnone := hq (.card .doDmaWrite) (by rintro _ ⟨⟩) trivial
  rw [C2hSystem.step, RingbufC2h.fire, RingbufC2h.doDmaWrite, hcons, hdata, hinFlight] at hnone
  simp only [hsending, length_nil, Nat.one_pos, implies_true] at hnone
  cases hnone

theorem Inv.start_of_quiescent : s.ring.call = .start ∧ s.consumed = s.popped.flatten.length := by
  have hnone := hq .driver (by rintro _ ⟨⟩) trivial
  have hin := h.call
  rw [C2hSystem.step, tryPop] at hnone
  cases hcall : s.ring.call with
  | start =>
    rw [hcall] at hin
    exact ⟨rfl, hin.2.1⟩
  | readAndAdvance popped left =>
    rw [hcall] at hnone
    cases hnone
  | writeTailCsr popped =>
    rw [hcall] at hnone
    cases hnone

theorem Inv.group_of_quiescent (hgroups : ∀ g ∈ groups, IsGroup spec.hasNext g)
    {g : List RawDesc} (hpre : s.popped ++ [g] <+: groups) :
    s.landed.length < s.consumed + g.length := by
  obtain ⟨hcall, heq⟩ := h.start_of_quiescent hq
  have hnone := hq .driver (by rintro _ ⟨⟩) trivial
  rw [C2hSystem.step, tryPop, hcall] at hnone
  have hready := map_eq_none_iff.1 hnone
  rw [ConsumerRing.ready_eq h.cachedTail, h.physAddr] at hready
  by_contra hge
  rw [Nat.not_lt] at hge
  match g, isGroup_of_next hgroups hpre, hpre with
  | [a], hg, hpre =>
    rw [length_singleton] at hge
    have ha := h.mem_slot hpre (i := 0) rfl (Nat.le_of_eq heq) (by omega)
    rw [Nat.add_zero, ← heq] at ha
    rw [ha, hg.1, hg.2] at hready
    cases hready
  | [a, b], hg, hpre =>
    have hge : s.consumed + 2 ≤ s.landed.length := hge
    have ha := h.mem_slot hpre (i := 0) rfl (Nat.le_of_eq heq) (by omega)
    have hb := h.mem_slot hpre (i := 1) rfl (by omega) (by omega)
    rw [Nat.add_zero, ← heq] at ha
    rw [← heq] at hb
    rw [ha, hb, hg.1, hg.2.1, hg.2.2] at hready
    cases hready

theorem Inv.empty_of_quiescent (hgroups : ∀ g ∈ groups, IsGroup spec.hasNext g) :
    s.card.bufQ = [] ∧ s.card.inputQ = [] := by
  obtain ⟨hposted, hdata, -⟩ := h.landed_of_quiescent hq
  have hsending := h.not_sending_of_quiescent hq
  obtain ⟨-, heq⟩ := h.start_of_quiescent hq
  have hbuf : s.card.bufQ = [] := by
    by_contra hne
    have hfull : ¬ 0 < s.card.freeSlotCnt := by
      intro hfree
      have hdelay := hq (.card .handleBatchDelay) (by rintro _ ⟨⟩) trivial
      rw [C2hSystem.step, RingbufC2h.fire, RingbufC2h.handleBatchDelay, if_neg hne] at hdelay
      have hfired : s.card.batchDelayCounterReg = -1 := by
        by_contra hne'
        rw [if_neg hne'] at hdelay
        cases hdelay
      have hprepare := hq (.card .prepareDmaWrite) (by rintro _ ⟨⟩) trivial
      rw [C2hSystem.step, RingbufC2h.fire, prepareDmaWrite, addrQ_of_quiescent hq,
        if_pos ⟨hsending, hfired, hne, hfree, Nat.two_pos⟩] at hprepare
      cases hprepare
    have hcnt : s.card.freeSlotCnt.toNat = 0 := Nat.eq_zero_of_not_pos hfull
    rw [h.flow.toNat_freeSlotCnt, sentOf, hposted, hdata] at hcnt
    simp only [length_nil] at hcnt
    obtain ⟨g, hpre⟩ := h.exists_group (by omega)
    have hlt := h.group_of_quiescent hq hgroups hpre
    have hle := (isGroup_of_next hgroups hpre).length_le
    omega
  refine ⟨hbuf, ?_⟩
  by_contra hne
  obtain ⟨desc, descs, hcons⟩ := exists_cons_of_ne_nil hne
  have hnone := hq (.card .forwardInput) (by rintro _ ⟨⟩) trivial
  rw [C2hSystem.step, RingbufC2h.fire, RingbufC2h.forwardInput, hcons, hbuf] at hnone
  cases hnone

/-- **At rest all groups are returned.** -/
theorem popped_of_quiescent (hgroups : ∀ g ∈ groups, IsGroup spec.hasNext g)
    (hall : s.entered = groups.flatten) : s.popped = groups := by
  obtain ⟨hposted, hdata, -⟩ := h.landed_of_quiescent hq
  obtain ⟨hbuf, hinput⟩ := h.empty_of_quiescent hq hgroups
  obtain ⟨-, heq⟩ := h.start_of_quiescent hq
  have horder := h.order
  rw [streamOf, hposted, hdata, hbuf, hinput, hall] at horder
  simp only [map_nil, append_nil] at horder
  obtain ⟨rest, hrest⟩ := h.call.bounds.1
  cases rest with
  | nil => rwa [append_nil] at hrest
  | cons g rest =>
    -- the next group has landed with all the others
    have hlt := h.group_of_quiescent hq hgroups (g := g) ⟨rest, by
      rw [← hrest, append_assoc, singleton_append]⟩
    have hlen := congrArg length horder
    rw [length_map, ← hrest, flatten_append, flatten_cons, length_append,
      length_append] at hlen
    omega

end Rest

/-! ## The queue -/

theorem decreases {mem : BitVec 64 → RawDesc} {cnt : BitVec 2} (hgroups : ∀ g ∈ groups,
    IsGroup spec.hasNext g) (hmem : ∀ n < 4096, mem ((ringAt baseAddr).slot n) = 0) :
    Decreases (step spec) (Possible groups) C2hLabel.Own (init baseAddr cnt mem) measure :=
  fun _ _ _ _ hrun hl _ hs => (inv_of_run hgroups hmem hrun).measure_lt hl hs

/-- **The ring from the card to the host is a queue.** Whatever groups of descriptors enter, in
every run the driver has returned the elements of the first of them, no write is on its way to a
slot with a descriptor that the driver has not consumed, the system comes to rest after a bounded
number of steps, and when it rests the next descriptor can enter and all groups that entered are
returned. -/
theorem run_fifo {mem : BitVec 64 → RawDesc} {cnt : BitVec 2} {ls : List C2hLabel}
    (hgroups : ∀ g ∈ groups, IsGroup spec.hasNext g) (hmem : ∀ n < 4096,
      mem ((ringAt baseAddr).slot n) = 0)
    (h : Run (step spec) (Possible groups) (init baseAddr cnt mem) ls s) :
    s.popped <+: groups ∧ s.returned = s.popped.map spec.fromBytes ∧
    (∀ w ∈ s.dma.posted, ∀ x ∈ s.landed.drop s.consumed, x.1 ≠ w.addr) ∧
    (∃ bound, ∀ ls' s', Run (step spec) (Possible groups) (init baseAddr cnt mem) (ls ++ ls') s' →
      (∀ l ∈ ls', l.Own) → ls'.length ≤ bound) ∧
    (Quiescent (step spec) (Possible groups) C2hLabel.Own s →
      s.card.inputQ = [] ∧ (s.entered = groups.flatten → s.popped = groups)) := by
  have hinv := inv_of_run hgroups hmem h
  refine ⟨hinv.call.bounds.1, hinv.returned, ?_,
    ⟨s.measure, fun ls' s' h' hown => h.length_le (decreases hgroups hmem) h' hown⟩,
    fun hq => ⟨(hinv.empty_of_quiescent hq hgroups).2, popped_of_quiescent hq hinv hgroups⟩⟩
  intro w hw x hx heq
  obtain ⟨i, hi⟩ := List.mem_iff_getElem?.1 hw
  obtain ⟨j, hj⟩ := List.mem_iff_getElem?.1 hx
  have hlt := hinv.lt_size (List.getElem?_eq_some_iff.1 hi).1
  rw [getElem?_drop] at hj
  have hj' := (List.getElem?_eq_some_iff.1 hj).1
  rw [hinv.landed _ x hj, hinv.flow.posted i w hi, hinv.base] at heq
  exact (ringAt baseAddr).slot_ne (by omega) (by change _ < _ + 4096; omega) heq

/-- A pair and a single descriptor. -/
def pairAndOne : List (List RawDesc) :=
  [[BitVec.ofNat 256 (2 ^ 255 + 2 ^ 254), BitVec.ofNat 256 (2 ^ 255 + 1)],
    [BitVec.ofNat 256 (2 ^ 255 + 2)]]

/-- They enter, are written in one burst and returned. -/
def passThrough : List C2hLabel :=
  pairAndOne.flatten.flatMap (fun desc => [.enter desc, .card .forwardInput]) ++
    replicate 15 (.card .handleBatchDelay) ++ [.card .prepareDmaWrite, .takeAddr] ++
    (replicate 3 [.card .doDmaWrite, .takeBeat, .land]).flatten ++ replicate 7 .driver

/-- The element of a group is the list of its descriptors. -/
def rawElement : FromRingBytes (List RawDesc) := ⟨RawDesc.hasNextFrag, some⟩

theorem run_fifo_pairAndOne : ∃ s,
    Run (step rawElement) (Possible pairAndOne) (init 0 0 fun _ => 0) passThrough s ∧
    s.landed.length = 3 ∧
      s.popped = pairAndOne ∧ s.popped <+: pairAndOne ∧ s.returned = pairAndOne.map some := by
  have hrun : ∃ s, Run (step rawElement) (Possible pairAndOne) (init 0 0 fun _ => 0) passThrough s ∧
      s.landed.length = 3 ∧ s.popped = pairAndOne :=
    ⟨_, .of_isSome (by decide +kernel), by decide +kernel, by decide +kernel⟩
  obtain ⟨s, hs, hlanded, hpopped⟩ := hrun
  obtain ⟨hpre, hreturned, -⟩ := run_fifo (by decide +kernel) (fun _ _ => rfl) hs
  exact ⟨s, hs, hlanded, hpopped, hpre, hpopped ▸ hreturned⟩

end C2hSystem

end OpenRdma.Link
