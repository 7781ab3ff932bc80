import OpenRdma.Rtl.RqChecks
import OpenRdma.Rtl.RqFrames

/-!
# Packets, numbers of beats and payloads of one frame

The receive queue reads four queues: headers, addresses, numbers of beats and payload. If every
routed frame has its headers and has payload exactly if its headers say so (`FrameOk`), what is read
for a packet comes from one frame (`FramesAligned`).
-/

namespace OpenRdma.Rtl

open List Option RqHistory PacketParse

/-! ## The invariant -/

section

variable (settings : LocalNetworkSettings) (frames : ℕ → Frame)

/-- The headers of a packet and the addresses of its sender. -/
noncomputable def origin (i : ℕ) : RdmaRecvPacketMeta × ThinMacIpUdpMetaDataForRecv :=
  ((packet settings frames i).packetMeta, (packet settings frames i).macIpUdpMeta settings)

/-- The number of beats the receive queue takes for a packet. -/
noncomputable def tailTaken (i : ℕ) : Option (BitVec 8) :=
  if HasPayload settings frames i then some (packet settings frames i).tail else none

end

/-- The packets parsed that have not reached the third check. -/
def RQ.waiting (s : RQ) : List (RdmaRecvPacketMeta × ThinMacIpUdpMetaDataForRecv) :=
  s.checkMrTableStep3Pipe.map (fun e => (e.rdmaPacketMeta, e.peerMacIpUdpMeta)) ++
    s.checkMrTableStep2Pipe.map (fun e => (e.rdmaPacketMeta, e.peerMacIpUdpMeta)) ++
    s.checkQpcAndMrTablePipe.map fun e => (e.rdmaPacketMeta, e.peerMacIpUdpMeta)

/-- The packets parsed, those waiting for the third check and those past it are the routed
frames. -/
structure HeadersInv (settings : LocalNetworkSettings) (frames : ℕ → Frame)
    (parsed : List CheckQpcAndMrTablePipelineEntry)
    (waiting : List (RdmaRecvPacketMeta × ThinMacIpUdpMetaDataForRecv))
    (tails : List (Option (BitVec 8))) (checked : List CheckedPipelineEntry) : Prop where
  routed : ∀ k < parsed.length, ∃ n, Routed settings frames n ∧
    Nat.count (Routed settings frames) n = k
  parsedFrom : Window (fun i => parseEntry (origin settings frames i).1
    (origin settings frames i).2) 0 parsed.length parsed
  waitingFrom : Window (origin settings frames) tails.length parsed.length waiting
  tailsFrom : Window (tailTaken settings frames) 0 tails.length tails
  checkedFrom : Window (origin settings frames) 0 tails.length
    (checked.map fun e => (e.rdmaPacketMeta, e.peerMacIpUdpMeta))

/-- The filter, where `g` beats of payload were taken. -/
structure FilterInv (settings : LocalNetworkSettings) (frames : ℕ → Frame)
    (issued : List CheckedPipelineEntry) (filtered : List (Bool × List DataStream))
    (filtering : List DataStream) (cmds : List Bool) (out : List DataStream) (g : ℕ) : Prop where
  place : payloadAt settings frames g = (filtered.length, filtering.length)
  commands : filtered.map (·.1) ++ cmds =
    (issued.filter (·.rdmaPacketMeta.hasPayload)).map (·.isDiscard)
  filteredFrom : Window (fun i => (payloadPacket settings frames i).payload) 0 filtered.length
    (filtered.map (·.2))
  filteringFrom : Window (payloadPacket settings frames filtered.length).payloadBeat 0
    filtering.length filtering
  idle : cmds = [] → filtering = []
  forwarded : out = filtered.flatMap (fun f => if f.1 then [] else f.2) ++
    if cmds.head? = some false then filtering else []

/-- The invariant of the receive queue. -/
def PacketsInv (settings : LocalNetworkSettings) (frames : ℕ → Frame) (s : RQ) (h : RqHistory) :
    Prop :=
  ∃ g c e, ParserInv settings frames s.packetParser h.arrived h.parsed.length h.tails.length g c e ∧
    HeadersInv settings frames h.parsed s.waiting h.tails
      (h.issued ++ s.issuePayloadConReqOrDiscardPipe) ∧
    FilterInv settings frames h.issued h.filtered h.filtering s.filterCmd
      s.filteredDataStreamForConsume g

variable {card : Card} {settings : LocalNetworkSettings} {frames : ℕ → Frame} {s s' s₀ : RQ}
  {h : RqHistory} {ls : List RqLabel} {w w' : RQ × RqHistory}

theorem packetsInv_init (hs : s.Initial) : PacketsInv settings frames s {} := by
  obtain ⟨p, hp, rfl⟩ := hs
  refine ⟨0, 0, 0, .init hp, ⟨fun k hk => absurd hk (Nat.not_lt_zero k), .nil _ _,
    .nil _ _, .nil _ _, .nil _ _⟩, rfl, rfl, .nil _ _, .nil _ _, fun _ => rfl, rfl⟩

/-! ## Steps -/

namespace HeadersInv

variable {parsed : List CheckQpcAndMrTablePipelineEntry}
  {waiting : List (RdmaRecvPacketMeta × ThinMacIpUdpMetaDataForRecv)}
  {tails : List (Option (BitVec 8))} {checked : List CheckedPipelineEntry}

theorem parse (h : HeadersInv settings frames parsed waiting tails checked)
    {m : RdmaRecvPacketMeta} {peer : ThinMacIpUdpMetaDataForRecv}
    (hm : (m, peer) = origin settings frames parsed.length)
    (hr : ∃ n, Routed settings frames n ∧ Nat.count (Routed settings frames) n = parsed.length) :
    HeadersInv settings frames (parsed ++ [parseEntry m peer]) (waiting ++ [(m, peer)]) tails
      checked := by
  have hlen : (parsed ++ [parseEntry m peer]).length = parsed.length + 1 := by simp
  refine ⟨fun k hk => ?_, ?_, ?_, h.tailsFrom, h.checkedFrom⟩
  · rcases Nat.lt_succ_iff_lt_or_eq.1 (hlen ▸ hk) with hk | rfl
    · exact h.routed k hk
    · exact hr
  · rw [hlen]
    exact h.parsedFrom.push_of_eq (by rw [← hm])
  · rw [hlen]
    exact h.waitingFrom.push_of_eq hm

theorem check {m : RdmaRecvPacketMeta} {peer : ThinMacIpUdpMetaDataForRecv}
    (h : HeadersInv settings frames parsed ((m, peer) :: waiting) tails checked)
    {t : Option (BitVec 8)} (ht : t = tailTaken settings frames tails.length)
    {e : CheckedPipelineEntry} (he : (e.rdmaPacketMeta, e.peerMacIpUdpMeta) = (m, peer)) :
    HeadersInv settings frames parsed waiting (tails ++ [t]) (checked ++ [e]) := by
  obtain ⟨-, hm, hwaiting⟩ := h.waitingFrom.pop
  have hlen : (tails ++ [t]).length = tails.length + 1 := by simp
  refine ⟨h.routed, h.parsedFrom, hlen ▸ hwaiting, ?_, ?_⟩
  · rw [hlen]
    exact h.tailsFrom.push_of_eq ht
  · rw [hlen, map_append]
    exact h.checkedFrom.push_of_eq (he.trans hm)

end HeadersInv

namespace FilterInv

variable {issued : List CheckedPipelineEntry} {filtered : List (Bool × List DataStream)}
  {filtering : List DataStream} {cmds : List Bool} {out : List DataStream} {g : ℕ}

theorem issue (h : FilterInv settings frames issued filtered filtering cmds out g)
    (e : CheckedPipelineEntry) : FilterInv settings frames (issued ++ [e]) filtered filtering
      (cmds ++ if e.rdmaPacketMeta.hasPayload then [e.isDiscard] else []) out g := by
  have hidle := h.idle
  refine ⟨h.place, ?_, h.filteredFrom, h.filteringFrom, fun hc => hidle (append_eq_nil_iff.1 hc).1,
    ?_⟩
  · rw [← append_assoc, h.commands]
    cases hp : e.rdmaPacketMeta.hasPayload <;> simp [hp]
  · rw [h.forwarded]
    cases cmds with
    | nil => rw [hidle rfl, ite_self, ite_self]
    | cons c cs => rfl

theorem filter {isDiscard : Bool}
    (h : FilterInv settings frames issued filtered filtering (isDiscard :: cmds) out g)
    {ds : DataStream} (hds : ds = (payloadPacket settings frames filtered.length).payloadBeat
    filtering.length) (hnext : payloadAt settings frames (g + 1) =
      if ds.isLast then (filtered.length + 1, 0) else (filtered.length, filtering.length + 1))
    (hlast : ds.isLast ↔ filtering.length + 1 =
      (payloadPacket settings frames filtered.length).len - 3) : FilterInv settings frames issued
      (if ds.isLast then filtered ++ [(isDiscard, filtering ++ [ds])] else filtered)
      (if ds.isLast then [] else filtering ++ [ds])
      (if ds.isLast then cmds else isDiscard :: cmds) (out ++ if isDiscard then [] else [ds])
      (g + 1) := by
  have hpush := h.filteringFrom.push_of_eq hds
  have hcommands := h.commands
  have hout := h.forwarded
  by_cases hl : ds.isLast = true
  · rw [if_pos hl, if_pos hl, if_pos hl]
    rw [if_pos hl] at hnext
    have hpayload : filtering ++ [ds] = (payloadPacket settings frames
      filtered.length).payload := by
      rw [hpush.eq, Frame.payload, ← hlast.1 hl, range_eq_range']
      rfl
    refine ⟨?_, ?_, ?_, .nil _ _, fun _ => rfl, ?_⟩
    · simpa using hnext
    · simpa using hcommands
    · rw [length_append, map_append]
      exact h.filteredFrom.push_of_eq hpayload
    · rw [hout]
      cases isDiscard <;> simp
  · rw [if_neg hl, if_neg hl, if_neg hl]
    rw [if_neg hl] at hnext
    refine ⟨?_, hcommands, h.filteredFrom, ?_, fun hc => absurd hc (cons_ne_nil _ _), ?_⟩
    · simpa using hnext
    · rw [length_append]
      exact hpush
    · rw [hout]
      cases isDiscard <;> simp

end FilterInv

theorem PacketsInv.step3 (hi : PacketsInv settings frames s h)
    (hs : s.checkMrTableStep3 = some s') : PacketsInv settings frames s'
    (h.record s .checkMrTableStep3) := by
  obtain ⟨g, c, e, hp, hh, hf⟩ := hi
  obtain ⟨x, xs, tail, tails, hx, htail, rfl⟩ := RQ.checkMrTableStep3_eq hs
  have hwaiting : s.waiting = (x.rdmaPacketMeta, x.peerMacIpUdpMeta) ::
      { s with checkMrTableStep3Pipe := xs }.waiting := by
    simp [RQ.waiting, hx]
  rw [hwaiting] at hh
  have hm : x.rdmaPacketMeta = (packet settings frames h.tails.length).packetMeta :=
    congrArg Prod.fst hh.waitingFrom.pop.2.1
  rw [record_checkMrTableStep3 hx htail]
  -- the parser and the number of beats taken
  obtain ⟨ht, hp'⟩ : tail = tailTaken settings frames h.tails.length ∧
      ParserInv settings frames { s.packetParser with rdmaPacketTailMetaOut := tails } h.arrived
        h.parsed.length (h.tails.length + 1) g c e := by
    rcases htail with ⟨hpay, ht, hsome⟩ | ⟨hpay, rfl, rfl⟩
    · have hpay' : HasPayload settings frames h.tails.length := by rw [HasPayload, ← hm, hpay]
      obtain ⟨heq, hp'⟩ := hp.takeTail hpay' ht
      obtain ⟨t, rfl⟩ := isSome_iff_exists.1 hsome
      rw [tailTaken, if_pos hpay', ← heq]
      exact ⟨rfl, hp'⟩
    · have hpay' : ¬ HasPayload settings frames h.tails.length := by
        rw [HasPayload, ← hm, hpay]
        exact Bool.false_ne_true
      rw [tailTaken, if_neg hpay']
      exact ⟨rfl, hp.skipTail hpay'⟩
  have hh' := hh.check ht (e := checkMrTableStep3Entry x (tail.getD 0)) rfl
  rw [append_assoc] at hh'
  refine ⟨g, c, e, ?_, hh', hf⟩
  simpa using hp'

/-- **Every step keeps the packets of the receive queue in step with the frames.** -/
theorem PacketsInv.step (hok : ∀ k, FrameOk card.settings (frames k)) {l : RqLabel}
    (hi : PacketsInv card.settings frames w.1 w.2) (hstep : rqStep card frames w l = some w') :
    PacketsInv card.settings frames w'.1 w'.2 := by
  obtain ⟨s, h⟩ := w
  obtain ⟨s', hs', rfl⟩ := map_eq_some_iff.1 hstep
  replace hs' : s.step card (beatAt frames h.arrived) l = some s' := hs'
  obtain ⟨g, c, e, hp, hh, hf⟩ := hi
  cases l with
  | arrive =>
    cases hs'
    exact ⟨g, c, e, hp.arrive, hh, hf⟩
  | conResp resp =>
    cases hs'
    exact ⟨g, c, e, hp, hh, hf⟩
  | discardPacketWhenNetworkSettingsNotReady =>
    obtain ⟨p, hp', rfl⟩ := map_eq_some_iff.1 hs'
    exact ⟨g, c, e, hp.accepted hp', hh, hf⟩
  | handleBeatStage =>
    obtain ⟨p, hp', rfl⟩ := map_eq_some_iff.1 hs'
    exact ⟨g, c, e, hp.handleBeatStage hp', hh, hf⟩
  | dispatchStream =>
    obtain ⟨p, hp', rfl⟩ := map_eq_some_iff.1 hs'
    exact ⟨g, c + 1, e, hp.dispatchStream hp', hh, hf⟩
  | handleBeat =>
    obtain ⟨p, hp', rfl⟩ := map_eq_some_iff.1 hs'
    exact ⟨g, c, e + 1, hp.handleBeat hok hp', hh, hf⟩
  | sendQpcQueryReqAndSomeSimpleParse =>
    obtain ⟨m, metas, peer, peers, hm, hpeer, rfl⟩ := RQ.sendQpcQueryReqAndSomeSimpleParse_eq hs'
    obtain ⟨hm', hpeer', hr, hp'⟩ := hp.takePacket hm hpeer
    have hh' := hh.parse (Prod.ext hm' hpeer') hr
    simp only [record, hm, hpeer]
    refine ⟨g, c, e, ?_, ?_, hf⟩
    · simpa using hp'
    · simpa [RQ.waiting, parseEntry] using hh'
  | answerQpc =>
    obtain ⟨qpn, qpns, -, rfl⟩ := RQ.answerQpc_eq hs'
    exact ⟨g, c, e, hp, hh, hf⟩
  | answerMr =>
    obtain ⟨idx, idxs, -, rfl⟩ := RQ.answerMr_eq hs'
    exact ⟨g, c, e, hp, hh, hf⟩
  | checkQpcAndMrTable =>
    obtain ⟨x, xs, q, qs, r, mrs, hx, hq, -, rfl⟩ := RQ.checkQpcAndMrTable_eq hs'
    simp only [record, hx, hq]
    refine ⟨g, c, e, hp, ?_, hf⟩
    simpa [RQ.waiting, hx, checkEntry] using hh
  | checkMrTableStep2 =>
    obtain ⟨x, xs, hx, rfl⟩ := RQ.checkMrTableStep2_eq hs'
    refine ⟨g, c, e, hp, ?_, hf⟩
    simpa [record, RQ.waiting, hx, checkMrTableStep2Entry] using hh
  | checkMrTableStep3 => exact .step3 ⟨g, c, e, hp, hh, hf⟩ hs'
  | issuePayloadConReqOrDiscard =>
    obtain ⟨x, xs, hx, rfl⟩ := RQ.issuePayloadConReqOrDiscard_eq hs'
    simp only [record, hx]
    refine ⟨g, c, e, hp, ?_, hf.issue x⟩
    rw [hx] at hh
    rw [append_assoc]
    exact hh
  | handleConResp =>
    obtain ⟨x, xs, resps, -, rfl⟩ := RQ.handleConResp_eq hs'
    exact ⟨g, c, e, hp, hh, hf⟩
  | filterDiscardedPayloadStream =>
    obtain ⟨isDiscard, cmds, ds, beats, hc, hq, rfl⟩ := RQ.filterDiscardedPayloadStream_eq hs'
    obtain ⟨hds, hnext, hlast, hp'⟩ := hp.takeBeat hok hq hf.place
    have hf' := (hc ▸ hf).filter hds hnext hlast
    simp only [record, hc, hq]
    split_ifs at hf' ⊢ with hl
    all_goals exact ⟨g + 1, c, e, hp', hh, hf'⟩

theorem packetsInv_of_run {ok : RQ × RqHistory → RqLabel → Prop}
    (hok : ∀ k, FrameOk card.settings (frames k)) (hs₀ : s₀.Initial)
    (hrun : Run (rqStep card frames) ok (s₀, {}) ls w) : PacketsInv card.settings frames w.1 w.2 :=
  hrun.invariant (I := fun _ w => PacketsInv card.settings frames w.1 w.2) (packetsInv_init hs₀)
    fun _ _ _ _ hi _ hstep => hi.step hok hstep

/-! ## Alignment -/

/-- The number of packets with payload issued before the `k`-th. -/
def RqHistory.commandOf (h : RqHistory) (k : ℕ) : ℕ :=
  (h.issued.take k).countP (·.rdmaPacketMeta.hasPayload)

/-- What was read for the `k`-th packet is of the frame `f`. -/
structure ReadFrom (settings : LocalNetworkSettings) (s : RQ) (h : RqHistory) (k : ℕ) (f : Frame) :
    Prop where
  parsed : ∀ e, h.parsed[k]? = some e → e = parseEntry f.packetMeta (f.macIpUdpMeta settings)
  tail : ∀ t, h.tails[k]? = some t → t = if f.packetMeta.hasPayload then some f.tail else none
  issued : ∀ e, h.issued[k]? = some e →
    e.rdmaPacketMeta = f.packetMeta ∧ e.peerMacIpUdpMeta = f.macIpUdpMeta settings
  filtered : ∀ e c, h.issued[k]? = some e → f.packetMeta.hasPayload →
    h.filtered[h.commandOf k]? = some c → c = (e.isDiscard, f.payload)
  filtering : ∀ e, h.issued[k]? = some e → f.packetMeta.hasPayload →
    h.commandOf k = h.filtered.length → s.filterCmd.head? = some e.isDiscard ∧
    h.filtering <+: f.payload

/-- **Headers, addresses, number of beats and payload of a packet come from one frame**: the `k`-th
packet is the `k`-th routed frame. The payload that is forwarded is that of the packets not
discarded. -/
structure FramesAligned (settings : LocalNetworkSettings) (frames : ℕ → Frame) (s : RQ)
    (h : RqHistory) : Prop where
  packet : ∀ k < h.parsed.length, ∃ n, Routed settings frames n ∧
    Nat.count (Routed settings frames) n = k ∧ ReadFrom settings s h k (frames n)
  tails : h.tails.length ≤ h.parsed.length
  issued : h.issued.length ≤ h.tails.length
  filtered : h.filtered.length ≤ h.commandOf h.issued.length
  forwarded : s.filteredDataStreamForConsume =
    h.filtered.flatMap (fun c => if c.1 then [] else c.2) ++
      if s.filterCmd.head? = some false then h.filtering else []

section

variable {parsed : List CheckQpcAndMrTablePipelineEntry}
  {waiting : List (RdmaRecvPacketMeta × ThinMacIpUdpMetaDataForRecv)}
  {tails : List (Option (BitVec 8))} {issued pipe : List CheckedPipelineEntry}

theorem HeadersInv.getElem?_issued (hh : HeadersInv settings frames parsed waiting tails
    (issued ++ pipe)) {k : ℕ} {e : CheckedPipelineEntry} (he : issued[k]? = some e) :
    (e.rdmaPacketMeta, e.peerMacIpUdpMeta) = origin settings frames k := by
  have hk := (List.getElem?_eq_some_iff.1 he).1
  have hget : ((issued ++ pipe).map fun e => (e.rdmaPacketMeta, e.peerMacIpUdpMeta))[k]? =
      some (e.rdmaPacketMeta, e.peerMacIpUdpMeta) := by
    rw [getElem?_map, getElem?_append_left hk, he]
    rfl
  rw [hh.checkedFrom.getElem? hget, Nat.zero_add]

theorem HeadersInv.commandOf (hh : HeadersInv settings frames parsed waiting
    tails (h.issued ++ pipe)) {k : ℕ} (hk : k ≤ h.issued.length) :
    Nat.count (HasPayload settings frames) k = h.commandOf k :=
  count_eq_countP_take (fun i e he => by
    have hm : e.rdmaPacketMeta = (packet settings frames i).packetMeta :=
      congrArg Prod.fst (hh.getElem?_issued he)
    rw [HasPayload, hm]) hk

end

theorem PacketsInv.readFrom (hi : PacketsInv settings frames s h) {k n : ℕ}
    (hr : Routed settings frames n) (hk : Nat.count (Routed settings frames) n = k) :
    ReadFrom settings s h k (frames n) := by
  obtain ⟨g, c, e, -, hh, hf⟩ := hi
  have hn : packet settings frames k = frames n := hk ▸ packet_count hr
  have horigin : origin settings frames k = ((frames n).packetMeta,
    (frames n).macIpUdpMeta settings) := by
    rw [origin, hn]
  have hpacket : HasPayload settings frames k ↔ (frames n).packetMeta.hasPayload = true := by
    rw [HasPayload, hn]
  -- the command of the packet, and the payload it applies to
  have hcommand : ∀ e, h.issued[k]? = some e → (frames n).packetMeta.hasPayload →
      (h.filtered.map (·.1) ++ s.filterCmd)[h.commandOf k]? = some e.isDiscard ∧
        payloadPacket settings frames (h.commandOf k) = frames n := by
    intro e he hp
    have hmeta : e.rdmaPacketMeta = (frames n).packetMeta :=
      congrArg Prod.fst ((hh.getElem?_issued he).trans horigin)
    constructor
    · rw [hf.commands, getElem?_map, commandOf,
        getElem?_filter_countP_take he (by rw [hmeta]; exact hp)]
      rfl
    · rw [← hh.commandOf (List.getElem?_eq_some_iff.1 he).1.le, payloadPacket_count (hpacket.2 hp),
        hn]
  refine ⟨fun e he => ?_, fun t ht => ?_, fun e he => ?_, fun e c he hp hc => ?_,
    fun e he hp hlen => ?_⟩
  · rw [hh.parsedFrom.getElem? he, Nat.zero_add, horigin]
  · rw [hh.tailsFrom.getElem? ht, Nat.zero_add, tailTaken, hn]
    simp only [hpacket]
  · exact Prod.mk.inj ((hh.getElem?_issued he).trans horigin)
  · obtain ⟨hcmd, hpayload⟩ := hcommand e he hp
    have hlt := (List.getElem?_eq_some_iff.1 hc).1
    refine Prod.ext ?_ ?_
    · rw [getElem?_append_left (by rwa [length_map]), getElem?_map, hc] at hcmd
      exact Option.some.inj hcmd
    · have hget : (h.filtered.map (·.2))[h.commandOf k]? = some c.2 := by
        rw [getElem?_map, hc]
        rfl
      rw [hf.filteredFrom.getElem? hget, Nat.zero_add, hpayload]
  · obtain ⟨hcmd, hpayload⟩ := hcommand e he hp
    rw [hlen] at hcmd hpayload
    constructor
    · rwa [getElem?_append_right (by rw [length_map]), length_map, Nat.sub_self,
        ← head?_eq_getElem?] at hcmd
    · have hle := cursor_le (fun i => (payloadPacket settings frames i).len - 3) g
      rw [← payloadAt, hf.place] at hle
      rw [← hpayload]
      exact hf.filteringFrom.isPrefix hle

theorem PacketsInv.framesAligned (hi : PacketsInv settings frames s h) :
    FramesAligned settings frames s h := by
  have hread := fun k n => hi.readFrom (k := k) (n := n)
  obtain ⟨g, c, e, -, hh, hf⟩ := hi
  refine ⟨fun k hk => ?_, hh.waitingFrom.le, ?_, ?_, hf.forwarded⟩
  · obtain ⟨n, hr, hcount⟩ := hh.routed k hk
    exact ⟨n, hr, hcount, hread k n hr hcount⟩
  · have hlen := hh.checkedFrom.length_eq
    rw [length_map, length_append] at hlen
    omega
  · have hlen := congrArg length hf.commands
    rw [length_append, length_map, length_map, ← countP_eq_length_filter] at hlen
    rw [commandOf, take_length]
    omega

/-- **In every run with frames that have their headers, and payload exactly if their headers say so,
what is read for a packet comes from one frame.** -/
theorem run_framesAligned {ok : RQ × RqHistory → RqLabel → Prop}
    (hok : ∀ k, FrameOk card.settings (frames k)) (hs₀ : s₀.Initial)
    (hrun : Run (rqStep card frames) ok (s₀, {}) ls w) :
    FramesAligned card.settings frames w.1 w.2 :=
  (packetsInv_of_run hok hs₀ hrun).framesAligned

/-- Two writes pass through the receive queue, and their payload is forwarded. -/
theorem run_framesAligned_two_writes :
    ∃ w, Run (rqStep sampleCard (twoWrites 1)) (fun _ _ => True) ({ packetParser := resetParse },
      {})
        (passThrough 8 2 ++ replicate 2 .filterDiscardedPayloadStream) w ∧
      w.2.parsed.map (·.peerMacIpUdpMeta.srcPort) = [7, 8] ∧ w.2.tails = [some 1, some 1] ∧
      w.2.filtered.map (·.1) = [false, false] ∧ w.1.filteredDataStreamForConsume.length = 2 ∧
      FramesAligned sampleCard.settings (twoWrites 1) w.1 w.2 := by
  have hok : ∀ k, FrameOk sampleCard.settings (twoWrites 1 k)
    | 0 => by decide +kernel
    | _ + 1 => by
      change FrameOk sampleSettings (samplePacketFrame 8 0x0a 0x100 0x2000 0x100 32 1)
      decide +kernel
  exact ⟨_, .of_isSome (by decide +kernel), by decide +kernel, by decide +kernel, by decide +kernel,
    by decide +kernel, run_framesAligned hok resetParse_initial (.of_isSome _)⟩

/-- A write that ends after two beats, and another write. -/
def cutWrite : ℕ → Frame
  | 0 => ⟨(samplePacketFrame 7 0x0a 0x100 0x1000 0x000 32 1).words.take 2,
      by simp [samplePacketFrame]⟩
  | _ => samplePacketFrame 8 0x0a 0x100 0x2000 0x100 32 1

/-- The headers of the second write are read with the addresses of the first. -/
theorem run_reads_other_peer :
    ∃ w, Run (rqStep sampleCard cutWrite) (fun _ _ => True) ({ packetParser := resetParse }, {})
        (passThrough 6 0 ++ [.sendQpcQueryReqAndSomeSimpleParse]) w ∧
      w.2.parsed.map (fun e => (e.rdmaPacketMeta.reth.va, e.peerMacIpUdpMeta.srcPort)) =
      [(0x2000, 7)] ∧ ¬ FramesAligned sampleCard.settings cutWrite w.1 w.2 := by
  refine ⟨_, .of_isSome (by decide +kernel), by decide +kernel, fun ha => ?_⟩
  obtain ⟨n, -, -, hread⟩ := ha.packet 0 (by decide +kernel)
  have hentry := hread.parsed _ (eq_some_of_isSome (by decide +kernel))
  cases n with
  | zero => exact absurd (congrArg (·.rdmaPacketMeta.reth.va) hentry) (by decide +kernel)
  | succ n =>
    have hport := congrArg (·.peerMacIpUdpMeta.srcPort) hentry
    change _ = ((samplePacketFrame 8 0x0a 0x100 0x2000 0x100 32 1).macIpUdpMeta
      sampleSettings).srcPort at hport
    exact absurd hport (by decide +kernel)

/-! ## The mark of congestion -/

/-- The bits of congestion: the low ones of byte 15 of the frame, in the second byte of its IP
header. -/
def Frame.ecn (f : Frame) : BitVec 2 := (f.beat 0).data.extractLsb' (8 * 15) 2

/-- The bits the extractor reads for them: those of byte 16, the first one of the length of the IP
packet. -/
def Frame.ecnRead (f : Frame) : BitVec 2 := (f.beat 0).data.extractLsb' (8 * 16) 2

/-- **The headers of a routed frame carry its mark exactly if the bits of its length look the
same.** The two modules may be in any state between frames. -/
theorem isEcnMarked_iff (settings : LocalNetworkSettings) {f : Frame} (hlen : 3 ≤ f.len)
    (hf : (f.ethMeta settings).routed) {p q : PacketParse} (hp : p.extractorState =
      .handleFirstBeat)
    (hq : q.classifierState = .handleFirstBeat) {raw : List DataStream} {macMatch : Bool}
    {input : List (DataStream × Bool)} (hraw : p.rdmaRawPacketOut =
      f.beat 0 :: f.beat 1 :: f.beat 2 :: raw)
    (hin : q.ethRawPacketForHandle =
      (f.beat 0, macUnicastMatch settings (f.beat 0).data) :: (f.beat 1, macMatch) :: input) :
    ∃ m peer, ((p.handleBeat.bind (·.handleBeat)).bind (·.handleBeat)).map (·.rdmaPacketMetaOut) =
        some (p.rdmaPacketMetaOut ++ [m]) ∧
      ((q.handleBeatStage settings).bind (·.handleBeatStage settings)).map (·.rdmaMacIpUdpMetaOut) =
        some (q.rdmaMacIpUdpMetaOut ++ [peer]) ∧
      peer.ipEcn = f.ecn ∧
      ((m.isEcnMarked ↔ peer.ipEcn = ipHeaderEcnFlagMarked) ↔
        (f.ecnRead = ipHeaderEcnFlagMarked ↔ f.ecn = ipHeaderEcnFlagMarked)) := by
  have hlast : ∀ j < 2, (f.beat j).isLast = false := fun j hj => beq_false_of_ne (by omega)
  have h0 := hlast 0 (by decide)
  have h1 := hlast 1 (by decide)
  have hecn : (f.macIpUdpMeta settings).ipEcn = f.ecn :=
    @extractLsb'_swapEndianByte (f.beat 0).data 16 0 2 (by decide) (by decide)
  have hrouted : (secondBeatMeta settings (f.entry settings) (f.beat 1).data).routed = true := by
    rwa [Frame.ethMeta, if_neg (by omega)] at hf
  refine ⟨f.packetMeta, f.macIpUdpMeta settings, ?_, ?_, hecn, ?_⟩
  · simp only [handleBeat, hraw, hp, handleFirstBeat, h0, handleSecondBeat, h1, Option.bind_some,
      Bool.false_eq_true, if_false]
    rfl
  · simp only [handleBeatStage, hin, hq, handleFirstBeatStage, h0, Option.bind_some,
      Bool.false_eq_true, if_false, handleSecondBeatStage]
    rw [← Frame.entry, hrouted]
    rfl
  · rw [hecn, show f.packetMeta.isEcnMarked = (f.ecnRead == ipHeaderEcnFlagMarked) from rfl,
      beq_iff_eq]

/-- A write with the mark, and `lenBits` set in the high byte of the total length of its IP
header. -/
def markedWrite (lenBits : BitVec 8) : Frame where
  words := (samplePacketFrame 7 0x0a 0x100 0x1000 0x000 32 1).words.modifyHead fun w =>
    { w with data := w.data ||| (lenBits ++ 3#8).setWidth 256 <<< 120 }
  ne := by simp [samplePacketFrame]

/-- Of a length with the bits of the mark the extractor reads the mark that the frame has. -/
theorem isEcnMarked_iff_write :
    let f := markedWrite 3
    let p := { resetParse with rdmaRawPacketOut := [f.beat 0, f.beat 1, f.beat 2] }
    let q := { resetParse with
      ethRawPacketForHandle := [(f.beat 0, macUnicastMatch sampleSettings (f.beat 0).data),
        (f.beat 1, true)] }
    ∃ m peer, ((p.handleBeat.bind (·.handleBeat)).bind (·.handleBeat)).map (·.rdmaPacketMetaOut) =
    some [m] ∧
      ((q.handleBeatStage sampleSettings).bind (·.handleBeatStage sampleSettings)).map
      (·.rdmaMacIpUdpMetaOut) =
        some [peer] ∧
      peer.ipEcn = ipHeaderEcnFlagMarked ∧ m.isEcnMarked := by
  intro f p q
  obtain ⟨m, peer, hm, hpeer, hecn, h⟩ := isEcnMarked_iff sampleSettings (f := f)
    (by decide +kernel) (by decide +kernel) (p := p) (q := q) rfl rfl rfl rfl
  have hmarked : f.ecn = ipHeaderEcnFlagMarked := by decide +kernel
  have hread : f.ecnRead = ipHeaderEcnFlagMarked := by decide +kernel
  exact ⟨m, peer, hm, hpeer, hecn.trans hmarked,
    (h.2 (iff_of_true hread hmarked)).2 (hecn.trans hmarked)⟩

/-- The mark of a write is lost between the classifier and the receive queue. -/
theorem run_loses_mark :
    ∃ w, Run (rqStep sampleCard fun _ => markedWrite 0) (fun _ _ => True)
    ({ packetParser := resetParse }, {})
        (passThrough 4 0 ++ [.sendQpcQueryReqAndSomeSimpleParse]) w ∧
      (markedWrite 0).ecn = ipHeaderEcnFlagMarked ∧
      w.2.parsed.map (fun e => (e.rdmaPacketMeta.isEcnMarked, e.peerMacIpUdpMeta.ipEcn)) =
        [(false, ipHeaderEcnFlagMarked)] :=
  ⟨_, .of_isSome (by decide +kernel), by decide +kernel, by decide +kernel⟩

end OpenRdma.Rtl
