import OpenRdma.Rtl.RqPipeline

/-!
# Frames through the receive queue

Which frame a packet, the addresses of its sender, its number of beats and its payload come from.
The routed frames are the packets, in order, if each has at least three beats, and the packets with
payload are those with more (`FrameOk`). Then every queue between the arrival of a frame and the
filter of the payload is a window of a stream of the packets (`ClassifierInv`, `ExtractorInv`).
-/

namespace OpenRdma.Rtl

open PacketParse

/-! ## What a frame says -/

namespace Frame

variable (settings : LocalNetworkSettings) (f : Frame)

def entry : EthernetPacketMetaExtractPipelineEntry :=
  firstBeatEntry settings (macUnicastMatch settings (f.beat 0).data) (f.beat 0).data

/-- The classification of the frame. A frame of one beat is an error. -/
def ethMeta : EthernetPacketMeta :=
  if f.len = 1 then ⟨false, true, false⟩ else secondBeatMeta settings (f.entry settings)
    (f.beat 1).data

def macIpUdpMeta : ThinMacIpUdpMetaDataForRecv :=
  secondBeatMacIpUdpMeta (f.entry settings) (f.beat 1).data

/-- The headers in the first two beats. -/
def headers : RdmaRecvPacketMeta := secondBeatPacketMeta (ecnMarked (f.beat 0).data) (f.beat 1).data

def packetMeta : RdmaRecvPacketMeta := thirdBeatPacketMeta f.headers (f.beat 2).data

/-- A beat of the payload: those of the frame from the fourth on. -/
def payloadBeat (j : ℕ) : DataStream := { f.beat (3 + j) with isFirst := j == 0 }

def payload : List DataStream := (List.range (f.len - 3)).map f.payloadBeat

/-- The number of beats of the payload, in eight bits. -/
def tail : BitVec 8 := BitVec.ofNat 8 (f.len - 3)

end Frame

/-! ## The streams -/

section

variable (settings : LocalNetworkSettings) (frames : ℕ → Frame)

def Routed (k : ℕ) : Prop := ((frames k).ethMeta settings).routed = true

instance : DecidablePred (Routed settings frames) := fun k =>
  inferInstanceAs (Decidable (((frames k).ethMeta settings).routed = true))

/-- The `i`-th routed frame. -/
noncomputable def packet (i : ℕ) : Frame := frames (Nat.nth (Routed settings frames) i)

/-- The `i`-th routed frame is a packet with payload. -/
def HasPayload (i : ℕ) : Prop := (packet settings frames i).packetMeta.hasPayload = true

noncomputable instance : DecidablePred (HasPayload settings frames) := fun i =>
  inferInstanceAs (Decidable ((packet settings frames i).packetMeta.hasPayload = true))

/-- The `i`-th packet with payload. -/
noncomputable def payloadPacket (i : ℕ) : Frame :=
  packet settings frames (Nat.nth (HasPayload settings frames) i)

/-- The frame of a beat and its place there. -/
def frameAt (n : ℕ) : ℕ × ℕ := cursor (fun k => (frames k).len) n

/-- The packet of a routed beat and its place there. -/
noncomputable def packetAt (n : ℕ) : ℕ × ℕ := cursor (fun i => (packet settings frames i).len) n

/-- The packet of a beat of payload and its place in the payload. -/
noncomputable def payloadAt (n : ℕ) : ℕ × ℕ :=
  cursor (fun i => (payloadPacket settings frames i).len - 3) n

/-- The `n`-th routed beat. -/
noncomputable def routedBeat (n : ℕ) : DataStream :=
  (packet settings frames (packetAt settings frames n).1).beat (packetAt settings frames n).2

/-- The `n`-th beat of payload. -/
noncomputable def payloadBeatAt (n : ℕ) : DataStream :=
  (payloadPacket settings frames (payloadAt settings frames n).1).payloadBeat
    (payloadAt settings frames n).2

/-- The number of routed beats before a beat. -/
def routedBefore (n : ℕ) : ℕ := selected (fun k => (frames k).len) (Routed settings frames) 0 n

/-- The number of beats of payload before a routed beat. -/
noncomputable def payloadBefore (n : ℕ) : ℕ :=
  selected (fun i => (packet settings frames i).len) (HasPayload settings frames) 3 n

/-- The number of the frames whose first two beats are before a place. -/
def classified (c : ℕ × ℕ) : ℕ := c.1 + if 2 ≤ c.2 then 1 else 0

/-- The number of packets whose first three beats are before a place. -/
def extracted (c : ℕ × ℕ) : ℕ := c.1 + if 3 ≤ c.2 then 1 else 0

end

variable {j : ℕ}

/-- The state of the classifier at a place of a frame. -/
def classifierStateAt : ℕ → InputPacketClassifierState
  | 0 => .handleFirstBeat
  | 1 => .handleSecondBeat
  | _ => .handleMoreBeat

theorem classifierStateAt_first (h : classifierStateAt j = .handleFirstBeat) : j = 0 := by
  rcases j with _ | _ | j
  · rfl
  · cases h
  · cases h

theorem classifierStateAt_second (h : classifierStateAt j = .handleSecondBeat) : j = 1 := by
  rcases j with _ | _ | j
  · cases h
  · rfl
  · cases h

theorem classifierStateAt_more (h : classifierStateAt j = .handleMoreBeat) : 2 ≤ j := by
  rcases j with _ | _ | j
  · cases h
  · cases h
  · omega

/-- The state of the extractor at a place of a frame. -/
def extractorStateAt : ℕ → RdmaMetaAndPayloadExtractorState
  | 0 => .handleFirstBeat
  | 1 => .handleSecondBeat
  | 2 => .handleThirdBeat
  | _ => .handleMoreBeat

theorem extractorStateAt_first (h : extractorStateAt j = .handleFirstBeat) : j = 0 := by
  rcases j with _ | _ | _ | j <;> first | rfl | cases h

theorem extractorStateAt_second (h : extractorStateAt j = .handleSecondBeat) : j = 1 := by
  rcases j with _ | _ | _ | j <;> first | rfl | cases h

theorem extractorStateAt_third (h : extractorStateAt j = .handleThirdBeat) : j = 2 := by
  rcases j with _ | _ | _ | j <;> first | rfl | cases h

theorem extractorStateAt_more (h : extractorStateAt j = .handleMoreBeat) : 3 ≤ j := by
  rcases j with _ | _ | _ | j <;> first | omega | cases h

/-- A frame that is routed has its headers, and its packet has payload exactly if there are more
beats. -/
def FrameOk (settings : LocalNetworkSettings) (f : Frame) : Prop :=
  (f.ethMeta settings).routed → 3 ≤ f.len ∧ (f.packetMeta.hasPayload ↔ 4 ≤ f.len)

instance (settings : LocalNetworkSettings) (f : Frame) : Decidable (FrameOk settings f) :=
  inferInstanceAs (Decidable (_ → _))

/-! ## Places -/

variable {settings : LocalNetworkSettings} {frames : ℕ → Frame} {p p' : PacketParse}

theorem packet_count {k : ℕ} (h : Routed settings frames k) :
    packet settings frames (Nat.count (Routed settings frames) k) = frames k := by
  rw [packet, Nat.nth_count h]

theorem payloadPacket_count {i : ℕ} (h : HasPayload settings frames i) :
    payloadPacket settings frames (Nat.count (HasPayload settings frames) i) =
      packet settings frames i := by
  rw [payloadPacket, Nat.nth_count h]

theorem frameAt_lt (frames : ℕ → Frame) (n : ℕ) :
    (frameAt frames n).2 < (frames (frameAt frames n).1).len :=
  cursor_lt (fun k => (frames k).len_pos) n

theorem packetAt_lt (settings : LocalNetworkSettings) (frames : ℕ → Frame) (n : ℕ) :
    (packetAt settings frames n).2 < (packet settings frames (packetAt settings frames n).1).len :=
  cursor_lt (fun i => (packet settings frames i).len_pos) n

theorem frameAt_succ (frames : ℕ → Frame) (n : ℕ) : frameAt frames (n + 1) =
      if (beatAt frames n).isLast then ((frameAt frames n).1 + 1, 0)
      else ((frameAt frames n).1, (frameAt frames n).2 + 1) := by
  have hlt := frameAt_lt frames n
  split_ifs with h
  · exact cursor_succ_of_le (beq_iff_eq.1 h).ge
  · exact cursor_succ_of_lt (lt_of_le_of_ne hlt fun heq => h (beq_iff_eq.2 heq))

theorem packetAt_succ (settings : LocalNetworkSettings) (frames : ℕ → Frame) (n : ℕ) :
    packetAt settings frames (n + 1) =
      if (routedBeat settings frames n).isLast then ((packetAt settings frames n).1 + 1, 0)
      else ((packetAt settings frames n).1, (packetAt settings frames n).2 + 1) := by
  have hlt := packetAt_lt settings frames n
  split_ifs with h
  · exact cursor_succ_of_le (beq_iff_eq.1 h).ge
  · exact cursor_succ_of_lt (lt_of_le_of_ne hlt fun heq => h (beq_iff_eq.2 heq))

theorem beatAt_eq {n k : ℕ} (hpos : frameAt frames n = (k, j)) :
    beatAt frames n = (frames k).beat j := by
  change (frames (frameAt frames n).1).beat (frameAt frames n).2 = _
  rw [hpos]

section

variable {e i : ℕ} (hpos : packetAt settings frames e = (i, j))
include hpos

theorem routedBeat_eq : routedBeat settings frames e = (packet settings frames i).beat j := by
  rw [routedBeat, hpos]

theorem isLast_routedBeat : (routedBeat settings frames e).isLast ↔ j + 1 =
    (packet settings frames i).len := by
  rw [routedBeat_eq hpos]
  exact beq_iff_eq

theorem packetAt_succ_of_lt (hlt : j + 1 < (packet settings frames i).len) :
    ¬ (routedBeat settings frames e).isLast = true ∧ packetAt settings frames (e + 1) =
    (i, j + 1) := by
  have hl : ¬ (routedBeat settings frames e).isLast = true :=
    fun hl => hlt.ne ((isLast_routedBeat hpos).1 hl)
  have hsucc := packetAt_succ settings frames e
  rw [if_neg hl, hpos] at hsucc
  exact ⟨hl, hsucc⟩

end

theorem packetAt_routedBefore (settings : LocalNetworkSettings) (frames : ℕ → Frame) (n : ℕ) :
    packetAt settings frames (routedBefore settings frames n) =
      (Nat.count (Routed settings frames) (frameAt frames n).1,
        if Routed settings frames (frameAt frames n).1 then (frameAt frames n).2 else 0) :=
  @cursor_selected (fun k => (frames k).len) n (Routed settings frames) _ 0
    fun _ _ _ => (frames _).len_pos

theorem exists_routed {c e : ℕ} (h : e < routedBefore settings frames c) :
    ∃ k, Routed settings frames k ∧
      packet settings frames (packetAt settings frames e).1 = frames k := by
  obtain ⟨n, -, rfl, hr, -⟩ := exists_of_lt_selected h
  replace hr : Routed settings frames (frameAt frames n).1 := hr
  refine ⟨_, hr, ?_⟩
  change packet settings frames (packetAt settings frames (routedBefore settings frames n)).1 = _
  rw [packetAt_routedBefore, packet_count hr]

section

variable (hok : ∀ k, FrameOk settings (frames k))
include hok

theorem packet_ok {c e : ℕ} (h : e < routedBefore settings frames c) :
    3 ≤ (packet settings frames (packetAt settings frames e).1).len ∧
      (HasPayload settings frames (packetAt settings frames e).1 ↔
        4 ≤ (packet settings frames (packetAt settings frames e).1).len) := by
  obtain ⟨k, hk, heq⟩ := exists_routed h
  rw [HasPayload, heq]
  exact hok k hk

theorem payloadAt_payloadBefore {c e : ℕ} (he : e ≤ routedBefore settings frames c) :
    payloadAt settings frames (payloadBefore settings frames e) =
      (Nat.count (HasPayload settings frames) (packetAt settings frames e).1,
        if HasPayload settings frames (packetAt settings frames e).1 then
          (packetAt settings frames e).2 - 3 else 0) :=
  @cursor_selected (fun i => (packet settings frames i).len) e (HasPayload settings frames) _ 3
    fun _ hm hp => (packet_ok hok (hm.trans_le he)).2.1 hp

theorem payloadAt_lt {c e g : ℕ}
    (he : e ≤ routedBefore settings frames c) (hg : g < payloadBefore settings frames e) :
    (payloadAt settings frames g).2 <
      (payloadPacket settings frames (payloadAt settings frames g).1).len - 3 := by
  obtain ⟨n, hn, rfl, hp, hd⟩ := exists_of_lt_selected hg
  replace hp : HasPayload settings frames (packetAt settings frames n).1 := hp
  replace hd : 3 ≤ (packetAt settings frames n).2 := hd
  change (payloadAt settings frames (payloadBefore settings frames n)).2 <
    (payloadPacket settings frames
      (payloadAt settings frames (payloadBefore settings frames n)).1).len - 3
  have hlt := packetAt_lt settings frames n
  rw [payloadAt_payloadBefore hok (hn.le.trans he), if_pos hp, payloadPacket_count hp]
  omega

end

/-! ## The classifier -/

/-- The classifier, where the first `n` beats arrived, `a` were accepted, `b` classified and `c`
routed, and the receive queue has taken the addresses of `parsed` packets. -/
structure ClassifierInv (settings : LocalNetworkSettings) (frames : ℕ → Frame) (p : PacketParse)
    (n a b c parsed : ℕ) : Prop where
  arrived : Window (beatAt frames) a n p.ethRawPacketIn
  accept : 0 < a → p.canAcceptRawInputPacket = true
  handle : Window (fun n => (beatAt frames n, macUnicastMatch settings (beatAt frames n).data)) b a
    p.ethRawPacketForHandle
  route : Window (beatAt frames) c a p.waitingForRoute
  state : p.classifierState = classifierStateAt (frameAt frames b).2
  entry : (frameAt frames b).2 = 1 → p.metaExtract = (frames (frameAt frames b).1).entry settings
  metas : Window (fun k => (frames k).ethMeta settings) (frameAt frames c).1
    (classified (frameAt frames b)) p.ethPacketMeta
  peers : Window (fun i => (packet settings frames i).macIpUdpMeta settings) parsed
    (Nat.count (Routed settings frames) (classified (frameAt frames b))) p.rdmaMacIpUdpMetaOut

namespace ClassifierInv

variable {n a b c parsed : ℕ}

section

variable (h : ClassifierInv settings frames p n a b c parsed)
include h

theorem arrive : ClassifierInv settings frames
      { p with ethRawPacketIn := p.ethRawPacketIn ++ [beatAt frames n] } (n + 1) a b c parsed :=
  ⟨h.arrived.push, h.accept, h.handle, h.route, h.state, h.entry, h.metas, h.peers⟩

theorem accepted (hs : p.discardPacketWhenNetworkSettingsNotReady settings = some p') :
    ClassifierInv settings frames p' n (a + 1) b c parsed := by
  unfold discardPacketWhenNetworkSettingsNotReady at hs
  split at hs
  · cases hs
  · rename_i ds rest hin
    obtain ⟨-, rfl, harrived⟩ := (hin ▸ h.arrived).pop
    have haccept : ((beatAt frames a).isFirst || p.canAcceptRawInputPacket) = true := by
      rcases Nat.eq_zero_or_pos a with rfl | hpos
      · rfl
      · rw [h.accept hpos, Bool.or_true]
    rw [if_pos haccept] at hs
    cases hs
    exact ⟨harrived, fun _ => rfl, h.handle.push, h.route.push, h.state, h.entry, h.metas, h.peers⟩

theorem classify {k : ℕ} (hk : classified (frameAt frames b) = k)
    (hk' : classified (frameAt frames (b + 1)) = k + 1) :
    Window (fun k => (frames k).ethMeta settings) (frameAt frames c).1
        (classified (frameAt frames (b + 1))) (p.ethPacketMeta ++ [(frames k).ethMeta settings]) ∧
      Window (fun i => (packet settings frames i).macIpUdpMeta settings) parsed
        (Nat.count (Routed settings frames) (classified (frameAt frames (b + 1))))
        (p.rdmaMacIpUdpMetaOut ++
          if ((frames k).ethMeta settings).routed then [(frames k).macIpUdpMeta settings]
            else []) := by
  have hmetas := h.metas
  have hpeers := h.peers
  rw [hk] at hmetas hpeers
  rw [hk', Nat.count_succ]
  refine ⟨hmetas.push, ?_⟩
  split_ifs with hr hr' hr'
  · exact hpeers.push_of_eq (by rw [packet_count hr])
  · exact absurd hr hr'
  · exact absurd hr' hr
  · rw [List.append_nil]
    exact hpeers

end

variable (h : ClassifierInv settings frames p n a b c parsed)
include h

section

variable {rest : List (DataStream × Bool)}
  (hhandle : Window (fun n => (beatAt frames n, macUnicastMatch settings (beatAt frames n).data)) (b + 1) a rest)
include hhandle

theorem skip (hsame : classified (frameAt frames (b + 1)) = classified (frameAt frames b))
    (hnot : (frameAt frames (b + 1)).2 ≠ 1) : ClassifierInv settings frames
      { p with
        ethRawPacketForHandle := rest
        classifierState := classifierStateAt (frameAt frames (b + 1)).2 } n a (b + 1) c parsed :=
  ⟨h.arrived, h.accept, hhandle, h.route, rfl, fun h1 => absurd h1 hnot, hsame ▸ h.metas,
    hsame ▸ h.peers⟩

theorem first {k : ℕ} (hpos : frameAt frames b = (k, 0)) : ClassifierInv settings frames
      (PacketParse.handleFirstBeatStage settings (beatAt frames b)
        (macUnicastMatch settings (beatAt frames b).data) { p with ethRawPacketForHandle := rest })
      n a (b + 1) c parsed := by
  have hbeat := beatAt_eq hpos
  have hsucc := frameAt_succ frames b
  unfold PacketParse.handleFirstBeatStage
  split_ifs with hl
  · -- a frame of one beat
    rw [if_pos hl, hpos] at hsucc
    have hlen : (frames k).len = 1 := by
      rw [hbeat] at hl
      exact (beq_iff_eq.1 hl).symm
    have hmeta : (frames k).ethMeta settings = ⟨false, true, false⟩ := if_pos hlen
    obtain ⟨hmetas, hpeers⟩ := h.classify (k := k) (by rw [hpos]; rfl) (by rw [hsucc]; rfl)
    rw [hmeta] at hmetas hpeers
    rw [if_neg (by decide), List.append_nil] at hpeers
    refine ⟨h.arrived, h.accept, hhandle, h.route, ?_, fun h1 => ?_, hmetas, hpeers⟩
    · rw [hsucc]
      exact h.state.trans (by rw [hpos])
    · rw [hsucc] at h1
      cases h1
  · rw [if_neg hl, hpos] at hsucc
    have hsame : classified (frameAt frames (b + 1)) = classified (frameAt frames b) := by
      rw [hsucc, hpos]
      rfl
    refine ⟨h.arrived, h.accept, hhandle, h.route, by rw [hsucc]; rfl, fun _ => ?_, hsame ▸ h.metas,
      hsame ▸ h.peers⟩
    rw [hsucc, hbeat]
    rfl

theorem second {k : ℕ} (hpos : frameAt frames b = (k, 1)) : ClassifierInv settings frames
      (PacketParse.handleSecondBeatStage settings (beatAt frames b)
        { p with ethRawPacketForHandle := rest }) n a (b + 1) c parsed := by
  have hbeat := beatAt_eq hpos
  have hlt := frameAt_lt frames b
  have hsucc := frameAt_succ frames b
  have hentry := h.entry (by rw [hpos])
  rw [hpos] at hsucc hentry hlt
  have hmeta : secondBeatMeta settings p.metaExtract (beatAt frames b).data =
      (frames k).ethMeta settings := by
    rw [hentry, hbeat, Frame.ethMeta, if_neg (by dsimp only at hlt; omega)]
  have hpeer : secondBeatMacIpUdpMeta p.metaExtract (beatAt frames b).data =
      (frames k).macIpUdpMeta settings := by
    rw [hentry, hbeat]
    rfl
  obtain ⟨hmetas, hpeers⟩ := h.classify (k := k) (by rw [hpos]; rfl)
    (by rw [hsucc]; split_ifs <;> rfl)
  rw [← hmeta, ← hpeer] at hpeers
  rw [← hmeta] at hmetas
  refine ⟨h.arrived, h.accept, hhandle, h.route, ?_, fun h1 => ?_, hmetas, hpeers⟩
  · rw [hsucc]
    unfold handleSecondBeatStage
    split_ifs <;> rfl
  · rw [hsucc] at h1
    split_ifs at h1
    cases h1

theorem more (hj : 2 ≤ (frameAt frames b).2) : ClassifierInv settings frames
      (PacketParse.handleMoreBeatStage (beatAt frames b) { p with ethRawPacketForHandle := rest })
      n a (b + 1) c parsed := by
  have hsucc := frameAt_succ frames b
  obtain ⟨j, hj'⟩ := Nat.exists_eq_add_of_le' hj
  have hsame : classified (frameAt frames (b + 1)) = classified (frameAt frames b) := by
    rw [hsucc, classified, classified, if_pos hj]
    by_cases hl : (beatAt frames b).isLast = true
    · rw [if_pos hl, if_neg (by simp)]
    · rw [if_neg hl, if_pos (by dsimp only; omega)]
  have hnot : (frameAt frames (b + 1)).2 ≠ 1 := by
    rw [hsucc]
    split_ifs
    · exact Nat.zero_ne_one
    · omega
  have hskip := h.skip hhandle hsame hnot
  unfold PacketParse.handleMoreBeatStage
  split_ifs with hl
  · rw [hsucc, if_pos hl] at hskip
    exact hskip
  · rw [hsucc, if_neg hl] at hskip
    have hstate : classifierStateAt ((frameAt frames b).2 + 1) = p.classifierState := by
      rw [h.state, hj']
      rfl
    rw [hstate] at hskip
    exact hskip

end

theorem handleBeatStage (hs : p.handleBeatStage settings = some p') :
    ClassifierInv settings frames p' n a (b + 1) c parsed := by
  unfold PacketParse.handleBeatStage at hs
  split at hs
  · cases hs
  · rename_i ds macMatch rest hq
    obtain ⟨-, hds, hhandle⟩ := (hq ▸ h.handle).pop
    cases hds
    cases hs
    split
    · exact h.first hhandle (Prod.ext rfl (classifierStateAt_first (h.state.symm.trans ‹_›)))
    · exact h.second hhandle (Prod.ext rfl (classifierStateAt_second (h.state.symm.trans ‹_›)))
    · exact h.more hhandle (classifierStateAt_more (h.state.symm.trans ‹_›))

theorem dispatchStream {e : ℕ}
    (hraw : Window (routedBeat settings frames) e (routedBefore settings frames c)
      p.rdmaRawPacketOut)
    (hs : p.dispatchStream = some p') : ClassifierInv settings frames p' n a b (c + 1) parsed ∧
      Window (routedBeat settings frames) e (routedBefore settings frames (c + 1))
      p'.rdmaRawPacketOut ∧
      p' = { p with
        waitingForRoute := p'.waitingForRoute
        ethPacketMeta := p'.ethPacketMeta
        otherRawPacketOut := p'.otherRawPacketOut
        rdmaRawPacketOut := p'.rdmaRawPacketOut } := by
  unfold PacketParse.dispatchStream at hs
  split at hs
  · rename_i ds rest ethMeta metas hw hm
    obtain ⟨-, rfl, hroute⟩ := (hw ▸ h.route).pop
    obtain ⟨hlt, rfl, hmetas⟩ := (hm ▸ h.metas).pop
    cases hs
    have hsucc := frameAt_succ frames c
    -- the classification is kept until the last beat of the frame
    have hkeep : Window (fun k => (frames k).ethMeta settings) (frameAt frames (c + 1)).1
        (classified (frameAt frames b)) (if (beatAt frames c).isLast then metas else
          (frames (frameAt frames c).1).ethMeta settings :: metas) := by
      rw [hsucc]
      split_ifs
      · exact hmetas
      · exact hm ▸ h.metas
    have hinv : ∀ o r, ClassifierInv settings frames
        { p with
          waitingForRoute := rest
          ethPacketMeta := if (beatAt frames c).isLast then metas else
            (frames (frameAt frames c).1).ethMeta settings :: metas
          otherRawPacketOut := o
          rdmaRawPacketOut := r } n a b (c + 1) parsed := fun _ _ =>
      ⟨h.arrived, h.accept, h.handle, hroute, h.state, h.entry, hkeep, h.peers⟩
    have hrouted : ((frames (frameAt frames c).1).ethMeta settings).routed =
        ((!((frames (frameAt frames c).1).ethMeta settings).isError &&
          ((frames (frameAt frames c).1).ethMeta settings).isAddrMatch) &&
          ((frames (frameAt frames c).1).ethMeta settings).isRdmaPacket) := by
      rw [EthernetPacketMeta.routed, Bool.and_comm, Bool.and_assoc]
    by_cases hr : Routed settings frames (frameAt frames c).1
    · have hboth := Bool.and_eq_true_iff.1 (hrouted.symm.trans hr)
      rw [if_pos hboth.1, if_pos hboth.2]
      refine ⟨hinv _ _, ?_, rfl⟩
      have hsel : routedBefore settings frames (c + 1) = routedBefore settings frames c + 1 :=
        selected_succ_of_mem hr (Nat.zero_le _)
      rw [hsel]
      refine hraw.push_of_eq ?_
      rw [routedBeat, packetAt_routedBefore, if_pos hr]
      rw [packet_count hr]
      rfl
    · have hsel : routedBefore settings frames (c + 1) = routedBefore settings frames c :=
        selected_succ_of_notMem fun h => hr h.1
      rw [hsel]
      by_cases h₁ : (!((frames (frameAt frames c).1).ethMeta settings).isError &&
          ((frames (frameAt frames c).1).ethMeta settings).isAddrMatch) = true
      · have h₂ : ((frames (frameAt frames c).1).ethMeta settings).isRdmaPacket ≠ true := fun h₂ =>
          hr (hrouted.trans (by rw [h₁, h₂]; rfl))
        rw [if_pos h₁, if_neg h₂]
        exact ⟨hinv _ _, hraw, rfl⟩
      · rw [if_neg h₁]
        exact ⟨hinv _ _, hraw, rfl⟩
  · cases hs

theorem congr (hp : p' = { p with
      rdmaRawPacketOut := p'.rdmaRawPacketOut
      extractorState := p'.extractorState
      firstBeatEcn := p'.firstBeatEcn
      partialRdmaMeta := p'.partialRdmaMeta
      payloadStreamOutputIsFirst := p'.payloadStreamOutputIsFirst
      beatCnt := p'.beatCnt
      rdmaPacketMetaOut := p'.rdmaPacketMetaOut
      rdmaPacketTailMetaOut := p'.rdmaPacketTailMetaOut
      rdmaPayloadOut := p'.rdmaPayloadOut }) :
    ClassifierInv settings frames p' n a b c parsed := by
  rw [hp]
  exact ⟨h.arrived, h.accept, h.handle, h.route, h.state, h.entry, h.metas, h.peers⟩

theorem takePeer {peer : ThinMacIpUdpMetaDataForRecv} {peers : List ThinMacIpUdpMetaDataForRecv}
    (hq : p.rdmaMacIpUdpMetaOut = peer :: peers) :
    peer = (packet settings frames parsed).macIpUdpMeta settings ∧
      (∃ k, Routed settings frames k ∧ Nat.count (Routed settings frames) k = parsed) ∧
      ClassifierInv settings frames { p with rdmaMacIpUdpMetaOut := peers } n
      a b c (parsed + 1) := by
  obtain ⟨hlt, heq, hpeers⟩ := (hq ▸ h.peers).pop
  have hcard : ∀ hf : (Set.ofPred (Routed settings frames)).Finite, parsed < hf.toFinset.card :=
    fun hf => hlt.trans_le (Nat.count_le_card hf _)
  exact ⟨heq, ⟨_, Nat.nth_mem _ hcard, Nat.count_nth hcard⟩, h.arrived, h.accept, h.handle, h.route,
    h.state, h.entry, h.metas, hpeers⟩

end ClassifierInv

/-! ## The extractor -/

/-- The extractor, where `e` routed beats were extracted, and the receive queue has taken the
headers of `parsed` packets, the numbers of beats of the first `third` packets and the first `g`
beats of payload. -/
structure ExtractorInv (settings : LocalNetworkSettings) (frames : ℕ → Frame) (p : PacketParse)
    (e parsed third g : ℕ) : Prop where
  state : p.extractorState = extractorStateAt (packetAt settings frames e).2
  ecn : (packetAt settings frames e).2 = 1 →
    p.firstBeatEcn = ecnMarked ((packet settings frames (packetAt settings frames e).1).beat 0).data
  headers : (packetAt settings frames e).2 = 2 →
    p.partialRdmaMeta = (packet settings frames (packetAt settings frames e).1).headers
  first : p.payloadStreamOutputIsFirst = decide ((packetAt settings frames e).2 ≤ 3)
  beatCnt : p.beatCnt = BitVec.ofNat 8 (max 3 (packetAt settings frames e).2 - 2)
  metas : Window (fun i => (packet settings frames i).packetMeta) parsed
    (extracted (packetAt settings frames e)) p.rdmaPacketMetaOut
  tails : Window (fun i => (payloadPacket settings frames i).tail)
    (Nat.count (HasPayload settings frames) third)
    (Nat.count (HasPayload settings frames) (packetAt settings frames e).1) p.rdmaPacketTailMetaOut
  payload : Window (payloadBeatAt settings frames) g (payloadBefore settings frames e)
    p.rdmaPayloadOut

namespace ExtractorInv

variable {c e parsed third g : ℕ} {rest : List DataStream}

section

variable (h : ExtractorInv settings frames p e parsed third g)
include h

theorem header {i j : ℕ} (hpos : packetAt settings frames e = (i, j)) (hj : j ≤ 1)
    (hsucc : packetAt settings frames (e + 1) = (i, j + 1)) (hp : p' = { p with
      rdmaRawPacketOut := p'.rdmaRawPacketOut
      extractorState := extractorStateAt (j + 1)
      firstBeatEcn := p'.firstBeatEcn
      partialRdmaMeta := p'.partialRdmaMeta })
    (hecn : j + 1 = 1 → p'.firstBeatEcn = ecnMarked ((packet settings frames i).beat 0).data)
    (hheaders : j + 1 = 2 → p'.partialRdmaMeta = (packet settings frames i).headers) :
    ExtractorInv settings frames p' (e + 1) parsed third g := by
  have hpay : payloadBefore settings frames (e + 1) = payloadBefore settings frames e :=
    selected_succ_of_notMem fun hmem => by
      have := hmem.2
      change 3 ≤ (packetAt settings frames e).2 at this
      rw [hpos] at this
      omega
  have hmetas := h.metas
  have htails := h.tails
  have hfirst := h.first
  have hcnt := h.beatCnt
  rw [hpos] at hmetas htails hfirst hcnt
  rw [extracted, if_neg (by dsimp only; omega)] at hmetas
  rw [decide_eq_true (by dsimp only; omega)] at hfirst
  rw [max_eq_left (by dsimp only; omega)] at hcnt
  refine ⟨?_, ?_, ?_, ?_, ?_, ?_, ?_, by rw [hpay, hp]; exact h.payload⟩ <;> rw [hsucc]
  · rw [hp]
  · exact hecn
  · exact hheaders
  · rw [hp, decide_eq_true (by dsimp only; omega)]
    exact hfirst
  · rw [hp, max_eq_left (by dsimp only; omega)]
    exact hcnt
  · rw [hp, extracted, if_neg (by dsimp only; omega)]
    exact hmetas
  · rw [hp]
    exact htails

theorem firstBeat {i : ℕ} (hpos : packetAt settings frames e = (i, 0))
    (hlen : 3 ≤ (packet settings frames i).len) : ExtractorInv settings frames
      (PacketParse.handleFirstBeat (routedBeat settings frames e) { p with
        rdmaRawPacketOut := rest })
      (e + 1) parsed third g := by
  obtain ⟨hl, hsucc⟩ := packetAt_succ_of_lt hpos (by omega)
  unfold PacketParse.handleFirstBeat
  rw [if_neg hl]
  exact h.header hpos (by omega) hsucc rfl (fun _ => by rw [routedBeat_eq hpos]) nofun

theorem secondBeat {i : ℕ} (hpos : packetAt settings frames e = (i, 1))
    (hlen : 3 ≤ (packet settings frames i).len) : ExtractorInv settings frames
      (PacketParse.handleSecondBeat (routedBeat settings frames e) { p with
        rdmaRawPacketOut := rest })
      (e + 1) parsed third g := by
  obtain ⟨hl, hsucc⟩ := packetAt_succ_of_lt hpos (by omega)
  have hecn := h.ecn (by rw [hpos])
  rw [hpos] at hecn
  unfold handleSecondBeat
  rw [if_neg hl]
  refine h.header hpos le_rfl hsucc rfl nofun fun _ => ?_
  rw [hecn, routedBeat_eq hpos]
  rfl

theorem thirdBeat {i : ℕ} (hpos : packetAt settings frames e = (i, 2))
    (hpay : HasPayload settings frames i ↔ 4 ≤ (packet settings frames i).len) :
    ExtractorInv settings frames
      (PacketParse.handleThirdBeat (routedBeat settings frames e) { p with
        rdmaRawPacketOut := rest })
      (e + 1) parsed third g := by
  have hsucc := packetAt_succ settings frames e
  rw [hpos] at hsucc
  have hsame : payloadBefore settings frames (e + 1) = payloadBefore settings frames e :=
    selected_succ_of_notMem fun hmem => by
      have := hmem.2
      change 3 ≤ (packetAt settings frames e).2 at this
      rw [hpos] at this
      omega
  have hheaders := h.headers (by rw [hpos])
  have hmetas := h.metas
  have htails := h.tails
  have hfirst := h.first
  have hcnt := h.beatCnt
  rw [hpos] at hheaders hmetas htails hfirst hcnt
  have hpush := hmetas.push_of_eq
    (x := thirdBeatPacketMeta p.partialRdmaMeta (routedBeat settings frames e).data)
    (by rw [hheaders, routedBeat_eq hpos]; rfl)
  have hpayload : Window (payloadBeatAt settings frames) g (payloadBefore settings frames (e + 1))
      p.rdmaPayloadOut := hsame ▸ h.payload
  unfold handleThirdBeat
  by_cases hl : (routedBeat settings frames e).isLast = true
  · -- a packet without payload
    rw [if_pos hl] at hsucc
    have hlen := (isLast_routedBeat hpos).1 hl
    have hcount : Nat.count (HasPayload settings frames) (i + 1) =
        Nat.count (HasPayload settings frames) i := by
      rw [Nat.count_succ, if_neg (fun hp => by have := hpay.1 hp; omega), Nat.add_zero]
    refine ⟨?_, ?_, ?_, ?_, ?_, ?_, ?_, hpayload⟩ <;> rw [hsucc]
    · rw [if_pos hl]
      rfl
    · nofun
    · nofun
    · exact hfirst
    · exact hcnt
    · exact hpush
    · rw [hcount]
      exact htails
  · rw [if_neg hl] at hsucc
    refine ⟨?_, ?_, ?_, ?_, ?_, ?_, ?_, hpayload⟩ <;> rw [hsucc]
    · rw [if_neg hl]
      rfl
    · nofun
    · nofun
    · exact hfirst
    · exact hcnt
    · exact hpush
    · exact htails

end

theorem moreBeat (hok : ∀ k, FrameOk settings (frames k))
    (h : ExtractorInv settings frames p e parsed third g) (he : e < routedBefore settings frames c)
    {i j : ℕ} (hpos : packetAt settings frames e = (i, j)) (hj : 3 ≤ j) :
    ExtractorInv settings frames
      (PacketParse.handleMoreBeat (routedBeat settings frames e) { p with
        rdmaRawPacketOut := rest })
      (e + 1) parsed third g := by
  have hlt := packetAt_lt settings frames e
  have hpay := (packet_ok hok he).2
  have hsucc := packetAt_succ settings frames e
  have hat := payloadAt_payloadBefore hok he.le
  rw [hpos] at hlt hpay hsucc hat
  dsimp only at hlt
  have hp : HasPayload settings frames i := hpay.2 (by dsimp only; omega)
  have hsel : payloadBefore settings frames (e + 1) = payloadBefore settings frames e + 1 :=
    selected_succ_of_mem (by
      change HasPayload settings frames (packetAt settings frames e).1
      rw [hpos]
      exact hp) (by
      change 3 ≤ (packetAt settings frames e).2
      rw [hpos]
      exact hj)
  have hmetas := h.metas
  have htails := h.tails
  have hfirst := h.first
  have hcnt := h.beatCnt
  rw [hpos] at hmetas htails hfirst hcnt
  rw [extracted, if_pos hj] at hmetas
  rw [max_eq_right hj] at hcnt
  have hpush := h.payload.push_of_eq
    (x := { routedBeat settings frames e with isFirst := p.payloadStreamOutputIsFirst }) (by
      rw [payloadBeatAt, hat, if_pos hp]
      dsimp only
      rw [payloadPacket_count hp, Frame.payloadBeat, routedBeat_eq hpos, hfirst,
        show 3 + (j - 3) = j by omega]
      congr 1
      rw [Bool.eq_iff_iff, decide_eq_true_eq, beq_iff_eq]
      omega)
  rw [← hsel] at hpush
  unfold PacketParse.handleMoreBeat
  split_ifs with hl
  · rw [if_pos hl] at hsucc
    have hlen := (isLast_routedBeat hpos).1 hl
    refine ⟨?_, ?_, ?_, ?_, ?_, ?_, ?_, hpush⟩ <;> rw [hsucc]
    · rfl
    · nofun
    · nofun
    · rfl
    · rfl
    · exact hmetas
    · rw [Nat.count_succ, if_pos hp]
      refine htails.push_of_eq ?_
      rw [hcnt, payloadPacket_count hp, Frame.tail, ← hlen]
      rw [show j + 1 - 3 = j - 2 by omega]
  · rw [if_neg hl] at hsucc
    refine ⟨?_, ?_, ?_, ?_, ?_, ?_, ?_, hpush⟩ <;> rw [hsucc]
    · have := h.state
      rw [hpos] at this
      obtain ⟨j₀, rfl⟩ := Nat.exists_eq_add_of_le' hj
      exact this
    · omega
    · omega
    · rw [decide_eq_false (by dsimp only; omega)]
    · rw [hcnt, max_eq_right (by omega), show j + 1 - 2 = j - 2 + 1 by omega, BitVec.ofNat_add]
      rfl
    · rw [extracted, if_pos (by dsimp only; omega)]
      exact hmetas
    · exact htails

theorem handleBeat (hok : ∀ k, FrameOk settings (frames k))
    (h : ExtractorInv settings frames p e parsed third g)
    (hraw : Window (routedBeat settings frames) e (routedBefore settings frames c)
      p.rdmaRawPacketOut)
    (hs : p.handleBeat = some p') : ExtractorInv settings frames p' (e + 1) parsed third g ∧
      Window (routedBeat settings frames) (e + 1) (routedBefore settings frames c)
        p'.rdmaRawPacketOut := by
  unfold PacketParse.handleBeat at hs
  split at hs
  · cases hs
  · rename_i ds rest hq
    obtain ⟨he, rfl, hrest⟩ := (hq ▸ hraw).pop
    cases hs
    obtain ⟨hlen, hpay⟩ := packet_ok hok he
    split
    · refine ⟨h.firstBeat (Prod.ext rfl (extractorStateAt_first (h.state.symm.trans ‹_›))) hlen, ?_⟩
      unfold PacketParse.handleFirstBeat
      split_ifs <;> exact hrest
    · exact ⟨h.secondBeat (Prod.ext rfl (extractorStateAt_second (h.state.symm.trans ‹_›))) hlen,
        hrest⟩
    · exact ⟨h.thirdBeat (Prod.ext rfl (extractorStateAt_third (h.state.symm.trans ‹_›))) hpay,
        hrest⟩
    · refine ⟨h.moreBeat hok he rfl (extractorStateAt_more (h.state.symm.trans ‹_›)), ?_⟩
      unfold PacketParse.handleMoreBeat
      split_ifs <;> exact hrest

variable (h : ExtractorInv settings frames p e parsed third g)
include h

theorem congr (hp : p' = { p with
      classifierState := p'.classifierState
      canAcceptRawInputPacket := p'.canAcceptRawInputPacket
      metaExtract := p'.metaExtract
      ethRawPacketIn := p'.ethRawPacketIn
      ethRawPacketForHandle := p'.ethRawPacketForHandle
      waitingForRoute := p'.waitingForRoute
      ethPacketMeta := p'.ethPacketMeta
      otherRawPacketOut := p'.otherRawPacketOut
      rdmaRawPacketOut := p'.rdmaRawPacketOut
      rdmaMacIpUdpMetaOut := p'.rdmaMacIpUdpMetaOut }) :
    ExtractorInv settings frames p' e parsed third g := by
  rw [hp]
  exact ⟨h.state, h.ecn, h.headers, h.first, h.beatCnt, h.metas, h.tails, h.payload⟩

theorem takeMeta {m : RdmaRecvPacketMeta}
    {metas : List RdmaRecvPacketMeta} (hq : p.rdmaPacketMetaOut = m :: metas) :
    m = (packet settings frames parsed).packetMeta ∧
      ExtractorInv settings frames { p with rdmaPacketMetaOut := metas } e (parsed + 1)
      third g := by
  obtain ⟨-, heq, hmetas⟩ := (hq ▸ h.metas).pop
  exact ⟨heq, h.state, h.ecn, h.headers, h.first, h.beatCnt, hmetas, h.tails, h.payload⟩

theorem takeTail {t : BitVec 8} {tails : List (BitVec 8)} (hpay : HasPayload settings frames third)
    (hq : p.rdmaPacketTailMetaOut = t :: tails) : t = (packet settings frames third).tail ∧
      ExtractorInv settings frames { p with rdmaPacketTailMetaOut := tails } e
      parsed (third + 1) g := by
  obtain ⟨-, heq, htails⟩ := (hq ▸ h.tails).pop
  rw [payloadPacket_count hpay] at heq
  refine ⟨heq, h.state, h.ecn, h.headers, h.first, h.beatCnt, h.metas, ?_, h.payload⟩
  rw [Nat.count_succ, if_pos hpay]
  exact htails

theorem skipTail (hpay : ¬ HasPayload settings frames third) :
    ExtractorInv settings frames p e parsed (third + 1) g := by
  refine ⟨h.state, h.ecn, h.headers, h.first, h.beatCnt, h.metas, ?_, h.payload⟩
  rw [Nat.count_succ, if_neg hpay]
  exact h.tails

theorem takeBeat {ds : DataStream} {beats : List DataStream} (hq : p.rdmaPayloadOut = ds :: beats) :
    g < payloadBefore settings frames e ∧ ds = payloadBeatAt settings frames g ∧
      ExtractorInv settings frames { p with rdmaPayloadOut := beats } e parsed third (g + 1) := by
  obtain ⟨hlt, heq, hbeats⟩ := (hq ▸ h.payload).pop
  exact ⟨hlt, heq, h.state, h.ecn, h.headers, h.first, h.beatCnt, h.metas, h.tails, hbeats⟩

end ExtractorInv

/-! ## The parser -/

/-- The classifier and the extractor, where `arrived` beats arrived, and the receive queue has taken
the headers and addresses of `parsed` packets, the numbers of beats of the first `third` packets and
the first `g` beats of payload. -/
structure ParserInv (settings : LocalNetworkSettings) (frames : ℕ → Frame) (p : PacketParse)
    (arrived parsed third g : ℕ) (c e : ℕ) : Prop where
  classifier : ∃ a b, ClassifierInv settings frames p arrived a b c parsed
  raw : Window (routedBeat settings frames) e (routedBefore settings frames c) p.rdmaRawPacketOut
  extractor : ExtractorInv settings frames p e parsed third g

namespace ParserInv

variable {arrived parsed third g c e : ℕ}

theorem init (hp : p.Initial) : ParserInv settings frames p 0 0 0 0 0 0 := by
  refine ⟨⟨0, 0, ?_⟩, .of_nil hp.rdmaRawPacketOut, ?_⟩
  · exact ⟨.of_nil hp.ethRawPacketIn, fun h => absurd h (lt_irrefl 0),
      .of_nil hp.ethRawPacketForHandle, .of_nil hp.waitingForRoute, hp.classifierState, nofun,
      .of_nil hp.ethPacketMeta, .of_nil hp.rdmaMacIpUdpMetaOut⟩
  · exact ⟨hp.extractorState, nofun, nofun, hp.payloadStreamOutputIsFirst, hp.beatCnt,
      .of_nil hp.rdmaPacketMetaOut, .of_nil hp.rdmaPacketTailMetaOut, .of_nil hp.rdmaPayloadOut⟩

section

variable (h : ParserInv settings frames p arrived parsed third g c e)
include h

theorem arrive :
    ParserInv settings frames { p with ethRawPacketIn := p.ethRawPacketIn ++
      [beatAt frames arrived] } (arrived + 1) parsed third g c e :=
  let ⟨a, b, hc⟩ := h.classifier
  ⟨⟨a, b, hc.arrive⟩, h.raw, h.extractor.congr rfl⟩

theorem accepted (hs : p.discardPacketWhenNetworkSettingsNotReady settings = some p') :
    ParserInv settings frames p' arrived parsed third g c e := by
  obtain ⟨a, b, hc⟩ := h.classifier
  obtain ⟨hraw, hext⟩ : p'.rdmaRawPacketOut = p.rdmaRawPacketOut ∧
      ExtractorInv settings frames p' e parsed third g := by
    unfold discardPacketWhenNetworkSettingsNotReady at hs
    split at hs
    · cases hs
    · split_ifs at hs <;> obtain rfl := Option.some.inj hs <;>
        exact ⟨rfl, h.extractor.congr rfl⟩
  exact ⟨⟨a + 1, b, hc.accepted hs⟩, hraw ▸ h.raw, hext⟩

theorem handleBeatStage (hs : p.handleBeatStage settings = some p') :
    ParserInv settings frames p' arrived parsed third g c e := by
  obtain ⟨a, b, hc⟩ := h.classifier
  obtain ⟨hraw, hext⟩ : p'.rdmaRawPacketOut = p.rdmaRawPacketOut ∧
      ExtractorInv settings frames p' e parsed third g := by
    unfold PacketParse.handleBeatStage at hs
    split at hs
    · cases hs
    · cases hs
      split
      · unfold PacketParse.handleFirstBeatStage
        split_ifs <;> exact ⟨rfl, h.extractor.congr rfl⟩
      · exact ⟨rfl, h.extractor.congr rfl⟩
      · unfold PacketParse.handleMoreBeatStage
        split_ifs <;> exact ⟨rfl, h.extractor.congr rfl⟩
  exact ⟨⟨a, b + 1, hc.handleBeatStage hs⟩, hraw ▸ h.raw, hext⟩

theorem dispatchStream (hs : p.dispatchStream = some p') :
    ParserInv settings frames p' arrived parsed third g (c + 1) e := by
  obtain ⟨a, b, hc⟩ := h.classifier
  obtain ⟨hc', hraw, hp'⟩ := hc.dispatchStream h.raw hs
  exact ⟨⟨a, b, hc'⟩, hraw, h.extractor.congr (by rw [hp'])⟩

end

theorem handleBeat (hok : ∀ k, FrameOk settings (frames k))
    (h : ParserInv settings frames p arrived parsed third g c e) (hs : p.handleBeat = some p') :
    ParserInv settings frames p' arrived parsed third g c (e + 1) := by
  obtain ⟨a, b, hc⟩ := h.classifier
  obtain ⟨hext, hraw⟩ := h.extractor.handleBeat hok h.raw hs
  refine ⟨⟨a, b, hc.congr ?_⟩, hraw, hext⟩
  unfold PacketParse.handleBeat at hs
  split at hs
  · cases hs
  · cases hs
    split
    · unfold PacketParse.handleFirstBeat
      split_ifs <;> rfl
    · rfl
    · rfl
    · unfold PacketParse.handleMoreBeat
      split_ifs <;> rfl

section

variable (h : ParserInv settings frames p arrived parsed third g c e)
include h

theorem takePacket {m : RdmaRecvPacketMeta} {metas : List RdmaRecvPacketMeta}
    {peer : ThinMacIpUdpMetaDataForRecv} {peers : List ThinMacIpUdpMetaDataForRecv}
    (hm : p.rdmaPacketMetaOut = m :: metas) (hpeer : p.rdmaMacIpUdpMetaOut = peer :: peers) :
    m = (packet settings frames parsed).packetMeta ∧
      peer = (packet settings frames parsed).macIpUdpMeta settings ∧
      (∃ k, Routed settings frames k ∧ Nat.count (Routed settings frames) k = parsed) ∧
      ParserInv settings frames { p with rdmaPacketMetaOut := metas, rdmaMacIpUdpMetaOut := peers }
        arrived (parsed + 1) third g c e := by
  obtain ⟨a, b, hc⟩ := h.classifier
  obtain ⟨hpeer', hr, hc'⟩ := hc.takePeer hpeer
  obtain ⟨hm', hext⟩ := h.extractor.takeMeta hm
  exact ⟨hm', hpeer', hr, ⟨a, b, hc'.congr rfl⟩, h.raw, hext.congr rfl⟩

theorem takeTail {t : BitVec 8} {tails : List (BitVec 8)} (hpay : HasPayload settings frames third)
    (hq : p.rdmaPacketTailMetaOut = t :: tails) : t = (packet settings frames third).tail ∧
      ParserInv settings frames { p with rdmaPacketTailMetaOut := tails } arrived parsed
      (third + 1) g c
        e := by
  obtain ⟨a, b, hc⟩ := h.classifier
  obtain ⟨ht, hext⟩ := h.extractor.takeTail hpay hq
  exact ⟨ht, ⟨a, b, hc.congr rfl⟩, h.raw, hext⟩

theorem skipTail (hpay : ¬ HasPayload settings frames third) :
    ParserInv settings frames p arrived parsed (third + 1) g c e :=
  ⟨h.classifier, h.raw, h.extractor.skipTail hpay⟩

end

theorem takeBeat (hok : ∀ k, FrameOk settings (frames k))
    (h : ParserInv settings frames p arrived parsed third g c e) {ds : DataStream}
    {beats : List DataStream} (hq : p.rdmaPayloadOut = ds :: beats) {i j : ℕ}
    (hat : payloadAt settings frames g = (i, j)) :
    ds = (payloadPacket settings frames i).payloadBeat j ∧
      payloadAt settings frames (g + 1) = (if ds.isLast then (i + 1, 0) else (i, j + 1)) ∧
      (ds.isLast ↔ j + 1 = (payloadPacket settings frames i).len - 3) ∧
      ParserInv settings frames { p with rdmaPayloadOut := beats } arrived parsed third
      (g + 1) c e := by
  obtain ⟨a, b, hc⟩ := h.classifier
  obtain ⟨hlt, hds, hext⟩ := h.extractor.takeBeat hq
  have hj := payloadAt_lt hok h.raw.le hlt
  rw [payloadBeatAt, hat] at hds
  rw [hat] at hj
  have hlast : ds.isLast ↔ j + 1 = (payloadPacket settings frames i).len - 3 := by
    rw [hds]
    change (3 + j + 1 == (payloadPacket settings frames i).len) = true ↔ _
    rw [beq_iff_eq]
    omega
  have hsucc : payloadAt settings frames (g + 1) =
    (if ds.isLast then (i + 1, 0) else (i, j + 1)) := by
    have hcur : cursor (fun i => (payloadPacket settings frames i).len - 3) g = (i, j) := hat
    split_ifs with hl
    · have := @cursor_succ_of_le (fun i => (payloadPacket settings frames i).len - 3) g
        (by rw [hcur]; exact (hlast.1 hl).ge)
      rw [hcur] at this
      exact this
    · have := @cursor_succ_of_lt (fun i => (payloadPacket settings frames i).len - 3) g
        (by rw [hcur]; exact lt_of_le_of_ne hj fun heq => hl (hlast.2 heq))
      rw [hcur] at this
      exact this
  exact ⟨hds, hsucc, hlast, ⟨a, b, hc.congr rfl⟩, h.raw, hext⟩

end ParserInv

end OpenRdma.Rtl
