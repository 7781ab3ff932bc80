import OpenRdma.Foundations.Run
import OpenRdma.Rtl.PacketGenerator

/-!
# The network parameters of the card

The command that sets the addresses of the card is answered when it is taken from the queue, and its
parameters are passed on to the receive queues of all ports. They are not passed on to the
generators of frames: these send with the settings that stand for no settings, whatever is
configured.
-/

namespace OpenRdma.Rtl

open List Option

/-! ## The card -/

/-- What gives packets to a generator, through the arbiter of its port. -/
inductive PacketSource
  | sq
  | cnp
  | autoAck
  deriving DecidableEq

/-- A beat that was sent, with the port and the settings that were configured when it was sent. -/
structure SentBeat where
  port : Fin 4
  configured : Option LocalNetworkSettings
  beat : DataStream
  deriving DecidableEq

/-- The parts of the card that know its addresses, the commands that were answered and the beats
that were sent. A classifier has the settings it was given. -/
structure NetworkCard where
  setNetworkParamPipeOutQ : List LocalNetworkSettings
  classifiers : Fin 4 → Option LocalNetworkSettings
  generators : Fin 4 → EthernetPacketGenerator
  answered : List LocalNetworkSettings
  sent : List SentBeat

/-- A command is answered, its parameters are passed on, a packet or a beat of payload comes from a
source, or a rule of a generator fires. -/
inductive NetworkLabel
  | setNetworkParam (settings : LocalNetworkSettings)
  | forwardSetNetworkParamReqPipeOut
  | packet (source : PacketSource) (port : Fin 4) (macIpUdpMeta : ThinMacIpUdpMetaDataForSend)
      (header : BitVec 432)
  | payload (port : Fin 4) (ds : DataStream)
  | generator (port : Fin 4) (rule : PacketGeneratorRule)

namespace NetworkCard

/-- The state after a reset, of registers that held anything. -/
def init (generators : Fin 4 → EthernetPacketGenerator) : NetworkCard where
  setNetworkParamPipeOutQ := []
  classifiers := fun _ => none
  generators := fun port => (generators port).reset
  answered := []
  sent := []

/-- A command, or a rule of the card. -/
def step (undef : LocalNetworkSettings) (s : NetworkCard) : NetworkLabel → Option NetworkCard
  | .setNetworkParam settings =>
    some { s with
      setNetworkParamPipeOutQ := s.setNetworkParamPipeOutQ ++ [settings]
      answered := s.answered ++ [settings] }
  | .forwardSetNetworkParamReqPipeOut =>
    match s.setNetworkParamPipeOutQ with
    | [] => none
    | settings :: q =>
      -- `setLocalNetworkSettings` of `mkQpMrPgtQpc` goes through the receive queues only
      some { s with setNetworkParamPipeOutQ := q, classifiers := fun _ => some settings }
  | .packet source port macIpUdpMeta header =>
    -- acknowledgements leave by the first port
    if source = .autoAck ∧ port ≠ 0 then none
    else
      let g := s.generators port
      some { s with generators := Function.update s.generators port { g with
        macIpUdpMetaPipeInQ := g.macIpUdpMetaPipeInQ ++ [macIpUdpMeta]
        rdmaPacketMetaPipeInQ := g.rdmaPacketMetaPipeInQ ++ [header] } }
  | .payload port ds =>
    let g := s.generators port
    some { s with generators := Function.update s.generators port { g with
      rdmaPayloadPipeInQ := g.rdmaPayloadPipeInQ ++ [ds] } }
  | .generator port rule =>
    ((s.generators port).fire undef rule).map fun (g, beats) =>
      { s with
        generators := Function.update s.generators port g
        sent := s.sent ++ beats.map fun beat => ⟨port, s.answered.getLast?, beat⟩ }

/-- The labels may come in any order. -/
def Possible (_ : NetworkCard) (_ : NetworkLabel) : Prop := True

instance (s : NetworkCard) (l : NetworkLabel) : Decidable (s.Possible l) := .isTrue trivial

/-- Every frame that was sent after a command was answered has the configured addresses as its
source. -/
def SourcesConfigured (s : NetworkCard) : Prop :=
  ∀ e ∈ s.sent, e.beat.isFirst = true → ∀ n ∈ e.configured,
    sourceOf e.beat.data = (n.macAddr, n.ipAddr)

/-- When the commands are passed on, every classifier has the settings of the last one. -/
def ClassifiersConfigured (s : NetworkCard) : Prop :=
  s.setNetworkParamPipeOutQ = [] → ∀ n ∈ s.answered.getLast?, ∀ port, s.classifiers port = some n

def commands (ls : List NetworkLabel) : List LocalNetworkSettings :=
  ls.filterMap fun l => match l with
    | .setNetworkParam settings => some settings
    | _ => none

end NetworkCard

/-! ## What is sent without settings -/

namespace EthernetPacketGenerator

variable {undef : LocalNetworkSettings} {g g' : EthernetPacketGenerator}
variable {ds : DataStream}

/-- The first beat of a frame whose IP header has its own checksum. -/
def CarriesChecksum (ds : DataStream) : Prop :=
  ∃ h : MacIpUdpHeader, h.ipHeader.ipChecksum = 0 ∧
    ds = headerBeat { h with ipHeader := { h.ipHeader with ipChecksum := ipHdrCheckSum h.ipHeader } } 0 0 true false

/-- The generator has no settings, its headers are made without, and the checksums that wait are
theirs. -/
structure Unset (undef : LocalNetworkSettings) (g : EthernetPacketGenerator) : Prop where
  settings : g.networkSettingsReg = none
  headers : ∀ e ∈ g.ipHeaderChecksumCalcPipelineQ,
    e.1.ethHeader.srcMacAddr = undef.macAddr ∧ e.1.ipHeader.srcIpAddr = undef.ipAddr
  checksums : List.Forall₂ (fun checksum e => checksum = ipHdrCheckSum e.1.ipHeader ∧
    e.1.ipHeader.ipChecksum = 0) g.ipHdrCheckSumStream g.ipHeaderChecksumCalcPipelineQ

variable (h : g.Unset undef)
include h

theorem Unset.prepareIpHeader (hs : g.prepareIpHeader undef = some g') : g'.Unset undef := by
  rw [EthernetPacketGenerator.prepareIpHeader] at hs
  split at hs
  · cases hs
  · cases hs
    refine ⟨h.settings, forall_mem_append.2 ⟨h.headers, forall_mem_singleton.2 ?_⟩, ?_⟩
    · rw [h.settings]
      exact ⟨rfl, rfl⟩
    · exact rel_append h.checksums (.cons ⟨rfl, rfl⟩ .nil)

theorem Unset.genFirstBeat (hs : g.genFirstBeat = some (g', ds)) :
    g'.Unset undef ∧ sourceOf ds.data = (undef.macAddr, undef.ipAddr) ∧ CarriesChecksum ds := by
  have hsums := h.checksums
  rw [EthernetPacketGenerator.genFirstBeat] at hs
  split at hs
  · next hstream hq =>
    obtain ⟨-, hs⟩ := ite_none_right_eq_some.1 hs
    cases hs
    obtain ⟨hhead, htail⟩ := forall_mem_cons.1 (hq ▸ h.headers)
    rw [hstream, hq] at hsums
    cases hsums with
    | cons hsum hsums =>
      refine ⟨⟨h.settings, htail, hsums⟩, ?_, _, hsum.2, by rw [← hsum.1]⟩
      rw [sourceOf_headerBeat, hhead.1, hhead.2]
  · cases hs

theorem Unset.laterBeat (hs : g.genSecondBeat = some (g', ds) ∨ g.genThirdBeat = some (g', ds) ∨
    g.genMoreBeat = some (g', ds)) : g'.Unset undef ∧ ds.isFirst = false := by
  obtain hs | hs | hs := hs
  · rw [genSecondBeat] at hs
    split at hs
    · cases hs
    · obtain ⟨-, hs⟩ := ite_none_right_eq_some.1 hs
      cases hs
      exact ⟨⟨h.settings, h.headers, h.checksums⟩, rfl⟩
  · obtain ⟨-, hs⟩ := ite_none_right_eq_some.1 hs
    cases hs
    exact ⟨⟨h.settings, h.headers, h.checksums⟩, rfl⟩
  · rw [genMoreBeat] at hs
    split at hs
    · cases hs
    · obtain ⟨-, hs⟩ := ite_none_right_eq_some.1 hs
      cases hs
      exact ⟨⟨h.settings, h.headers, h.checksums⟩, rfl⟩

theorem Unset.fire {rule : PacketGeneratorRule} {beats : List DataStream}
    (hs : g.fire undef rule = some (g', beats)) : g'.Unset undef ∧ ∀ ds ∈ beats, ds.isFirst = true →
      sourceOf ds.data = (undef.macAddr, undef.ipAddr) ∧ CarriesChecksum ds := by
  -- a beat that is not the first one says nothing
  have hlater : ∀ {ds : DataStream}, g'.Unset undef ∧ ds.isFirst = false → beats = [ds] →
      g'.Unset undef ∧ ∀ ds ∈ beats, ds.isFirst = true →
        sourceOf ds.data = (undef.macAddr, undef.ipAddr) ∧ CarriesChecksum ds := by
    rintro ds ⟨hunset, hfirst⟩ rfl
    exact ⟨hunset, forall_mem_singleton.2 fun htrue => absurd htrue (by rw [hfirst]; decide)⟩
  cases rule with
  | prepareIpHeader =>
    obtain ⟨g₁, hg, heq⟩ := map_eq_some_iff.1 hs
    cases heq
    exact ⟨h.prepareIpHeader hg, fun ds hds => absurd hds not_mem_nil⟩
  | genFirstBeat =>
    obtain ⟨⟨g₁, ds⟩, hg, heq⟩ := map_eq_some_iff.1 hs
    cases heq
    exact ⟨(h.genFirstBeat hg).1, forall_mem_singleton.2 fun _ => (h.genFirstBeat hg).2⟩
  | genSecondBeat =>
    obtain ⟨⟨g₁, ds⟩, hg, heq⟩ := map_eq_some_iff.1 hs
    cases heq
    exact hlater (h.laterBeat (.inl hg)) rfl
  | genThirdBeat =>
    obtain ⟨⟨g₁, ds⟩, hg, heq⟩ := map_eq_some_iff.1 hs
    cases heq
    exact hlater (h.laterBeat (.inr (.inl hg))) rfl
  | genMoreBeat =>
    obtain ⟨⟨g₁, ds⟩, hg, heq⟩ := map_eq_some_iff.1 hs
    cases heq
    exact hlater (h.laterBeat (.inr (.inr hg))) rfl

end EthernetPacketGenerator

namespace NetworkCard

variable {undef : LocalNetworkSettings} {s s' : NetworkCard}
  {generators : Fin 4 → EthernetPacketGenerator} {ls : List NetworkLabel} {l : NetworkLabel}

/-- The generators have no settings, and the classifiers have those of the last command that was
passed on. -/
structure Inv (undef : LocalNetworkSettings) (ls : List NetworkLabel) (s : NetworkCard) : Prop where
  answered : s.answered = commands ls
  unset : ∀ port, (s.generators port).Unset undef
  sent : ∀ e ∈ s.sent, (e.beat.isFirst = true → sourceOf e.beat.data =
    (undef.macAddr, undef.ipAddr) ∧ EthernetPacketGenerator.CarriesChecksum e.beat) ∧
    ∀ n ∈ e.configured, n ∈ s.answered
  passed : ∃ passed, s.answered = passed ++ s.setNetworkParamPipeOutQ ∧
    ∀ port, s.classifiers port = passed.getLast?

theorem inv_init (undef : LocalNetworkSettings) : Inv undef [] (init generators) where
  answered := rfl
  unset := fun _ => ⟨rfl, fun _ he => absurd he not_mem_nil, .nil⟩
  sent := fun _ he => absurd he not_mem_nil
  passed := ⟨[], rfl, fun _ => rfl⟩

theorem commands_append (ls ls' : List NetworkLabel) :
    commands (ls ++ ls') = commands ls ++ commands ls' :=
  filterMap_append

theorem Inv.unset_update {port : Fin 4} {g : EthernetPacketGenerator} (h : Inv undef ls s)
    (hg : g.Unset undef) : ∀ port', (Function.update s.generators port g port').Unset undef := by
  intro port'
  by_cases hp : port' = port
  · rw [hp, Function.update_self]
    exact hg
  · rw [Function.update_of_ne hp]
    exact h.unset port'

theorem Inv.step (h : Inv undef ls s) (hs : s.step undef l = some s') :
    Inv undef (ls ++ [l]) s' := by
  cases l with
  | setNetworkParam settings =>
    cases hs
    obtain ⟨passed, hpassed, hclass⟩ := h.passed
    refine ⟨?_, h.unset, fun e he => ?_, passed, ?_, hclass⟩
    · rw [commands_append, h.answered]
      rfl
    · obtain ⟨hsource, hmem⟩ := h.sent e he
      exact ⟨hsource, fun n hn => mem_append_left _ (hmem n hn)⟩
    · rw [hpassed, append_assoc]
  | forwardSetNetworkParamReqPipeOut =>
    rw [NetworkCard.step] at hs
    split at hs
    · cases hs
    · next settings q hq =>
      cases hs
      obtain ⟨passed, hpassed, -⟩ := h.passed
      refine ⟨?_, h.unset, h.sent, passed ++ [settings], ?_, fun _ => ?_⟩
      · rw [commands_append, h.answered]
        exact (append_nil _).symm
      · rw [hpassed, hq, append_assoc, singleton_append]
      · rw [getLast?_concat]
  | packet source port macIpUdpMeta header =>
    obtain ⟨-, hs⟩ := ite_none_left_eq_some.1 hs
    cases hs
    refine ⟨?_, h.unset_update { h.unset port with }, h.sent, h.passed⟩
    rw [commands_append, h.answered]
    exact (append_nil _).symm
  | payload port ds =>
    cases hs
    refine ⟨?_, h.unset_update { h.unset port with }, h.sent, h.passed⟩
    rw [commands_append, h.answered]
    exact (append_nil _).symm
  | generator port rule =>
    obtain ⟨⟨g, beats⟩, hg, rfl⟩ := map_eq_some_iff.1 hs
    obtain ⟨hunset, hsource⟩ := (h.unset port).fire hg
    refine ⟨?_, h.unset_update hunset, forall_mem_append.2 ⟨h.sent, ?_⟩, h.passed⟩
    · rw [commands_append, h.answered]
      exact (append_nil _).symm
    · rintro e he
      obtain ⟨ds, hds, rfl⟩ := mem_map.1 he
      exact ⟨hsource ds hds, fun n hn => mem_of_getLast? hn⟩

theorem inv_of_run (h : Run (step undef) Possible (init generators) ls s) : Inv undef ls s :=
  h.invariant (I := Inv undef) (inv_init undef) fun _ _ _ _ hI _ hs => hI.step hs

/-- **The first beat of every frame carries the checksum of its own header.** -/
theorem run_carriesChecksum (h : Run (step undef) Possible (init generators) ls s) :
    ∀ e ∈ s.sent, e.beat.isFirst = true → EthernetPacketGenerator.CarriesChecksum e.beat :=
  fun e he hfirst => (((inv_of_run h).sent e he).1 hfirst).2

/-- **The classifiers have the settings of the last command** that was passed on. -/
theorem Inv.classifiersConfigured (h : Inv undef ls s) : s.ClassifiersConfigured := by
  intro hq n hn port
  obtain ⟨passed, hpassed, hclass⟩ := h.passed
  rw [hq, append_nil] at hpassed
  rw [hclass, ← hpassed]
  exact hn

/-! ## A frame after a command -/

/-- A packet for the first port, and the way of its headers to the first beat. -/
def sendOne : List NetworkLabel :=
  [.packet .sq 0 ⟨0, 0, 0, 0, 0, 0, 54, 0x0800⟩ 0, .generator 0 .prepareIpHeader,
    .generator 0 .genFirstBeat]

theorem append_commands (h : Run (step undef) Possible (init generators) ls s)
    (cfgs : List LocalNetworkSettings) :
    Run (step undef) Possible (init generators) (ls ++ cfgs.map .setNetworkParam)
      { s with
        setNetworkParamPipeOutQ := s.setNetworkParamPipeOutQ ++ cfgs
        answered := s.answered ++ cfgs } := by
  induction cfgs using reverseRecOn with
  | nil => simpa using h
  | append_singleton cfgs n ih =>
    rw [map_append, ← append_assoc, ← append_assoc, ← append_assoc]
    exact ih.snoc trivial rfl

theorem commands_map (cfgs : List LocalNetworkSettings) :
    commands (cfgs.map .setNetworkParam) = cfgs := by
  rw [commands, filterMap_map]
  exact filterMap_some

theorem append_sendOne (cfgs : List LocalNetworkSettings)
    (h : Run (step undef) Possible (init generators) ls
      { init generators with setNetworkParamPipeOutQ := cfgs, answered := cfgs }) :
    ∃ s beat, Run (step undef) Possible (init generators) (ls ++ sendOne) s ∧
      s.sent = [⟨0, cfgs.getLast?, beat⟩] ∧ beat.isFirst = true := by
  have h₁ := h.snoc (l := NetworkLabel.packet .sq 0 ⟨0, 0, 0, 0, 0, 0, 54, 0x0800⟩ 0) trivial rfl
  have h₂ := h₁.snoc (l := NetworkLabel.generator 0 .prepareIpHeader) trivial rfl
  have h₃ := h₂.snoc (l := NetworkLabel.generator 0 .genFirstBeat) trivial rfl
  rw [append_assoc, append_assoc] at h₃
  exact ⟨_, _, h₃, rfl, rfl⟩

/-- **A frame has the configured source, and the classifiers have the configured addresses, exactly
if what is configured is what stands for no settings.** -/
theorem configured_iff (undef : LocalNetworkSettings) (generators : Fin 4 → EthernetPacketGenerator)
    (cfgs : List LocalNetworkSettings) :
    (∀ ls s, Run (step undef) Possible (init generators) ls s → commands ls = cfgs →
      s.SourcesConfigured ∧ s.ClassifiersConfigured) ↔
      ∀ n ∈ cfgs, n.macAddr = undef.macAddr ∧ n.ipAddr = undef.ipAddr := by
  constructor
  · intro hall n hn
    obtain ⟨cfgs₁, cfgs₂, rfl⟩ := append_of_mem hn
    -- the command, a frame, and the commands after it
    have hnil : Run (step undef) Possible (init generators) [] (init generators) := .nil
    obtain ⟨s, beat, hrun, hsent, hfirst⟩ := append_sendOne (cfgs₁ ++ [n])
      (append_commands hnil (cfgs₁ ++ [n]))
    have hlast := append_commands hrun cfgs₂
    have hconf := (hall _ _ hlast (by
      have hnone : commands sendOne = [] := rfl
      rw [commands_append, commands_append, nil_append, commands_map, commands_map, hnone,
        append_nil, append_assoc, singleton_append])).1
    have hmem : (⟨0, (cfgs₁ ++ [n]).getLast?, beat⟩ : SentBeat) ∈ s.sent := by
      rw [hsent]
      exact mem_singleton_self _
    have hsource := hconf _ hmem hfirst n (by rw [getLast?_concat]; rfl)
    rw [(((inv_of_run hrun).sent _ hmem).1 hfirst).1] at hsource
    exact ⟨(Prod.mk.inj hsource).1.symm, (Prod.mk.inj hsource).2.symm⟩
  · intro hall ls s hrun hcmds
    have hinv := inv_of_run hrun
    refine ⟨fun e he hfirst n hn => ?_, hinv.classifiersConfigured⟩
    obtain ⟨hsource, hmem⟩ := hinv.sent e he
    have hn' : n ∈ cfgs := hcmds ▸ hinv.answered ▸ hmem n hn
    rw [(hsource hfirst).1, (hall n hn').1, (hall n hn').2]

def sampleSettings : LocalNetworkSettings := ⟨0x0A0B0C0D0E0F, 0xC0A80001⟩

def zeroGenerator : EthernetPacketGenerator :=
  let header : MacIpUdpHeader := ⟨⟨0, 0, 0⟩, ⟨0, 0, 0, 0, 0, 0, 0, 0, 0, 0, 0, 0, 0⟩, ⟨0, 0, 0, 0⟩⟩
  ⟨[], [], [], [], [], header, (header, 0), none, 0, .genFirstBeat⟩

/-- **A card that was told its addresses sends with others**: with zeros for no settings, the frame
has zeros for the MAC and the IP address of its source, while all four classifiers have the
configured ones. -/
theorem run_not_configured :
    ∃ s, Run (step ⟨0, 0⟩) Possible (init fun _ => zeroGenerator)
        ([.setNetworkParam sampleSettings, .forwardSetNetworkParamReqPipeOut] ++ sendOne) s ∧
      s.sent.map (fun e => (e.configured, e.beat.isFirst, sourceOf e.beat.data)) =
        [(some sampleSettings, true, (0, 0))] ∧
      (∀ port, s.classifiers port = some sampleSettings) ∧ ¬ s.SourcesConfigured := by
  refine ⟨_, .of_isSome (by decide +kernel), by decide +kernel, by decide +kernel, fun hconf => ?_⟩
  have := hconf _ (mem_of_head? (eq_some_of_isSome (by decide +kernel))) (by decide +kernel)
    sampleSettings (by decide +kernel)
  exact absurd this (by decide +kernel)

end NetworkCard

end OpenRdma.Rtl
