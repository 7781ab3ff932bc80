import OpenRdma.Driver.Ctx
import OpenRdma.Rtl.RqChecks

/-!
# The queue pairs of the driver and the contexts of the card

The driver sends a command when it creates or modifies a queue pair. The card writes the context it
describes to its table, and a packet to the queue pair passes the first check of the receive queue
if the table has a context with its key. No command is sent when a queue pair is destroyed, and a
queue pair that does not exist can be modified, so the table has contexts of queue pairs that do not
exist.
-/

namespace OpenRdma.Link

open BitVec Driver Function Option Rtl

/-! ## The command -/

/-- `CmdQueueReqDescQpManagement`, without the type of the queue pair, which nothing reads. -/
structure CmdQueueReqDescQpManagement where
  peerMacAddr : BitVec 48
  localUdpPort : BitVec 16
  pmtu : BitVec 3
  rqAccessFlags : BitVec 8
  peerQPN : BitVec 24
  qpn : BitVec 24
  isError : Bool
  isValid : Bool
  peerIpAddr : BitVec 32
  deriving DecidableEq

/-- The descriptor `CommandConfigurator::update_qp` pushes. Each field is cut to its width. -/
def manageQp (entry : UpdateQp) : CmdQueueReqDescQpManagement where
  peerMacAddr := .ofNat _ entry.peerMacAddr
  localUdpPort := .ofNat _ entry.localUdpPort
  pmtu := .ofNat _ entry.pmtu
  rqAccessFlags := .ofNat _ entry.rqAccessFlags
  peerQPN := .ofNat _ entry.peerQpn
  qpn := .ofNat _ entry.qpn
  isError := false
  isValid := true
  peerIpAddr := .ofNat _ entry.ipAddr

structure WriteReqQPC where
  qpn : BitVec 24
  ent : Option EntryQPC
  deriving DecidableEq

/-- `dispatchRingbufRequestDescriptors` for a command about a queue pair: the context to write, and
the queue pair whose receive window is reset. -/
def dispatchQpManagement (desc : CmdQueueReqDescQpManagement) : WriteReqQPC × BitVec 10 :=
  let ent := {
    peerQPN := desc.peerQPN
    qpnKeyPart := getKeyQP desc.qpn
    rqAccessFlags := desc.rqAccessFlags
    pmtu := desc.pmtu
    peerMacAddr := desc.peerMacAddr
    peerIpAddr := desc.peerIpAddr
    localUdpPort := desc.localUdpPort }
  (⟨desc.qpn, if desc.isValid then some ent else none⟩, getIndexQP desc.qpn)

def handleWriteReq (qpc : BitVec 10 → Option EntryQPC) (req : WriteReqQPC) :
    BitVec 10 → Option EntryQPC :=
  update qpc (getIndexQP req.qpn) req.ent

/-- The table after the command of an entry. -/
def execUpdateQp (qpc : BitVec 10 → Option EntryQPC) (entry : UpdateQp) :
    BitVec 10 → Option EntryQPC :=
  handleWriteReq qpc (dispatchQpManagement (manageQp entry)).1

theorem getIndexQP_ofNat (qpn : ℕ) : getIndexQP (.ofNat 24 qpn) =
    BitVec.ofNat 10 (indexOfQpn qpn) := by
  rw [← toNat_inj, getIndexQP, getQpnRawIndexPart, toNat_setWidth,
    extractLsb'_toNat, toNat_ofNat, toNat_ofNat, indexOfQpn, qpnKeyPartWidth]
  omega

theorem getKeyQP_ofNat (qpn : ℕ) : getKeyQP (.ofNat 24 qpn) = BitVec.ofNat 8 qpn := by
  rw [← toNat_inj, getKeyQP, toNat_setWidth, toNat_ofNat, toNat_ofNat]
  omega

theorem execUpdateQp_key {qpc : BitVec 10 → Option EntryQPC} {entry : UpdateQp}
    (h : indexOfQpn entry.qpn < maxQpCnt) (i : BitVec 10) :
    (execUpdateQp qpc entry i).map (·.qpnKeyPart) =
      if i.toNat = indexOfQpn entry.qpn then some (BitVec.ofNat 8 entry.qpn)
      else (qpc i).map (·.qpnKeyPart) := by
  have hindex : i = BitVec.ofNat 10 (indexOfQpn entry.qpn) ↔ i.toNat = indexOfQpn entry.qpn := by
    rw [← toNat_inj, toNat_ofNat, Nat.mod_eq_of_lt (show _ < 2 ^ 10 from h)]
  have hat : getIndexQP (dispatchQpManagement (manageQp entry)).1.qpn =
      BitVec.ofNat 10 (indexOfQpn entry.qpn) := getIndexQP_ofNat entry.qpn
  rw [execUpdateQp, handleWriteReq, hat, update_apply]
  by_cases hi : i.toNat = indexOfQpn entry.qpn
  · rw [if_pos (hindex.2 hi), if_pos hi]
    exact congrArg some (getKeyQP_ofNat entry.qpn)
  · rw [if_neg (hi ∘ hindex.1), if_neg hi]

/-! ## Calls -/

/-- The calls that create, modify and destroy queue pairs, with what they depend on: the random key
of a new queue pair, and the outcome of opening a channel to the peer. -/
inductive QpCall
  | createQp (attr : IbvQpInitAttr) (key : BitVec 8)
  | updateQp (qpn : ℕ) (attr : IbvQpAttr) (connected : Except RdmaError Unit)
  | destroyQp (qpn : ℕ)

/-- The driver and the card, with the keys of the queue pairs that exist: those created and not
destroyed since, by their indices. -/
structure QpWorld where
  ctx : HwDeviceCtx
  qpc : BitVec 10 → Option EntryQPC
  live : ℕ → Option (BitVec 8)

namespace QpWorld

/-- No queue pair was created. -/
def initial : QpWorld := ⟨{}, fun _ => none, fun _ => none⟩

/-- A queue pair exists. -/
def Live (w : QpWorld) (qpn : ℕ) : Prop := w.live (indexOfQpn qpn) = some (BitVec.ofNat 8 qpn)

instance (w : QpWorld) (qpn : ℕ) : Decidable (w.Live qpn) :=
  inferInstanceAs (Decidable (_ = _))

/-- The queue pairs that exist after `create_qp` returned. -/
def createdBy (live : ℕ → Option (BitVec 8)) : Except RdmaError ℕ → ℕ → Option (BitVec 8)
  | .ok qpn => update live (indexOfQpn qpn) (some (BitVec.ofNat 8 qpn))
  | .error _ => live

/-- The queue pairs that exist after `destroy_qp` returned. -/
def destroyedBy (live : ℕ → Option (BitVec 8)) (qpn : ℕ) :
    Except RdmaError Unit → ℕ → Option (BitVec 8)
  | .ok _ => update live (indexOfQpn qpn) none
  | .error _ => live

/-- A call of the driver, whose commands the card executes. -/
def step (w : QpWorld) : QpCall → Option QpWorld
  | .createQp attr key =>
    let (result, ctx, out) := w.ctx.createQp attr key.toNat
    some ⟨ctx, out.commands.foldl execUpdateQp w.qpc, createdBy w.live result⟩
  | .updateQp qpn attr connected =>
    (w.ctx.updateQp qpn attr connected).map fun (_, ctx, out) =>
      ⟨ctx, out.commands.foldl execUpdateQp w.qpc, w.live⟩
  | .destroyQp qpn =>
    (w.ctx.destroyQp qpn).map fun (result, ctx, out) =>
      ⟨ctx, out.commands.foldl execUpdateQp w.qpc, destroyedBy w.live qpn result⟩

/-- The table of the card has a context with a key exactly if a queue pair of that index and key
exists. -/
def Exact (w : QpWorld) : Prop :=
  ∀ (i : BitVec 10) (key : BitVec 8),
    (∃ ent, w.qpc i = some ent ∧ ent.qpnKeyPart = key) ↔ w.live i.toNat = some key

/-- A queue pair that is modified exists, and one that exists is not destroyed. An index beyond the
table is refused. -/
def Ok (w : QpWorld) : QpCall → Prop
  | .createQp _ _ => True
  | .updateQp qpn _ _ => indexOfQpn qpn < maxQpCnt → w.Live qpn
  | .destroyQp qpn => w.live (indexOfQpn qpn) = none

instance (w : QpWorld) (call : QpCall) : Decidable (w.Ok call) := by
  unfold Ok
  split <;> infer_instance

/-! ## The calls that keep the table exact -/

variable {w w' : QpWorld} {call : QpCall} {calls : List QpCall}

/-- The keys of the contexts of the card. -/
def keys (w : QpWorld) (i : ℕ) : Option (BitVec 8) := (w.qpc (.ofNat 10 i)).map (·.qpnKeyPart)

theorem exact_iff : w.Exact ↔ ∀ i < maxQpCnt, w.keys i = w.live i := by
  constructor
  · intro h i hi
    have hat : (BitVec.ofNat 10 i).toNat = i := by
      rw [toNat_ofNat, Nat.mod_eq_of_lt (show i < 2 ^ 10 from hi)]
    ext key
    rw [keys, map_eq_some_iff, h, hat]
  · intro h i key
    rw [← h i.toNat i.isLt, keys, map_eq_some_iff, ofNat_toNat, setWidth_eq]

theorem keys_execUpdateQp {entry : UpdateQp} (hindex : indexOfQpn entry.qpn < maxQpCnt)
    (ctx : HwDeviceCtx) (live : ℕ → Option (BitVec 8)) {i : ℕ} (hi : i < maxQpCnt) :
    keys ⟨ctx, execUpdateQp w.qpc entry, live⟩ i =
      update w.keys (indexOfQpn entry.qpn) (some (BitVec.ofNat 8 entry.qpn)) i := by
  rw [keys, execUpdateQp_key hindex, toNat_ofNat, Nat.mod_eq_of_lt (show i < 2 ^ 10 from hi),
    update_apply]
  rfl

/-- What a call does to the queue pairs and their contexts: a new one has both, one that is modified
has a context whether it exists or not, and one that is destroyed keeps its context. -/
theorem step_cases (hs : w.step call = some w') :
    (∃ attr key index, call = .createQp attr key ∧ index < maxQpCnt ∧
      w'.live = update w.live index (some key) ∧
      (∀ i < maxQpCnt, w'.keys i = update w.keys index (some key) i) ∧
      w'.ctx.qpManager.bitmap = update w.ctx.qpManager.bitmap index true) ∨
    (∃ qpn attr connected, call = .updateQp qpn attr connected ∧ indexOfQpn qpn < maxQpCnt ∧
      w'.live = w.live ∧
      (∀ i < maxQpCnt,
        w'.keys i = update w.keys (indexOfQpn qpn) (some (BitVec.ofNat 8 qpn)) i) ∧
      w'.ctx.qpManager = w.ctx.qpManager) ∨ (∃ qpn, call = .destroyQp qpn ∧
      indexOfQpn qpn < maxQpCnt ∧ (if w.ctx.qpManager.bitmap (indexOfQpn qpn) then
        w'.live = update w.live (indexOfQpn qpn) none
      else w'.live = w.live) ∧
      w'.keys = w.keys ∧
      w'.ctx.qpManager.bitmap = update w.ctx.qpManager.bitmap (indexOfQpn qpn) false) ∨
    w.Ok call ∧ w'.live = w.live ∧ w'.keys = w.keys ∧ w'.ctx.qpManager = w.ctx.qpManager := by
  cases call with
  | createQp attr key =>
    obtain ⟨e, h⟩ | ⟨index, hindex, -, ctx', hmanager, h⟩ := w.ctx.createQp_cases attr key.toNat
    · rw [step, h] at hs
      cases hs
      exact .inr (.inr (.inr ⟨trivial, rfl, rfl, rfl⟩))
    · rw [step, h] at hs
      cases hs
      have hat := indexOfQpn_qpnOf index key.isLt
      have hkey : BitVec.ofNat 8 (qpnOf index key.toNat) = key := by
        rw [qpnOf_eq index key.isLt, ← toNat_inj, toNat_ofNat]
        omega
      refine .inl ⟨attr, key, index, rfl, hindex, ?_, fun i hi => ?_, by rw [hmanager]⟩
      · rw [createdBy, hat, hkey]
      · rw [List.foldl_cons, List.foldl_nil, keys_execUpdateQp (by rwa [hat]) _ _ hi, hat, hkey]
  | updateQp qpn attr connected =>
    obtain ⟨⟨result, ctx', out⟩, h, rfl⟩ := map_eq_some_iff.1 hs
    obtain ⟨hge, rfl, rfl⟩ | ⟨hlt, hmanager, entry, rfl, hcommands⟩ := HwDeviceCtx.updateQp_cases h
    · exact .inr (.inr (.inr ⟨fun hlt => absurd hlt (not_lt.2 hge), rfl, rfl, rfl⟩))
    · refine .inr (.inl ⟨_, attr, connected, rfl, hlt, rfl, fun i hi => ?_, hmanager⟩)
      dsimp only
      rw [hcommands, List.foldl_cons, List.foldl_nil, keys_execUpdateQp hlt _ _ hi]
  | destroyQp qpn =>
    obtain ⟨⟨result, ctx', out⟩, h, rfl⟩ := map_eq_some_iff.1 hs
    obtain ⟨hlt, rfl, hmanager, hresult⟩ := HwDeviceCtx.destroyQp_cases h
    refine .inr (.inr (.inl ⟨qpn, rfl, hlt, ?_, rfl, by rw [hmanager]⟩))
    obtain ⟨rfl, hused⟩ | ⟨⟨e, rfl⟩, hfree⟩ := hresult
    · rw [hused]
      exact rfl
    · rw [hfree]
      exact rfl

def Used (w : QpWorld) : Prop := ∀ i, w.live i ≠ none → w.ctx.qpManager.bitmap i = true

theorem used_step (hused : w.Used) (hs : w.step call = some w') : w'.Used := by
  intro i hi
  obtain ⟨attr, key, index, -, -, hlive, -, hbitmap⟩ | ⟨qpn, attr, connected, -, -, hlive, -,
    hmanager⟩ | ⟨qpn, -, -, hlive, -, hbitmap⟩ | ⟨-, hlive, -, hmanager⟩ := step_cases hs
  · rw [hbitmap]
    rw [hlive] at hi
    rcases eq_or_ne i index with rfl | hne
    · rw [update_self]
    · rw [update_of_ne hne] at hi ⊢
      exact hused i hi
  · rw [hmanager]
    exact hused i (hlive ▸ hi)
  · rw [hbitmap]
    split at hlive
    · rw [hlive] at hi
      have hne : i ≠ indexOfQpn qpn := by
        rintro rfl
        exact hi (update_self _ _ _)
      rw [update_of_ne hne] at hi ⊢
      exact hused i hi
    · next hfree =>
      rw [hlive] at hi
      have hne : i ≠ indexOfQpn qpn := by
        rintro rfl
        exact hfree (hused _ hi)
      rw [update_of_ne hne]
      exact hused i hi
  · rw [hmanager]
    exact hused i (hlive ▸ hi)

/-- **A call keeps the table exact** exactly if it modifies a queue pair that exists, or destroys
none that exists. -/
theorem exact_step_iff (hused : w.Used) (hexact : w.Exact) (hs : w.step call = some w') :
    w'.Exact ↔ w.Ok call := by
  rw [exact_iff] at hexact ⊢
  obtain ⟨attr, key, index, rfl, -, hlive, hkeys, -⟩ |
    ⟨qpn, attr, connected, rfl, hindex, hlive, hkeys, -⟩ | ⟨qpn, rfl, hindex, hlive, hkeys, -⟩ |
    ⟨hok, hlive, hkeys, -⟩ := step_cases hs
  · refine iff_of_true (fun i hi => ?_) trivial
    rw [hkeys i hi, hlive, update_apply, update_apply, hexact i hi]
  · constructor
    · intro hexact' _
      have hkey := hexact' _ hindex
      rw [hkeys _ hindex, update_self, hlive] at hkey
      exact hkey.symm
    · intro hok i hi
      rw [hkeys i hi, hlive]
      rcases eq_or_ne i (indexOfQpn qpn) with rfl | hne
      · rw [update_self, hok hindex]
      · rw [update_of_ne hne, hexact i hi]
  · -- the context stays, so the table is exact if there was none
    rw [hkeys]
    split at hlive
    · constructor
      · intro hexact'
        have hkey := hexact' _ hindex
        rwa [hexact _ hindex, hlive, update_self] at hkey
      · intro hnone i hi
        rw [hexact i hi, hlive]
        rcases eq_or_ne i (indexOfQpn qpn) with rfl | hne
        · rw [update_self, hnone]
        · rw [update_of_ne hne]
    · next hfree =>
      refine iff_of_true (fun i hi => by rw [hlive, hexact i hi]) (by_contra fun hne => ?_)
      exact hfree (hused _ hne)
  · exact iff_of_true (fun i hi => by rw [hkeys, hlive, hexact i hi]) hok

/-! ## Packets -/

/-- A packet to `dqpn` passes the check of its queue pair in the receive queue. -/
def PassesQpc (t : Tables) (m : RdmaRecvPacketMeta) (peer : ThinMacIpUdpMetaDataForRecv) : Prop :=
  (getQpnRawIndexPart m.bth.dqpn).toNat < maxQp ∧
    (parseEntry m peer).isQpKeyCheckPass (t.queryQpc m.bth.dqpn) = true

instance (t : Tables) (m : RdmaRecvPacketMeta) (peer : ThinMacIpUdpMetaDataForRecv) :
    Decidable (PassesQpc t m peer) :=
  inferInstanceAs (Decidable (_ ∧ _))

theorem Exact.live_of_passes (hexact : w.Exact) {t : Tables} (ht : t.qpc = w.qpc)
    {m : RdmaRecvPacketMeta} {peer : ThinMacIpUdpMetaDataForRecv} (h : PassesQpc t m peer) :
    w.Live m.bth.dqpn.toNat := by
  obtain ⟨hindex, hpass⟩ := h
  obtain ⟨ent, hent, -⟩ := (any_eq_true _ _).1 hpass
  obtain ⟨hfind, hkey⟩ := filter_eq_some_iff.1 hent
  rw [ht] at hfind
  have hlive := (hexact _ _).1 ⟨ent, hfind, eq_of_beq hkey⟩
  have hkeyPart : getKeyQP m.bth.dqpn = BitVec.ofNat 8 m.bth.dqpn.toNat := by
    rw [← getKeyQP_ofNat, ofNat_toNat, setWidth_eq]
  have hindexPart : (getIndexQP m.bth.dqpn).toNat = indexOfQpn m.bth.dqpn.toNat := by
    have hraw : (getQpnRawIndexPart m.bth.dqpn).toNat = indexOfQpn m.bth.dqpn.toNat := by
      rw [getQpnRawIndexPart, extractLsb'_toNat, indexOfQpn, qpnKeyPartWidth]
      omega
    rw [getIndexQP, toNat_setWidth, Nat.mod_eq_of_lt (show _ < 2 ^ 10 from hindex), hraw]
  rwa [hindexPart] at hlive

/-! ## Runs -/

theorem used_exact (h : Run step Ok initial calls w) : w.Used ∧ w.Exact := by
  refine h.invariant (I := fun _ w => w.Used ∧ w.Exact) ⟨fun i hi => absurd rfl hi, ?_⟩ ?_
  · intro i key
    exact ⟨fun ⟨ent, hent, _⟩ => absurd hent (by simp [initial]), fun hlive =>
      absurd hlive (by simp [initial])⟩
  · rintro _ w call w' ⟨hused, hexact⟩ hok hs
    exact ⟨used_step hused hs, (exact_step_iff hused hexact hs).2 hok⟩

/-- **The table of the card is exact** after every sequence of calls that modify only queue pairs
that exist and destroy none that exists. A packet then passes the check of its queue pair only if
that exists. The first other call leaves the table wrong. -/
theorem exact_of_run (h : Run step Ok initial calls w) :
    w.Exact ∧
      (∀ (t : Tables) (m : RdmaRecvPacketMeta) (peer : ThinMacIpUdpMetaDataForRecv), t.qpc = w.qpc →
        PassesQpc t m peer → w.Live m.bth.dqpn.toNat) ∧
      ∀ call w', w.step call = some w' → (w'.Exact ↔ w.Ok call) := by
  obtain ⟨hused, hexact⟩ := used_exact h
  exact ⟨hexact, fun t m peer ht hpass => hexact.live_of_passes ht hpass,
    fun call w' hs => exact_step_iff hused hexact hs⟩

end QpWorld

/-- A queue pair is created and initialized. -/
def createAndInit : List QpCall :=
  [.createQp ⟨2, none, none⟩ 0, .updateQp 0x100 { qpState := some .init } (.ok ())]

/-- The table is exact after a queue pair was created and initialized. -/
theorem exact_of_run_createAndInit : ∃ w : QpWorld,
    Run QpWorld.step QpWorld.Ok QpWorld.initial createAndInit w ∧ w.Exact ∧ w.Live 0x100 := by
  have hrun : Run QpWorld.step QpWorld.Ok QpWorld.initial createAndInit _ :=
    .of_isSome (by decide +kernel)
  exact ⟨_, hrun, (QpWorld.exact_of_run hrun).1, by decide +kernel⟩

/-- A write of 32 bytes to the queue pair `dqpn`. -/
def writeTo (dqpn : BitVec 24) : RdmaRecvPacketMeta where
  bth := ⟨.rc, .rdmaWriteOnly, false, false, 0, dqpn, false, 0⟩
  rdmaExtendHeaderBuf := BitVec.ofNat 336 ((0x1000 * 2 ^ 64 + 32) * 2 ^ 208)
  hasPayload := true
  isEcnMarked := false

/-- **Packets to a queue pair that was destroyed pass the check**: its context stays in the
table. -/
theorem destroyed_passes : ∃ w : QpWorld,
    Run QpWorld.step (fun _ _ => True) QpWorld.initial (createAndInit ++ [.destroyQp 0x100]) w ∧
      ¬ w.Live 0x100 ∧ ¬ w.Exact ∧
      QpWorld.PassesQpc ⟨w.qpc, fun _ => none⟩ (writeTo 0x100) default := by
  refine ⟨_, .of_isSome (by decide +kernel), by decide +kernel, fun hexact => ?_, by decide +kernel⟩
  have hlive := hexact.live_of_passes (t := ⟨_, fun _ => none⟩) rfl
    (by decide +kernel : QpWorld.PassesQpc _ (writeTo 0x100) default)
  exact absurd hlive (by decide +kernel)

end OpenRdma.Link
