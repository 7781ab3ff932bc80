import Mathlib.Logic.Function.Basic
import OpenRdma.Driver.Completion
import OpenRdma.Driver.Matching

/-!
# The device context

The calls of the verbs interface that manage queue pairs: creating, modifying and destroying one,
and posting receives. All tables are indexed by the index part of the number of the queue pair and
keep their entries when a queue pair is destroyed. A call sends commands to the card, receives to
the peer over TCP, and tasks to the completion worker. `none` is a panic; an error result may leave
changes behind.
-/

namespace OpenRdma.Driver

open Function Option

def maxQpCnt : ℕ := 1024

def qpnKeyPartWidth : ℕ := 8

/-- `qpn_to_index` on the 32 bits the driver uses for a number. -/
def indexOfQpn (qpn : ℕ) : ℕ := qpn >>> qpnKeyPartWidth

/-- The number of a queue pair with an index and a key. -/
def qpnOf (index key : ℕ) : ℕ := index <<< qpnKeyPartWidth ||| key

theorem qpnOf_eq (index : ℕ) {key : ℕ} (h : key < 2 ^ 8) :
    qpnOf index key = index * 2 ^ 8 + key := by
  rw [qpnOf, qpnKeyPartWidth, ← Nat.shiftLeft_add_eq_or_of_lt h, Nat.shiftLeft_eq]

theorem indexOfQpn_qpnOf (index : ℕ) {key : ℕ} (h : key < 2 ^ 8) :
    indexOfQpn (qpnOf index key) = index := by
  rw [qpnOf_eq index h, indexOfQpn, qpnKeyPartWidth, Nat.shiftRight_eq_div_pow]
  omega

/-! ## Numbers of queue pairs -/

/-- `QpManager`: the indices in use. -/
structure QpManager where
  bitmap : ℕ → Bool

namespace QpManager

/-- `QpManager::new`. The first index is never given out. -/
def new : QpManager := ⟨fun i => i == 0⟩

/-- `QpManager::create_qp` with the key the generator of random numbers gives. -/
def createQp (m : QpManager) (key : ℕ) : Option (ℕ × QpManager) :=
  ((List.range maxQpCnt).find? fun i => !m.bitmap i).map fun index =>
    (qpnOf index key, ⟨update m.bitmap index true⟩)

/-- `QpManager::destroy_qp`. Only the index is looked at, and an index beyond the bitmap panics. -/
def destroyQp (m : QpManager) (qpn : ℕ) : Option (Bool × QpManager) :=
  if indexOfQpn qpn < maxQpCnt then
    some (m.bitmap (indexOfQpn qpn), ⟨update m.bitmap (indexOfQpn qpn) false⟩)
  else none

theorem createQp_cases (m : QpManager) (key : ℕ) :
    m.createQp key = none ∨ ∃ index < maxQpCnt, m.bitmap index = false ∧
      m.createQp key = some (qpnOf index key, ⟨update m.bitmap index true⟩) := by
  rw [createQp]
  cases hfind : (List.range maxQpCnt).find? fun i => !m.bitmap i with
  | none => exact .inl rfl
  | some index =>
    have hfree := List.find?_some hfind
    have hindex := List.mem_of_find?_eq_some hfind
    exact .inr ⟨index, List.mem_range.1 hindex, by simpa using hfree, rfl⟩

end QpManager

/-! ## Attributes and commands -/

def QpAttr.default : QpAttr :=
  { qpType := 0, qpn := 0, macAddr := 0, dqpn := 0, dqpIp := 0, pmtu := 0, sendCq := none,
    recvCq := none }

structure IbvQpInitAttr where
  qpType : ℕ
  sendCq : Option ℕ
  recvCq : Option ℕ
  deriving DecidableEq

inductive IbvQpState
  | reset | init | rtr | rts | sqd | sqe | err | unknown
  deriving DecidableEq

/-- The fields of `IbvQpAttr` the driver reads. -/
structure IbvQpAttr where
  qpState : Option IbvQpState := none
  pathMtu : Option ℕ := none
  destQpNum : Option ℕ := none
  destQpIp : Option ℕ := none
  deriving DecidableEq

/-- `UpdateQp`, the command that writes the context of a queue pair. -/
structure UpdateQp where
  ipAddr : ℕ := 0
  qpn : ℕ := 0
  peerQpn : ℕ := 0
  rqAccessFlags : ℕ := 0
  qpType : ℕ := 0
  pmtu : ℕ := 0
  localUdpPort : ℕ := 0
  peerMacAddr : ℕ := 0
  deriving DecidableEq

def cardMacAddress : ℕ := 0xAABBCCDDEE0A

/-- `RecvWrQpn`: a receive with the number of the queue pair it was posted to. -/
structure RecvWrQpn where
  wr : RecvWr
  qpn : ℕ
  deriving DecidableEq

/-! ## The context -/

/-- The tables of `HwDeviceCtx` for queue pairs. A channel is named by the address of the peer. -/
structure HwDeviceCtx where
  qpManager : QpManager := .new
  qpAttrTable : ℕ → QpAttr := fun _ => .default
  ipTxTable : ℕ → Bool := fun _ => false
  postRecvTxTable : ℕ → Option ℕ := fun _ => none
  recvWrQueueTable : ℕ → List RecvWr := fun _ => []
  pendingPostRecvQueue : ℕ → List RecvWr := fun _ => []
  pendingSendQueueTable : ℕ → List SendWr := fun _ => []

/-- What a call sends: commands to the card, receives to peers, and tasks to the completion worker
with the number of their queue pair. -/
structure CtxOutput where
  commands : List UpdateQp := []
  tcp : List (ℕ × RecvWrQpn) := []
  completion : List (ℕ × CompletionTask) := []
  deriving DecidableEq

/-- What a call returns: the result, the context and what was sent. -/
abbrev CtxResult (α : Type) := Except RdmaError α × HwDeviceCtx × CtxOutput

namespace HwDeviceCtx

/-- `HwDeviceCtx::create_qp` with the key the generator of random numbers gives. -/
def createQp (ctx : HwDeviceCtx) (attr : IbvQpInitAttr) (key : ℕ) : CtxResult ℕ :=
  match ctx.qpManager.createQp key with
  | none => (.error (.resourceExhausted "No QP numbers available"), ctx, {})
  | some (qpn, qpManager) =>
    let current := ctx.qpAttrTable (indexOfQpn qpn)
    let current := { current with
      qpn := qpn
      qpType := attr.qpType
      sendCq := attr.sendCq
      recvCq := attr.recvCq
      macAddr := cardMacAddress
      pmtu := 5 }
    (.ok qpn,
      { ctx with
        qpManager := qpManager
        qpAttrTable := update ctx.qpAttrTable (indexOfQpn qpn) current },
      { commands := [{ localUdpPort := 0x100, qpType := attr.qpType, qpn := qpn }] })

/-- The address of the peer after a modification: the new one, or the one there is. Without one the
queue pair can only be initialized. -/
def updatedIp (current : QpAttr) (attr : IbvQpAttr) : Option ℕ :=
  match attr.destQpIp with
  | some ip => some ip
  | none =>
    if current.dqpIp ≠ 0 then some current.dqpIp
    else if attr.qpState = some .init then some 0 else none

/-- The flags `LOCAL_WRITE`, `REMOTE_READ` and `REMOTE_WRITE`, which every queue pair gets. -/
def rqAccessFlags : ℕ := 1 ||| 4 ||| 2

def updateEntry (current : QpAttr) (attr : IbvQpAttr) (qpn ipAddr : ℕ) : UpdateQp where
  qpn := qpn
  ipAddr := ipAddr
  localUdpPort := 0x100
  peerMacAddr := cardMacAddress
  qpType := current.qpType
  peerQpn := attr.destQpNum.getD current.dqpn
  rqAccessFlags := rqAccessFlags
  pmtu := attr.pathMtu.elim current.pmtu (· % 2 ^ 8)

/-- `IpTxTable::get_or_connect`: an address that has a channel is not connected to again. -/
def getOrConnect (ctx : HwDeviceCtx) (ip : ℕ) (connected : Except RdmaError Unit) :
    Except RdmaError (ℕ → Bool) :=
  if ctx.ipTxTable ip then .ok ctx.ipTxTable
  else connected.map fun _ => update ctx.ipTxTable ip true

/-- The end of `HwDeviceCtx::update_qp`: once the peer is known the channel to it is opened, and the
receives that waited for it are sent. `connected` is the outcome of opening a channel. -/
def connectQp (ctx : HwDeviceCtx) (qpn : ℕ) (connected : Except RdmaError Unit) :
    Except RdmaError Unit × HwDeviceCtx × List (ℕ × RecvWrQpn) :=
  let qp := ctx.qpAttrTable (indexOfQpn qpn)
  if qp.dqpn ≠ 0 ∧ qp.dqpIp ≠ 0 ∧ ctx.postRecvTxTable (indexOfQpn qpn) = none then
    match ctx.getOrConnect qp.dqpIp connected with
    | .error e => (.error e, ctx, [])
    | .ok ipTxTable =>
      (.ok (),
        { ctx with
          ipTxTable := ipTxTable
          postRecvTxTable := update ctx.postRecvTxTable (indexOfQpn qpn) (some qp.dqpIp)
          pendingPostRecvQueue := update ctx.pendingPostRecvQueue (indexOfQpn qpn) [] },
        (ctx.pendingPostRecvQueue (indexOfQpn qpn)).map fun wr => (qp.dqpIp, ⟨wr, qpn⟩))
  else (.ok (), ctx, [])

/-- `update_qp`, with the result of the connection to the peer. -/
def updateQp (ctx : HwDeviceCtx) (qpn : ℕ) (attr : IbvQpAttr) (connected : Except RdmaError Unit) :
    Option (CtxResult Unit) :=
  if indexOfQpn qpn < maxQpCnt then
    let current := ctx.qpAttrTable (indexOfQpn qpn)
    (updatedIp current attr).map fun ipAddr =>
      let entry := updateEntry current attr qpn ipAddr
      let current := { current with dqpn := entry.peerQpn, pmtu := entry.pmtu, dqpIp := ipAddr }
      let ctx := { ctx with
        qpAttrTable := update ctx.qpAttrTable (indexOfQpn qpn) current }
      let (result, ctx, tcp) := ctx.connectQp qpn connected
      (result, ctx, { commands := [entry], tcp := tcp })
  else some (.error (.notFound ("QP " ++ toString qpn ++ " not found")), ctx, {})

/-- `destroy_qp`; `none` is a panic. -/
def destroyQp (ctx : HwDeviceCtx) (qpn : ℕ) : Option (CtxResult Unit) :=
  (ctx.qpManager.destroyQp qpn).map fun (present, qpManager) =>
    let ctx := { ctx with
      qpManager := qpManager
      pendingSendQueueTable := update ctx.pendingSendQueueTable (indexOfQpn qpn) [] }
    if present then (.ok (), ctx, {})
    else (.error (.invalidInput ("QPN " ++ toString qpn ++ " not present")), ctx, {})

/-- `post_recv`: the receive is sent to the peer, or waits for it. -/
def postRecv (ctx : HwDeviceCtx) (qpn : ℕ) (wr : RecvWr) : CtxResult Unit :=
  if indexOfQpn qpn < maxQpCnt then
    let completion := [(qpn, CompletionTask.register (.postRecv ⟨wr.wrId⟩))]
    match ctx.postRecvTxTable (indexOfQpn qpn) with
    | some ip => (.ok (), ctx, { tcp := [(ip, ⟨wr, qpn⟩)], completion := completion })
    | none =>
      let queue := ctx.pendingPostRecvQueue (indexOfQpn qpn) ++ [wr]
      let ctx := { ctx with
        pendingPostRecvQueue := update ctx.pendingPostRecvQueue (indexOfQpn qpn) queue }
      (.ok (), ctx, { completion := completion })
  else (.error (.qpError ("QP " ++ toString qpn ++ " not found")), ctx, {})

/-! ## What the calls do to the queue pairs that exist -/

theorem createQp_cases (ctx : HwDeviceCtx) (attr : IbvQpInitAttr) (key : ℕ) :
    (∃ e, ctx.createQp attr key = (.error e, ctx, {})) ∨
      ∃ index < maxQpCnt, ctx.qpManager.bitmap index = false ∧ ∃ ctx',
        ctx'.qpManager = ⟨update ctx.qpManager.bitmap index true⟩ ∧
        ctx.createQp attr key = (.ok (qpnOf index key), ctx',
          { commands := [{ localUdpPort := 0x100, qpType := attr.qpType, qpn := qpnOf index key }]
            }) := by
  unfold createQp
  obtain h | ⟨index, hindex, hfree, h⟩ := ctx.qpManager.createQp_cases key
  · rw [h]
    exact .inl ⟨_, rfl⟩
  · rw [h]
    exact .inr ⟨index, hindex, hfree, _, rfl, rfl⟩

theorem connectQp_qpManager (ctx : HwDeviceCtx) (qpn : ℕ) (connected : Except RdmaError Unit) :
    (ctx.connectQp qpn connected).2.1.qpManager = ctx.qpManager := by
  unfold connectQp
  dsimp only
  split
  · split <;> rfl
  · rfl

theorem updateQp_cases {ctx ctx' : HwDeviceCtx} {qpn : ℕ} {attr : IbvQpAttr}
    {connected result : Except RdmaError Unit} {out : CtxOutput}
    (h : ctx.updateQp qpn attr connected = some (result, ctx', out)) :
    (maxQpCnt ≤ indexOfQpn qpn ∧ ctx' = ctx ∧ out = {}) ∨
      indexOfQpn qpn < maxQpCnt ∧ ctx'.qpManager = ctx.qpManager ∧
        ∃ entry : UpdateQp, entry.qpn = qpn ∧ out.commands = [entry] := by
  unfold updateQp at h
  by_cases hindex : indexOfQpn qpn < maxQpCnt
  · right
    rw [if_pos hindex] at h
    obtain ⟨ipAddr, -, h⟩ := map_eq_some_iff.1 h
    obtain ⟨-, rfl, rfl⟩ := h
    exact ⟨hindex, connectQp_qpManager _ _ _, _, rfl, rfl⟩
  · left
    rw [if_neg hindex] at h
    obtain ⟨-, rfl, rfl⟩ := some.inj h
    exact ⟨not_lt.1 hindex, rfl, rfl⟩

theorem destroyQp_cases {ctx ctx' : HwDeviceCtx} {qpn : ℕ} {result : Except RdmaError Unit}
    {out : CtxOutput} (h : ctx.destroyQp qpn = some (result, ctx', out)) :
    indexOfQpn qpn < maxQpCnt ∧ out = {} ∧
      ctx'.qpManager = ⟨update ctx.qpManager.bitmap (indexOfQpn qpn) false⟩ ∧
      ((result = .ok () ∧ ctx.qpManager.bitmap (indexOfQpn qpn) = true) ∨
        (∃ e, result = .error e) ∧ ctx.qpManager.bitmap (indexOfQpn qpn) = false) := by
  obtain ⟨⟨present, qpManager⟩, hm, h⟩ := map_eq_some_iff.1 h
  obtain ⟨hindex, hm⟩ := ite_none_right_eq_some.1 hm
  obtain ⟨hpresent, rfl⟩ := Prod.mk.inj (some.inj hm)
  refine ⟨hindex, ?_⟩
  cases present with
  | true =>
    obtain ⟨rfl, rfl, rfl⟩ := h
    exact ⟨rfl, rfl, .inl ⟨rfl, hpresent⟩⟩
  | false =>
    obtain ⟨rfl, rfl, rfl⟩ := h
    exact ⟨rfl, rfl, .inr ⟨⟨_, rfl⟩, hpresent⟩⟩

end HwDeviceCtx

end OpenRdma.Driver
