import OpenRdma.Driver.Ctx
import OpenRdma.Driver.Descriptors
import OpenRdma.Driver.Mtt

/-!
# The commands of the driver

The controller of the command queue makes one descriptor of every command. Commands come from the
registration of memory, from the creation and modification of queue pairs, and from the start of the
device.
-/

namespace OpenRdma.Driver

/-- The fields of `NetworkConfig` that are sent to the card. -/
structure NetworkConfig where
  gateway : Option ℕ
  netmask : ℕ
  ip : ℕ
  deriving DecidableEq

structure RecvBufferMeta where
  physAddr : ℕ
  deriving DecidableEq

/-- A call of `CommandConfigurator`. The one for the page table comes with the address of the
buffer. -/
inductive DriverCommand
  | updateMtt (update : MttUpdate)
  | updatePgt (dmaAddr : ℕ) (update : PgtUpdate)
  | updateQp (entry : UpdateQp)
  | setNetwork (param : NetworkConfig)
  | setRawPacketRecvBuffer (buffer : RecvBufferMeta)
  deriving DecidableEq

namespace DriverCommand

def operator : DriverCommand → CmdQueueDescOperators
  | updateMtt _ => .updateMrTable
  | updatePgt _ _ => .updatePgt
  | updateQp _ => .manageQp
  | setNetwork _ => .setNetworkParam
  | setRawPacketRecvBuffer _ => .setRawPacketReceiveMeta

/-- The descriptor `CommandConfigurator` pushes. -/
def desc : DriverCommand → Option Desc
  | updateMtt u =>
    cmdQueueReqDescUpdateMrTable 0 u.mrBaseVa u.mrLength u.mrKey u.pdHandler u.accFlags
      u.basePgtOffset
  | updatePgt dmaAddr u => some (cmdQueueReqDescUpdatePgt 0 dmaAddr u.pgtOffset
      u.zeroBasedEntryCount)
  | updateQp e =>
    some (cmdQueueReqDescQpManagement 0 e.ipAddr e.qpn false true e.peerQpn e.rqAccessFlags
      e.qpType e.pmtu e.localUdpPort e.peerMacAddr)
  | setNetwork p => some (cmdQueueReqDescSetNetworkParam 0 (p.gateway.getD 0) p.netmask p.ip
      cardMacAddress)
  | setRawPacketRecvBuffer m => some (cmdQueueReqDescSetRawPacketReceiveMeta 0 m.physAddr)

/-- The driver sends a command: in the registration of memory, in the creation or the modification
of a queue pair, or at the start. -/
inductive Sent : DriverCommand → Prop
  | updateMtt {debug : Bool} {t t' : Mtt} {env : MrEnv} {addr length pdHandle access : ℕ}
      {r : Except RdmaError ℕ} {commands : List MrCommand} {u : MttUpdate}
      (h : regMr debug t env addr length pdHandle access = some (r, t', commands))
      (hu : .updateMtt u ∈ commands) : Sent (.updateMtt u)
  | updatePgt {debug : Bool} {t t' : Mtt} {env : MrEnv} {addr length pdHandle access : ℕ}
      {r : Except RdmaError ℕ} {commands : List MrCommand} {u : PgtUpdate} {buf : List ℕ}
      (dmaAddr : ℕ) (h : regMr debug t env addr length pdHandle access = some (r, t', commands))
      (hu : .updatePgt u buf ∈ commands) : Sent (.updatePgt dmaAddr u)
  | createQp {ctx : HwDeviceCtx} {attr : IbvQpInitAttr} {key : ℕ} {e : UpdateQp}
      (hkey : key < 2 ^ 8) (he : e ∈ (ctx.createQp attr key).2.2.commands) : Sent (.updateQp e)
  | updateQp {ctx : HwDeviceCtx} {qpn : ℕ} {attr : IbvQpAttr} {connected : Except RdmaError Unit}
      {r : CtxResult Unit} {e : UpdateQp} (h : ctx.updateQp qpn attr connected = some r)
      (he : e ∈ r.2.2.commands) : Sent (.updateQp e)
  | setNetwork (p : NetworkConfig) : Sent (.setNetwork p)
  | setRawPacketRecvBuffer (m : RecvBufferMeta) : Sent (.setRawPacketRecvBuffer m)

/-- What the code that makes a command guarantees of its values. -/
def InRange : DriverCommand → Prop
  | updateMtt u => u.basePgtOffset < 2 ^ 17
  | updateQp e => e.qpn < 2 ^ 24 ∧ e.peerMacAddr < 2 ^ 48
  | _ => True

theorem qpn_lt {qpn : ℕ} (h : indexOfQpn qpn < maxQpCnt) : qpn < 2 ^ 24 := by
  rw [indexOfQpn, qpnKeyPartWidth, maxQpCnt, Nat.shiftRight_eq_div_pow] at h
  omega

theorem updateMtt_notMem_pgtCommands (u : MttUpdate) (cs : List PgtEntry) (physAddrs : List ℕ) :
    .updateMtt u ∉ pgtCommands cs physAddrs := by
  induction cs generalizing physAddrs with
  | nil => exact List.not_mem_nil
  | cons c cs ih =>
    rw [pgtCommands, List.mem_cons]
    rintro (h | h)
    · cases h
    · exact ih _ h

theorem basePgtOffset_lt {debug : Bool} {t t' : Mtt} {env : MrEnv} {addr length pdHandle access : ℕ}
    {r : Except RdmaError ℕ} {commands : List MrCommand} {u : MttUpdate}
    (h : regMr debug t env addr length pdHandle access = some (r, t', commands))
    (hu : .updateMtt u ∈ commands) : u.basePgtOffset < 2 ^ 17 := by
  obtain ⟨e, -, rfl, -⟩ | ⟨e, mrKey, idx, idxs, entry, -, rfl, -⟩ |
    ⟨mrKey, idx, idxs, entry, physAddrs, -, hreg⟩ := regMr_cases h
  · cases hu
  · cases hu
  · rw [hreg.commands, List.mem_cons] at hu
    obtain hu | hu := hu
    · obtain rfl := MrCommand.updateMtt.inj hu
      have hbound : entry.index + entry.count ≤ 2 ^ 17 := hreg.bound
      have hpos := hreg.pos
      dsimp only
      omega
    · exact absurd hu (updateMtt_notMem_pgtCommands _ _ _)

theorem Sent.inRange {c : DriverCommand} (h : Sent c) : c.InRange := by
  cases h with
  | updateMtt h hu => exact basePgtOffset_lt h hu
  | @createQp ctx attr key e hkey he =>
    obtain ⟨err, h⟩ | ⟨index, hindex, -, ctx', -, h⟩ := ctx.createQp_cases attr key
    · rw [h] at he
      cases he
    · rw [h, List.mem_singleton] at he
      subst he
      refine ⟨qpn_lt ?_, Nat.two_pow_pos _⟩
      rwa [indexOfQpn_qpnOf index hkey]
  | @updateQp ctx qpn attr connected r e h he =>
    rw [HwDeviceCtx.updateQp] at h
    split at h
    · next hindex =>
      obtain ⟨ipAddr, -, rfl⟩ := Option.map_eq_some_iff.1 h
      obtain rfl := List.mem_singleton.1 he
      have hmac : cardMacAddress < 2 ^ 48 := by decide
      exact ⟨qpn_lt hindex, hmac⟩
    · cases h
      cases he
  | _ => trivial

end DriverCommand

end OpenRdma.Driver
