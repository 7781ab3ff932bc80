import OpenRdma.Driver.Events
import OpenRdma.Driver.Reports

/-!
# What the peer sends

The messages the peer sends on the connection, with unbounded numbers: message `i` has the message
number `i` and takes the sequence numbers from `Traffic.start i` to `Traffic.fin i`.
`Traffic.header` is what the card reports about a packet of a message, and `Traffic.recvEvent` the
event the last packet of a message registers.
-/

namespace OpenRdma.Driver

open EventMeta

/-! ## Messages -/

/-- The kind of a message. A read response says which request of ours it answers. -/
inductive MessageKind
  | write
  | writeWithImm (imm : ℕ)
  | send
  | sendWithImm (imm : ℕ)
  | read (x : HeaderReadMeta)
  | readResp (request : ℕ)
  deriving DecidableEq

namespace MessageKind

def isRead : MessageKind → Bool
  | .read _ => true
  | _ => false

def isReadResp : MessageKind → Bool
  | .readResp _ => true
  | _ => false

/-- The type of the header of a message that is not a request to read. -/
def headerType : MessageKind → HeaderType
  | .write | .read _ => .write
  | .writeWithImm _ => .writeWithImm
  | .send => .send
  | .sendWithImm _ => .sendWithImm
  | .readResp _ => .readResp

def imm : MessageKind → ℕ
  | .writeWithImm imm | .sendWithImm imm => imm
  | _ => 0

def op : MessageKind → RecvEventOp
  | .write => .write
  | .writeWithImm imm => .writeWithImm imm
  | .send => .recv
  | .sendWithImm imm => .recvWithImm imm
  | .read _ => .recvRead
  | .readResp _ => .readResp

theorem op_eq {k : MessageKind} (h : k.isRead = false) : recvEventOp k.headerType k.imm = k.op := by
  cases k with
  | read => cases h
  | write | writeWithImm | send | sendWithImm | readResp => rfl

end MessageKind

/-- A message of `count` packets; a read request is one packet. -/
structure Message where
  kind : MessageKind
  count : ℕ
  ackReq : Bool
  count_pos : 0 < count
  count_read : kind.isRead → count = 1

/-- The messages the peer sends. -/
abbrev Traffic := ℕ → Message

namespace Traffic

variable (tr : Traffic)

def start (tr : Traffic) : ℕ → ℕ
  | 0 => 0
  | i + 1 => tr.start i + (tr i).count

/-- The sequence number after the last one of a message. -/
def fin (tr : Traffic) (i : ℕ) : ℕ := tr.start (i + 1)

theorem fin_eq (i : ℕ) : tr.fin i = tr.start i + (tr i).count := rfl

theorem start_lt_fin (i : ℕ) : tr.start i < tr.fin i :=
  Nat.lt_add_of_pos_right (tr i).count_pos

theorem fin_strictMono : StrictMono tr.fin :=
  strictMono_nat_of_lt_succ fun i => tr.start_lt_fin (i + 1)

theorem lt_fin (i : ℕ) : i < tr.fin i := by
  induction i with
  | zero => exact tr.start_lt_fin 0
  | succ i ih => exact lt_of_le_of_lt ih (tr.start_lt_fin (i + 1))

/-! ## Reports of packets -/

/-- The position of packet `j` of a message of `count` packets. -/
def packetPos (count j : ℕ) : PacketPos :=
  if j + 1 = count then if j = 0 then .only else .last else if j = 0 then .first else .middle

/-- What the card reports about packet `j` of message `i`. -/
def header (tr : Traffic) (i j : ℕ) (isRetry : Bool) : ReportMeta :=
  let msn := Msn.wrap i
  let psn := Psn.wrap (tr.start i + j : ℕ)
  match (tr i).kind with
  | .read x => .headerRead { x with msn := msn, psn := psn, ackReq := (tr i).ackReq }
  | kind => .headerWrite ⟨packetPos (tr i).count j, msn, psn, (tr i).ackReq, isRetry, kind.imm,
      kind.headerType⟩

def recvEvent (tr : Traffic) (i : ℕ) : RecvEvent :=
  ⟨(tr i).kind.op, ⟨Msn.wrap i, Psn.wrap (tr.fin i : ℕ)⟩, (tr i).ackReq⟩

def ranked (tr : Traffic) (i : ℕ) : Ranked RecvEvent := ⟨tr.recvEvent i, i, tr.fin i, rfl⟩

/-- Packet `j` of message `i` registers the event of the message. -/
def Registers (tr : Traffic) (i j : ℕ) : Prop :=
  j + 1 = (tr i).count ∧ ((tr i).kind.isRead → (tr i).ackReq)

instance (tr : Traffic) (i j : ℕ) : Decidable (tr.Registers i j) :=
  inferInstanceAs (Decidable (_ ∧ _))

/-- Packet `j` of message `i` is acknowledged to the tracker. -/
def Acks (tr : Traffic) (i : ℕ) : Prop := (tr i).kind.isRead → (tr i).ackReq

instance (tr : Traffic) (i : ℕ) : Decidable (tr.Acks i) := inferInstanceAs (Decidable (_ → _))

theorem isEnd_packetPos {count j : ℕ} : (packetPos count j).isEnd ↔ j + 1 = count := by
  unfold packetPos PacketPos.isEnd
  split_ifs <;> simp_all

theorem header_of_not_read {i : ℕ} (h : (tr i).kind.isRead = false) (j : ℕ) (isRetry : Bool) :
    tr.header i j isRetry = .headerWrite ⟨packetPos (tr i).count j, Msn.wrap i,
      Psn.wrap (tr.start i + j : ℕ), (tr i).ackReq, isRetry, (tr i).kind.imm,
      (tr i).kind.headerType⟩ := by
  unfold header
  split
  · rename_i hk
    rw [hk] at h
    cases h
  · rfl

theorem header_of_read {i : ℕ} (h : (tr i).kind.isRead) (j : ℕ) (isRetry : Bool) :
    ∃ x : HeaderReadMeta, tr.header i j isRetry = .headerRead x ∧ x.msn = Msn.wrap i ∧
      x.psn = Psn.wrap (tr.start i + j : ℕ) ∧ x.ackReq = (tr i).ackReq := by
  unfold header
  split
  · exact ⟨_, rfl, rfl, rfl, rfl⟩
  · rename_i hk
    cases hkind : (tr i).kind with
    | read x => exact absurd hkind (hk x)
    | write | writeWithImm | send | sendWithImm | readResp =>
      rw [hkind] at h
      cases h

theorem wrap_last {i j : ℕ} (hj : j + 1 = (tr i).count) :
    Psn.wrap (tr.start i + j : ℕ) + 1 = Psn.wrap (tr.fin i : ℕ) := by
  have := Psn.wrap_add (tr.start i + j : ℕ) 1
  rw [fin_eq, ← hj, ← Nat.add_assoc, Nat.cast_succ (tr.start i + j)]
  exact this

/-- **The event a report of a packet registers.** -/
theorem event_header {i j : ℕ} (hj : j < (tr i).count) (isRetry : Bool) :
    (tr.header i j isRetry).event = if tr.Registers i j then some (tr.recvEvent i) else none := by
  cases hread : (tr i).kind.isRead with
  | false =>
    rw [header_of_not_read tr hread]
    by_cases hend : j + 1 = (tr i).count
    · have hreg : tr.Registers i j := ⟨hend, by simp [hread]⟩
      rw [if_pos hreg, ReportMeta.event, if_pos (isEnd_packetPos.2 hend), MessageKind.op_eq hread,
        tr.wrap_last hend]
      rfl
    · rw [if_neg fun h : tr.Registers i j => hend h.1, ReportMeta.event,
        if_neg fun h => hend (isEnd_packetPos.1 h)]
  | true =>
    have hend : j + 1 = (tr i).count := by
      have := (tr i).count_read hread
      omega
    obtain ⟨x, hx, hmsn, hpsn, hack⟩ := tr.header_of_read hread j isRetry
    have hop : (tr i).kind.op = .recvRead := by
      cases hk : (tr i).kind with
      | read => rfl
      | write | writeWithImm | send | sendWithImm | readResp =>
        rw [hk] at hread
        cases hread
    rw [hx, ReportMeta.event, hmsn, hpsn, hack, tr.wrap_last hend]
    cases hreq : (tr i).ackReq with
    | false => rw [if_neg (by simp), if_neg fun h : tr.Registers i j => by simp [h.2 hread] at hreq]
    | true => rw [if_pos rfl, if_pos ⟨hend, fun _ => hreq⟩, recvEvent, hop, hreq]

theorem recvOps_header (i j : ℕ) (isRetry : Bool) (h : MetaHandler) :
    (tr.header i j isRetry).recvOps h =
      if tr.Acks i then [.one (Psn.wrap (tr.start i + j : ℕ))] else [] := by
  cases hread : (tr i).kind.isRead with
  | false =>
    rw [header_of_not_read tr hread, if_pos (by simp [Acks, hread])]
    rfl
  | true =>
    obtain ⟨x, hx, -, hpsn, hack⟩ := tr.header_of_read hread j isRetry
    rw [hx, ReportMeta.recvOps, hpsn, hack]
    simp only [Acks, hread, forall_const]

end Traffic

end OpenRdma.Driver
