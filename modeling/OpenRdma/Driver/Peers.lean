import OpenRdma.Driver.Ctx

/-!
# Receives sent to the peer

A receive that is posted is sent to the peer over TCP, once the peer is known; until then it waits.
At the peer a thread for each connection takes the receives and looks for the queue pair that is
connected to the one they were posted to. A receive for which it finds none is dropped. The others
are appended to the queue of the queue pair, and the thread then matches the requests that wait
there.

The parties are named by their addresses. `Net.step` is one call of the verbs, one access of a
thread that matches, or one receive taken from a connection.
-/

namespace OpenRdma.Driver

open Function

/-! ## Threads that match -/

/-- A thread in `try_match_pendings` for the queue pair `qpn`. `taken` is the receive of the request
it holds. -/
structure Matcher where
  qpn : ℕ
  pc : MatchPc := .peek
  taken : Option RecvWr := none

namespace Matcher

/-- The receive of the request a thread holds after its next access. -/
def takes (m : Matcher) : Option RecvWr :=
  match m.pc with
  | .popSend recv => some recv
  | .popPlain => none
  | _ => m.taken

/-- The next access of a thread: the thread after it, the queues, and the tasks sent with their
receives. -/
def step (m : Matcher) (q : MatchQueues) :
    Option (Matcher × MatchQueues × List (SendWrRdma × Option RecvWr)) :=
  (m.pc.step m.qpn q).map fun r => ({ m with pc := r.1, taken := m.takes },
    r.2.1, r.2.2.map (·, m.taken))

def result (m : Matcher) : Option (Except RdmaError Unit) :=
  match m.pc with
  | .done result => some result
  | _ => none

end Matcher

/-- A `RecvWorker`: it waits for a receive, it matches, or it panicked. -/
inductive RecvWorker
  | idle
  | matching (m : Matcher)
  | panicked

/-- The worker after an access of its thread, if there was one. An error ends it. -/
def RecvWorker.next : Option Matcher → RecvWorker
  | none => .panicked
  | some m =>
    match m.result with
    | none => .matching m
    | some (.ok _) => .idle
    | some (.error _) => .panicked

/-! ## Parties -/

/-- A driver: its context, its call of `post_send` if there is one, a worker for each connection by
the address of the peer, and the tasks sent to the write worker by queue pair, with the receives
they were matched with. -/
structure Party where
  ctx : HwDeviceCtx := {}
  posting : Option Matcher := none
  workers : ℕ → RecvWorker := fun _ => .idle
  sent : ℕ → List (SendWrRdma × Option RecvWr) := fun _ => []

namespace HwDeviceCtx

def queues (ctx : HwDeviceCtx) (index : ℕ) : MatchQueues :=
  ⟨ctx.pendingSendQueueTable index, ctx.recvWrQueueTable index⟩

def setQueues (ctx : HwDeviceCtx) (index : ℕ) (q : MatchQueues) : HwDeviceCtx :=
  { ctx with
    pendingSendQueueTable := update ctx.pendingSendQueueTable index q.pendingSend
    recvWrQueueTable := update ctx.recvWrQueueTable index q.recvWr }

def pendingSendQueueCapacity : ℕ := 128

/-- `PendingSendQueueTable::try_push`, the first part of `post_send`. -/
def tryPush (ctx : HwDeviceCtx) (qpn : ℕ) (wr : SendWr) : Option HwDeviceCtx :=
  let queue := ctx.pendingSendQueueTable (indexOfQpn qpn)
  if indexOfQpn qpn < maxQpCnt ∧ queue.length < pendingSendQueueCapacity then
    some { ctx with
      pendingSendQueueTable := update ctx.pendingSendQueueTable (indexOfQpn qpn)
        (queue ++ [wr]) }
  else none

/-- `QpTableShared::query` of `RecvWorker::run`: the first queue pair that is connected to `dqpn` at
`addr`. -/
@[irreducible] def query (ctx : HwDeviceCtx) (dqpn addr : ℕ) : Option QpAttr :=
  ((List.range maxQpCnt).map ctx.qpAttrTable).find? fun attr => attr.dqpn = dqpn ∧ attr.dqpIp = addr

end HwDeviceCtx

/-- The access of a thread of a party to the queues of its queue pair. -/
def Party.access (p : Party) (m : Matcher) : Option (Matcher × Party) :=
  let index := indexOfQpn m.qpn
  (m.step (p.ctx.queues index)).map fun r =>
    (r.1, { p with
      ctx := p.ctx.setQueues index r.2.1
      sent := update p.sent index (p.sent index ++ r.2.2) })

/-! ## The network -/

/-- A receive that was appended at the address and index `place`, when the queue pair it was posted
to was connected to `peer`. -/
structure Appended where
  wr : RecvWr
  place : ℕ × ℕ
  peer : ℕ × ℕ
  deriving DecidableEq

/-- The parties, what is on the connections from one address to another, and by the address and the
index of the queue pair they were posted to: the receives that were posted, and those that were
appended. -/
structure Net where
  parties : ℕ → Party := fun _ => {}
  wire : ℕ → ℕ → List RecvWrQpn := fun _ _ => []
  posted : ℕ → ℕ → List RecvWr := fun _ _ => []
  appended : ℕ → ℕ → List Appended := fun _ _ => []

/-- What happens next: a call of a party, an access of its call of `post_send`, or a step of the
worker of `dst` for the connection from `src`. -/
inductive NetLabel
  | createQp (a : ℕ) (attr : IbvQpInitAttr) (key : ℕ)
  | updateQp (a qpn : ℕ) (attr : IbvQpAttr) (connected : Except RdmaError Unit)
  | postRecv (a qpn : ℕ) (wr : RecvWr)
  | postSend (a qpn : ℕ) (wr : SendWr)
  | posting (a : ℕ)
  | receive (src dst : ℕ)
  | matching (src dst : ℕ)

namespace Net

def ctx (n : Net) (a : ℕ) : HwDeviceCtx := (n.parties a).ctx

def setParty (n : Net) (a : ℕ) (p : Party) : Net :=
  { n with parties := update n.parties a p }

def setCtx (n : Net) (a : ℕ) (ctx : HwDeviceCtx) : Net :=
  n.setParty a { n.parties a with ctx := ctx }

/-- A party sends receives to its peers. -/
def send (n : Net) (a : ℕ) (tcp : List (ℕ × RecvWrQpn)) : Net :=
  { n with
    wire := update n.wire a fun dst =>
      n.wire a dst ++ (tcp.filter fun x => x.1 = dst).map (·.2) }

def recordPosted (n : Net) (a qpn : ℕ) (wr : RecvWr) : Except RdmaError Unit → Net
  | .error _ => n
  | .ok _ =>
    let index := indexOfQpn qpn
    { n with posted :=
        update n.posted a (update (n.posted a) index (n.posted a index ++ [wr])) }

/-- The address and the index of the queue pair that the sender of a receive is connected to. -/
def peerOf (n : Net) (src qpn : ℕ) : ℕ × ℕ :=
  let attr := (n.ctx src).qpAttrTable (indexOfQpn qpn)
  (attr.dqpIp, indexOfQpn attr.dqpn)

def take (n : Net) (src dst : ℕ) (rest : List RecvWrQpn) : Net :=
  { n with wire := update n.wire src (update (n.wire src) dst rest) }

/-- A receive is appended to the queue of a queue pair, and its worker starts to match. -/
def append (n : Net) (src dst : ℕ) (msg : RecvWrQpn) (qpn : ℕ) : Net :=
  let p := n.parties dst
  let index := indexOfQpn qpn
  let q := p.ctx.queues index
  let origin := indexOfQpn msg.qpn
  { n.setParty dst { p with
      ctx := p.ctx.setQueues index { q with recvWr := q.recvWr ++ [msg.wr] }
      workers := update p.workers src (.matching { qpn := qpn }) } with
    appended := update n.appended src (update (n.appended src) origin
      (n.appended src origin ++ [⟨msg.wr, (dst, index), n.peerOf src msg.qpn⟩])) }

/-- `RecvWorker::run`, for one receive. -/
def receive (n : Net) (src dst : ℕ) (msg : RecvWrQpn) (rest : List RecvWrQpn) : Net :=
  match (n.ctx dst).query msg.qpn src with
  | none => n.take src dst rest
  | some attr => (n.take src dst rest).append src dst msg attr.qpn

/-- A call of a driver, or a step of one of its threads. -/
def step (n : Net) : NetLabel → Option Net
  | .createQp a attr key =>
    if (n.parties a).posting.isSome then none
    else some (n.setCtx a ((n.ctx a).createQp attr key).2.1)
  | .updateQp a qpn attr connected =>
    if (n.parties a).posting.isSome then none
    else ((n.ctx a).updateQp qpn attr connected).map fun r => (n.setCtx a r.2.1).send a r.2.2.tcp
  | .postRecv a qpn wr =>
    if (n.parties a).posting.isSome then none
    else
      let r := (n.ctx a).postRecv qpn wr
      some (((n.setCtx a r.2.1).send a r.2.2.tcp).recordPosted a qpn wr r.1)
  | .postSend a qpn wr =>
    if (n.parties a).posting.isSome then none
    else
      match (n.ctx a).tryPush qpn wr with
      | none => some n
      | some ctx => some (n.setParty a { n.parties a with ctx := ctx, posting := some { qpn := qpn } })
  | .posting a =>
    (n.parties a).posting.bind fun m =>
      ((n.parties a).access m).map fun r =>
        n.setParty a { r.2 with posting := if r.1.result.isSome then none else some r.1 }
  | .receive src dst =>
    match (n.parties dst).workers src, n.wire src dst with
    | .idle, msg :: rest => some (n.receive src dst msg rest)
    | _, _ => none
  | .matching src dst =>
    match (n.parties dst).workers src with
    | .matching m =>
      let p := n.parties dst
      let r := p.access m
      let p := (r.map (·.2)).getD p
      some (n.setParty dst { p with
        workers := update p.workers src (RecvWorker.next (r.map (·.1))) })
    | _ => none

end Net

end OpenRdma.Driver
