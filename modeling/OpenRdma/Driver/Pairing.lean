import OpenRdma.Driver.MatchOrder
import OpenRdma.Driver.RecvCompletion

/-!
# Sends and the receives they are matched with

The sender matches its requests with the receives of the peer in the order they arrive, and the
receiver completes the messages with the receives in the order they were posted. The two agree if no
receive is lost on the way, one thread at a time matches, and every task is sent.

A `Pair` is the queue pair of the receiver, that of the sender and the messages between them.
`PairWorld` is the network with the write worker of the sender and the workers of the receiver.
-/

namespace OpenRdma.Driver

open List Option Prod MessageKind

/-! ## Messages of tasks -/

/-- The message is one that is sent for the task. -/
def MessageKind.isOf (kind : MessageKind) (wr : SendWrRdma) : Bool :=
  match wr.opcode, kind with
  | .rdmaWrite, .write | .send, .send | .rdmaRead, .read _ | .rdmaReadResp, .readResp _ => true
  | .rdmaWriteWithImm, .writeWithImm imm | .sendWithImm, .sendWithImm imm => imm = wr.base.immData
  | _, _ => false

/-- The completion is that of a message sent for a task that was matched with a receive. -/
def Completion.IsOf (c : Completion) (wr : SendWrRdma) (recv : RecvWr) : Prop :=
  match wr.opcode with
  | .rdmaWriteWithImm => c = .recvRdmaWithImm recv.wrId wr.base.immData
  | .send => c = .recv recv.wrId none
  | .sendWithImm => c = .recv recv.wrId (some wr.base.immData)
  | _ => False

section Tasks

variable {kind : MessageKind} {wr : SendWrRdma}

theorem MessageKind.isOf_takesRecv (h : kind.isOf wr = true) :
    kind.takesRecv = wr.opcode.takesRecv := by
  unfold isOf at h
  split at h
  case h_7 => cases h
  all_goals
    rename_i hop
    rw [hop]
    rfl

theorem MessageKind.isOf_cases (h : kind.isOf wr = true) (htakes : kind.takesRecv = true) :
    wr.opcode = .rdmaWriteWithImm ∧ kind = .writeWithImm wr.base.immData ∨
      wr.opcode = .send ∧ kind = .send ∨ wr.opcode = .sendWithImm ∧
      kind = .sendWithImm wr.base.immData := by
  unfold isOf at h
  split at h
  case h_2 hop => exact .inr (.inl ⟨hop, rfl⟩)
  case h_5 hop => exact .inl ⟨hop, by rw [of_decide_eq_true h]⟩
  case h_6 hop => exact .inr (.inr ⟨hop, by rw [of_decide_eq_true h]⟩)
  all_goals first
    | cases htakes
    | cases h

theorem Completion.isOf_of_event {recv : RecvWr} {c : Completion} (h : kind.isOf wr = true)
    (htakes : kind.takesRecv = true) (hc : QueuePairMessageTracker.CompletesAs kind.op (some c))
    (hid : c.wrId = recv.wrId) : c.IsOf wr recv := by
  obtain ⟨hop, rfl⟩ | ⟨hop, rfl⟩ | ⟨hop, rfl⟩ := isOf_cases h htakes
  all_goals
    obtain ⟨wrId, hc⟩ := hc
    cases hc
    obtain rfl : wrId = recv.wrId := hid
    rw [Completion.IsOf, hop]

end Tasks

/-! ## Messages that completed -/

theorem Traffic.start_monotone (tr : Traffic) : Monotone tr.start :=
  monotone_nat_of_le_succ fun j => (tr.start_lt_fin j).le

section Lists

variable {α β : Type*}

theorem filter_range_prefix (p : ℕ → Bool) {q : ℕ → Prop} [DecidablePred q]
    (hq : ∀ i j, i ≤ j → q j → q i) (m : ℕ) : ((range m).filter fun j => p j && q j) <+:
    (range m).filter p := by
  induction m with
  | zero => exact prefix_rfl
  | succ m ih =>
    by_cases hm : q m
    · -- all numbers are below the bound
      have hall : ((range (m + 1)).filter fun j => p j && q j) =
        (range (m + 1)).filter p := by
        refine filter_congr fun j hj => ?_
        have hle : j ≤ m := Nat.lt_succ_iff.1 (mem_range.1 hj)
        simp [hq j m hle hm]
      rw [hall]
    · rw [range_succ]
      simpa [hm] using ih.trans (prefix_append _ _)

theorem forall₂_filterMap (p : ℕ → Bool) (f : α → Option β) (l : List α)
    (hp : ∀ j x, l[j]? = some x → p j = (f x).isSome) :
    List.Forall₂ (fun j y => ∃ x, l[j]? = some x ∧ f x = some y) ((range l.length).filter p)
      (l.filterMap f) := by
  induction l using reverseRecOn with
  | nil => exact .nil
  | append_singleton l x ih =>
    have hlast : (l ++ [x])[l.length]? = some x := by simp
    have hbefore : ∀ {j : ℕ} {y : α}, l[j]? = some y → (l ++ [x])[j]? = some y := by
      intro j y h
      rw [getElem?_append_left (List.getElem?_eq_some_iff.1 h).1, h]
    have ih := ih fun j y h => hp j y (hbefore h)
    rw [length_append, length_singleton, range_succ, filter_append, filterMap_append]
    refine rel_append (ih.imp fun j y => ?_) ?_
    · rintro ⟨z, hz, hy⟩
      exact ⟨z, hbefore hz, hy⟩
    · have hkeep := hp _ x hlast
      cases hx : f x with
      | none => simp [hkeep, hx]
      | some y =>
        simp only [filter_singleton, hkeep, hx, filterMap_cons_some hx]
        exact .cons ⟨x, hlast, hx⟩ .nil

end Lists

section Completed

variable {tr : Traffic} {s : Workers} {h : RecvHistory}

/-- **The messages that completed are the first that take a receive**, if their headers come before
the base passes them. -/
theorem RecvSafe.completed (hs : RecvSafe tr tr.takesRecv s h) {m : ℕ} (hm : ∀ a ∈ h.arrived, a < tr.start m) :
    ∃ js, js <+: (range m).filter tr.takesRecv ∧
      List.Forall₂ (fun j c => QueuePairMessageTracker.CompletesAs (tr j).kind.op (some c)) js s.recvCq := by
  obtain ⟨popped, wait, reg, T, hv⟩ := hs.view
  have hT := (RecvSees.mono hv.sees).1
  have hforall := forall₂_takesRecv hv.inv.polled_eq hv.inv.completion
  have hpopped : ((popped.filter fun i => !(tr i).kind.isReadResp).filter tr.takesRecv) =
      (range m).filter fun j => tr.takesRecv j && (tr.fin j : ℤ) ≤ T := by
    refine ((hv.inv.popped_sorted.filter _).filter _).eq_of_mem_iff (pairwise_lt_range.filter _)
      fun j => ?_
    simp only [mem_filter, mem_range, Bool.and_eq_true, decide_eq_true_eq]
    constructor
    · rintro ⟨⟨hj, -⟩, htakes⟩
      have hle := hv.inv.popped_le j hj
      refine ⟨?_, htakes, hle⟩
      -- the last packet of the message arrived, so the message was sent
      have hlast := hs.core.arrived_of_lt (a := tr.fin j - 1) (by have := tr.lt_fin j; dsimp only at hT; omega)
      have hlt := hm _ hlast
      by_contra hge
      have hle : tr.start m ≤ tr.start j := tr.start_monotone (by omega)
      have := tr.start_lt_fin j
      omega
    · rintro ⟨-, htakes, hle⟩
      refine ⟨⟨hv.must_mem j htakes hle, ?_⟩, htakes⟩
      unfold Traffic.takesRecv at htakes
      cases hkind : (tr j).kind <;> rw [hkind] at htakes <;> first | rfl | cases htakes
  refine ⟨_, ?_, hforall⟩
  rw [hpopped]
  refine filter_range_prefix tr.takesRecv (q := fun j => (tr.fin j : ℤ) ≤ T) (fun i j hij hj => ?_) m
  have := tr.fin_strictMono.monotone hij
  omega

end Completed

/-! ## Both sides -/

/-- A task that is no request of the user: acknowledgements and read responses. -/
def RdmaWriteTask.isInternal : RdmaWriteTask → Bool
  | .write wr => wr.opcode = .rdmaReadResp
  | .ack _ | .newComplete _ => true

/-- The queue pair `i` of the party `a` receives what the queue pair `k` of the party `d` sends, and
the messages are those of `traffic`. -/
structure Pair where
  a : ℕ
  i : ℕ
  d : ℕ
  k : ℕ
  traffic : Traffic

/-- The network, the tasks of the write worker of the sender with their receives and its context,
the messages it sent, and the receiver with its history. -/
structure PairWorld where
  net : Net := {}
  tasks : List (RdmaWriteTask × Option RecvWr) := []
  sendCtx : SendQueueContext := {}
  messages : List (SendWrRdma × Option RecvWr) := []
  receiver : Workers × RecvHistory := ({}, {})

/-- What happens next: a step of the network, a task from another worker of the sender, the next
task of its write worker, or a step of the receiver. -/
inductive PairLabel
  | net (l : NetLabel)
  | task (t : RdmaWriteTask)
  | runRdmaWrite
  | recv (l : RecvLabel)

namespace PairWorld

variable {P : Pair} {w w' : PairWorld}

/-- The tasks a call sends to the completion worker of the receiver. -/
def registers (P : Pair) (n : Net) : NetLabel → List CompletionTask
  | .postRecv b qpn wr =>
    if b = P.a ∧ indexOfQpn qpn = P.i then ((n.ctx b).postRecv qpn wr).2.2.completion.map Prod.snd
      else []
  | _ => []

/-- A step of the network. The tasks that were sent go to the write worker, and the receives that
were posted to the completion worker. -/
def afterNet (P : Pair) (w : PairWorld) (l : NetLabel) (net : Net) : PairWorld :=
  { w with
    net := net
    tasks := w.tasks ++ (((net.parties P.d).sent P.k).drop
      ((w.net.parties P.d).sent P.k).length).map fun x => (.write x.1, x.2)
    receiver := ({ w.receiver.1 with
      completionCh := w.receiver.1.completionCh ++ registers P w.net l }, w.receiver.2) }

/-- The write worker took a request and left the tasks `tasks`. A request that is refused is
dropped. -/
def afterPost (w : PairWorld) (tasks : List (RdmaWriteTask × Option RecvWr))
    (x : SendWrRdma × Option RecvWr) (r : RdmaResult) : PairWorld :=
  { w with
    tasks := tasks
    sendCtx := r.2.1
    messages := match r.1 with
      | .ok _ => w.messages ++ [x]
      | .error _ => w.messages }

/-- The attributes of the queue pair of the sender. -/
def senderAttr (P : Pair) (w : PairWorld) : QpAttr := (w.net.ctx P.d).qpAttrTable P.k

/-- A step of the network, of the sender or of the receiver. -/
def step (P : Pair) (w : PairWorld) : PairLabel → Option PairWorld
  | .net l => (w.net.step l).map (w.afterNet P l)
  | .task t => if t.isInternal then some { w with tasks := w.tasks ++ [(t, none)] } else none
  | .runRdmaWrite =>
    match w.tasks with
    | [] => some w
    | (.write wr, recv) :: tasks =>
      (w.sendCtx.post (w.senderAttr P) wr).map (w.afterPost tasks (wr, recv))
    | (t, _) :: tasks =>
      (w.sendCtx.process (w.senderAttr P) t).map fun r => { w with tasks := tasks, sendCtx := r.1 }
  | .recv (.other (.postRecv _)) => none
  | .recv l =>
    (recvStep P.traffic ((w.net.ctx P.a).qpAttrTable P.i) w.receiver l).map fun r =>
      { w with receiver := r }

/-- The messages that took a receive, with their receives. -/
def matched (w : PairWorld) : List (SendWrRdma × RecvWr) :=
  w.messages.filterMap fun x => x.2.map (x.1, ·)

/-- **Every receive completion is for the receive its message was matched with**: the `n`-th
completion is that of the `n`-th message that took a receive and has the identifier of this receive,
whose buffer a send was written to. -/
def Paired (w : PairWorld) : Prop :=
  ∀ (n : ℕ) (c : Completion), w.receiver.1.recvCq[n]? = some c →
    ∃ wr recv, w.matched[n]? = some (wr, recv) ∧ c.IsOf wr recv ∧ IsMatched (wr, some recv)

/-! ## When they are paired -/

def nextRequest (w : PairWorld) : Option SendWrRdma :=
  match w.tasks with
  | (.write wr, _) :: _ => some wr
  | _ => none

/-- The steps in which what is sent arrives: the write worker can take the next request, whose
message is the next of the traffic, packets arrive after they were sent, and the headers of messages
that take a receive are reported in time. -/
def Carries (P : Pair) (w : PairWorld) : PairLabel → Prop
  | .net _ | .task _ => True
  | .runRdmaWrite => ∀ wr ∈ w.nextRequest, SendQueueContext.Accepts (w.senderAttr P) w.sendCtx wr ∧
      (P.traffic w.messages.length).kind.isOf wr = true ∧
      reservedPsns wr (w.senderAttr P).pmtu = some (P.traffic w.messages.length).count
  | .recv (.arrive a) => RecvOk P.traffic P.traffic.takesRecv w.receiver (.arrive a) ∧
      a < P.traffic.start w.messages.length
  | .recv l => RecvOk P.traffic P.traffic.takesRecv w.receiver l

/-- The steps after which completions and messages are paired. -/
def Ok (P : Pair) (w : PairWorld) : PairLabel → Prop
  | .net l => w.net.PairOk P.a P.i P.d P.k l
  | l => w.Carries P l

instance (P : Pair) (w : PairWorld) (l : PairLabel) : Decidable (w.Carries P l) := by
  unfold Carries
  split <;> infer_instance

instance (P : Pair) (w : PairWorld) (l : PairLabel) : Decidable (w.Ok P l) := by
  unfold Ok
  split <;> infer_instance

/-- The invariant of the runs in which completions and messages are paired. -/
structure PairInv (P : Pair) (w : PairWorld) : Prop where
  routed : ∀ a i, (w.net.route a i).Routed
  delivers : (w.net.route P.a P.i).Delivers
  ordered : (w.net.desk P.a P.i P.d P.k).Ordered
  others : w.net.OthersAway P.a P.d P.k
  posted : w.receiver.1.Posted ((w.net.posted P.a P.i).map (·.wrId))
  safe : RecvSafe P.traffic P.traffic.takesRecv w.receiver.1 w.receiver.2
  tasks : ∀ x ∈ w.tasks, (∀ wr, x.1 = .write wr → IsMatched (wr, x.2)) ∧
    (x.1.isInternal → x.2 = none)
  given : ((w.net.parties P.d).sent P.k).filterMap Prod.snd =
    w.messages.filterMap Prod.snd ++ w.tasks.filterMap Prod.snd
  messages : ∀ (n : ℕ) x, w.messages[n]? = some x → IsMatched x ∧ (P.traffic n).kind.isOf x.1 = true
  arrived : ∀ a ∈ w.receiver.2.arrived, a < P.traffic.start w.messages.length

namespace PairInv

theorem prefix_posted (h : PairInv P w) : w.matched.map Prod.snd <+: w.net.posted P.a P.i := by
  have hmatched : w.matched.map snd = w.messages.filterMap snd := by
    rw [matched, map_filterMap]
    refine filterMap_congr fun x _ => ?_
    cases x.2 <;> rfl
  have hacc := h.delivers.accounted
  have horder := h.ordered.order
  have hgiven := h.given
  have hposted : w.net.posted P.a P.i = (w.net.route P.a P.i).posted := rfl
  have harrived : (w.net.route P.a P.i).appended.map (·.wr) =
      (w.net.desk P.a P.i P.d P.k).arrived := rfl
  have hsent : (w.net.desk P.a P.i P.d P.k).sent = (w.net.parties P.d).sent P.k := rfl
  rw [hposted, hacc, harrived, horder, hsent, hgiven, hmatched]
  simp only [append_assoc]
  exact prefix_append _ _

/-- **Completions and messages are paired.** -/
theorem paired (h : PairInv P w) : w.Paired := by
  intro n c hn
  obtain ⟨js, hjs, hcompleted⟩ := h.safe.completed h.arrived
  have hkept : ∀ (j : ℕ) x, w.messages[j]? = some x → P.traffic.takesRecv j =
      ((fun x : SendWrRdma × Option RecvWr => x.2.map (x.1, ·)) x).isSome := by
    intro j x hx
    obtain ⟨hmatched, hkind⟩ := h.messages j x hx
    rw [Traffic.takesRecv, isOf_takesRecv hkind, ← hmatched.1, isSome_map]
  have hplaces := forall₂_filterMap P.traffic.takesRecv _ w.messages hkept
  -- the message of the completion
  obtain ⟨hlt, rfl⟩ := List.getElem?_eq_some_iff.1 hn
  have hlen : n < js.length := hcompleted.length_eq ▸ hlt
  have hlen' : n < w.matched.length := by
    have := hjs.length_le
    rw [hplaces.length_eq] at this
    exact hlen.trans_le this
  have hevent := hcompleted.get hlen hlt
  obtain ⟨x, hx, hmap⟩ := hplaces.get (hlen.trans_le hjs.length_le) hlen'
  have hsame : ((range w.messages.length).filter P.traffic.takesRecv).get
      ⟨n, hlen.trans_le hjs.length_le⟩ = js.get ⟨n, hlen⟩ := (hjs.getElem hlen).symm
  rw [hsame] at hx
  obtain ⟨recv, hrecv, hpair⟩ := Option.map_eq_some_iff.1 hmap
  obtain ⟨hmatched, hkind⟩ := h.messages _ x hx
  have hget : w.matched[n]? = some (x.1, recv) := by
    rw [getElem?_eq_getElem hlen']
    exact congrArg some hpair.symm
  have hx' : (x.1, some recv) = x := by rw [← hrecv]
  refine ⟨x.1, recv, hget, Completion.isOf_of_event hkind ?_ hevent ?_, hx' ▸ hmatched⟩
  · rw [isOf_takesRecv hkind, ← hmatched.1, hrecv]
    rfl
  · -- both identifiers are that of the `n`-th receive posted
    have hposted : (w.net.posted P.a P.i)[n]? = some recv := by
      obtain ⟨rest, hrest⟩ := h.prefix_posted
      rw [← hrest, getElem?_append_left (by simpa using hlen'), getElem?_map, hget]
      rfl
    have hids := congrArg (·[n]?) h.posted
    simp only [append_assoc, getElem?_map, hposted] at hids
    rw [getElem?_append_left (by simpa using hlt), getElem?_map, hn] at hids
    exact (Option.some.inj hids).symm

end PairInv

end PairWorld

/-! ## The steps keep the invariant -/

theorem Desk.Moves.sent {r r' : Desk} (h : Desk.Moves r r') : ∃ out, r'.sent = r.sent ++ out := by
  rcases h with rfl | ⟨_, _, _, _, rfl⟩ | ⟨_, _, _, rfl⟩ | ⟨_, _, _, out, _,
    _, rfl⟩ | ⟨_, _, _, rfl⟩
  case access => exact ⟨out, rfl⟩
  all_goals exact ⟨[], (append_nil _).symm⟩

namespace Net

variable {n n' : Net} {l : NetLabel}

theorem delivers_route {a i : ℕ} (hr : ∀ a i, (n.route a i).Routed) (hd : (n.route a i).Delivers)
    (hs : n.step l = some n') (hok : ∀ src dst, l = .receive src dst →
      ∀ msg ∈ (n.wire src dst).head?,
      src = a ∧ indexOfQpn msg.qpn = i → n.FindsPeer src dst msg) : (n'.route a i).Delivers := by
  by_cases hl : ∃ src dst, l = .receive src dst
  · obtain ⟨src, dst, rfl⟩ := hl
    obtain ⟨-, msg, rest, hwire, rfl⟩ := receive_eq hs
    rw [route_receive hwire]
    split
    · next h =>
      obtain ⟨rfl, rfl⟩ := h
      have hfind := hok a dst rfl msg (by rw [hwire]; rfl) ⟨rfl, rfl⟩
      rw [FindsPeer] at hfind
      cases hquery : (n.ctx dst).query msg.qpn a with
      | none =>
        rw [hquery] at hfind
        cases hfind
      | some attr =>
        rw [hquery] at hfind
        exact (Route.delivers_append_iff hd (hr _ _) (onWire_route hwire) rfl).2
          (Option.some.inj hfind)
    · exact hd
  · exact hd.calls (hr a i) (route_calls hs (fun src dst h => hl ⟨src, dst, h⟩) a i)

theorem posted_of_step (hl : ∀ b qpn wr, l ≠ .postRecv b qpn wr) (hs : n.step l = some n') :
    n'.posted = n.posted := by
  cases l with
  | createQp b attr key =>
    obtain ⟨-, hs⟩ := ite_none_left_eq_some.1 hs
    cases hs
    rfl
  | updateQp b qpn attr connected =>
    obtain ⟨-, hs⟩ := ite_none_left_eq_some.1 hs
    obtain ⟨_, -, rfl⟩ := Option.map_eq_some_iff.1 hs
    rfl
  | postRecv b qpn wr => exact absurd rfl (hl b qpn wr)
  | postSend b qpn wr =>
    obtain ⟨-, hs⟩ := ite_none_left_eq_some.1 hs
    split at hs
    · cases hs
      rfl
    · cases hs
      rfl
  | posting b =>
    obtain ⟨m, -, hs⟩ := bind_eq_some_iff.1 hs
    obtain ⟨_, -, rfl⟩ := Option.map_eq_some_iff.1 hs
    rfl
  | receive src dst =>
    obtain ⟨-, msg, rest, -, rfl⟩ := receive_eq hs
    rw [receive]
    cases (n.ctx dst).query msg.qpn src with
    | none => rfl
    | some attr => rfl
  | matching src dst =>
    rw [step] at hs
    split at hs
    · cases hs
      rfl
    · cases hs

end Net

namespace PairWorld

variable {P : Pair} {w w' : PairWorld}

theorem registers_eq {n n' : Net} {l : NetLabel} (hs : n.step l = some n') :
    (n'.posted P.a P.i = n.posted P.a P.i ∧ registers P n l = []) ∨
      ∃ wr : RecvWr, n'.posted P.a P.i = n.posted P.a P.i ++ [wr] ∧
        registers P n l = [.register (.postRecv ⟨wr.wrId⟩)] := by
  by_cases hl : ∃ b qpn wr, l = .postRecv b qpn wr
  · obtain ⟨b, qpn, wr, rfl⟩ := hl
    obtain ⟨-, hs⟩ := ite_none_left_eq_some.1 hs
    cases hs
    by_cases hindex : indexOfQpn qpn < maxQpCnt
    · have hcall : ((n.ctx b).postRecv qpn wr).1 = .ok () ∧
          ((n.ctx b).postRecv qpn wr).2.2.completion =
          [(qpn, .register (.postRecv ⟨wr.wrId⟩))] := by
        unfold HwDeviceCtx.postRecv
        rw [if_pos hindex]
        split <;> exact ⟨rfl, rfl⟩
      simp only [registers, hcall.1, hcall.2]
      have hposted := congrArg Route.posted (Net.route_recordPosted
        ((n.setCtx b ((n.ctx b).postRecv qpn wr).2.1).send b ((n.ctx b).postRecv qpn wr).2.2.tcp)
        b qpn wr P.a P.i)
      by_cases hP : b = P.a ∧ indexOfQpn qpn = P.i
      · rw [if_pos ⟨hP.1.symm, hP.2⟩] at hposted
        rw [if_pos hP]
        exact .inr ⟨wr, hposted, rfl⟩
      · rw [if_neg fun h => hP ⟨h.1.symm, h.2⟩] at hposted
        rw [if_neg hP]
        exact .inl ⟨hposted, rfl⟩
    · have hcall : (n.ctx b).postRecv qpn wr = _ := if_neg hindex
      simp only [registers, hcall]
      exact .inl ⟨rfl, ite_self _⟩
  · refine .inl ⟨?_, ?_⟩
    · rw [Net.posted_of_step (fun b qpn wr h => hl ⟨b, qpn, wr, h⟩) hs]
    · cases l with
      | postRecv b qpn wr => exact absurd ⟨b, qpn, wr, rfl⟩ hl
      | createQp | updateQp | postSend | posting | receive | matching => rfl

theorem step_recv {l : RecvLabel} (hs : w.step P (.recv l) = some w') :
    (∀ wrId, l ≠ .other (.postRecv wrId)) ∧
      ∃ r, recvStep P.traffic ((w.net.ctx P.a).qpAttrTable P.i) w.receiver l = some r ∧
        { w with receiver := r } = w' := by
  cases l with
  | arrive | header => exact ⟨nofun, Option.map_eq_some_iff.1 hs⟩
  | other l =>
    cases l with
    | postRecv => cases hs
    | post | report | timeout | runRdmaWrite | runRetransmit | runCompletion =>
      exact ⟨nofun, Option.map_eq_some_iff.1 hs⟩

namespace PairInv

theorem net (h : PairInv P w) {l : NetLabel} {net' : Net} (hok : w.net.PairOk P.a P.i P.d P.k l)
    (hs : w.net.step l = some net') : PairInv P (w.afterNet P l net') := by
  obtain ⟨hmoves, hothers⟩ := Net.desk_moves h.others h.ordered.alone hok hs
  have hordered := h.ordered.moves hmoves
  obtain ⟨out, hout⟩ := hmoves.sent
  have hsent : (net'.parties P.d).sent P.k = (w.net.parties P.d).sent P.k ++ out := hout
  have hdrop : ((net'.parties P.d).sent P.k).drop ((w.net.parties P.d).sent P.k).length = out := by
    rw [hsent, drop_left]
  have hreceiver : (w.afterNet P l net').receiver.1.Posted ((net'.posted P.a P.i).map (·.wrId)) ∧
      RecvSafe P.traffic P.traffic.takesRecv (w.afterNet P l net').receiver.1 w.receiver.2 := by
    simp only [afterNet]
    obtain ⟨hposted, hreg⟩ | ⟨wr, hposted, hreg⟩ := registers_eq (P := P) hs
    · rw [hposted, hreg, append_nil]
      exact ⟨h.posted, h.safe⟩
    · rw [hposted, hreg, map_append]
      have hpost : w.receiver.1.step .default (.postRecv wr.wrId) = some _ := rfl
      have hok : RecvOk P.traffic P.traffic.takesRecv w.receiver (.other (.postRecv wr.wrId)) :=
        ⟨trivial, trivial⟩
      have hrecv : recvStep P.traffic .default w.receiver (.other (.postRecv wr.wrId)) = some _ :=
        rfl
      exact ⟨h.posted.step hpost, h.safe.step hok hrecv⟩
  refine ⟨Net.routed_step h.routed hs, ?_, hordered, hothers, hreceiver.1, hreceiver.2, ?_, ?_,
    h.messages, h.arrived⟩
  · refine Net.delivers_route h.routed h.delivers hs fun src dst hl msg hmsg hsrc => ?_
    subst hl
    have hfind := hok msg hmsg
    rw [Net.FindsDesk, if_pos hsrc] at hfind
    exact hfind.1
  · simp only [afterNet, hdrop]
    refine forall_mem_append.2 ⟨h.tasks, fun x hx => ?_⟩
    obtain ⟨y, hy, rfl⟩ := mem_map.1 hx
    have hy : IsMatched y := hordered.matched y (by rw [hout]; exact mem_append_right _ hy)
    refine ⟨fun wr hwr => ?_, fun hint => ?_⟩
    · obtain rfl : y.1 = wr := RdmaWriteTask.write.inj hwr
      exact hy
    · -- the tasks of the user are no read responses
      have hop : y.1.opcode = .rdmaReadResp := of_decide_eq_true hint
      have hnone := hy.1
      rw [hop] at hnone
      exact not_isSome_iff_eq_none.1 (by rw [hnone]; decide)
  · simp only [afterNet, hsent, drop_left, filterMap_append, h.given, append_assoc,
      filterMap_map]
    rfl

theorem task (h : PairInv P w) {t : RdmaWriteTask} (ht : t.isInternal = true) :
    PairInv P { w with tasks := w.tasks ++ [(t, none)] } := by
  refine { h with tasks := ?_, given := ?_ }
  · refine forall_mem_append.2 ⟨h.tasks, forall_mem_singleton.2 ⟨fun wr hwr => ?_, fun _ => rfl⟩⟩
    obtain rfl : t = .write wr := hwr
    have hop : wr.opcode = .rdmaReadResp := of_decide_eq_true ht
    refine ⟨?_, nofun⟩
    rw [hop]
    rfl
  · rw [h.given]
    simp

theorem runRdmaWrite (h : PairInv P w) (hok : w.Carries P .runRdmaWrite)
    (hs : w.step P .runRdmaWrite = some w') : PairInv P w' := by
  rw [step] at hs
  rcases htasks : w.tasks with _ | ⟨⟨t, recv⟩, tasks⟩
  · rw [htasks] at hs
    cases hs
    exact h
  have hgiven := h.given
  have hall := h.tasks
  rw [htasks] at hs hgiven hall
  obtain ⟨hfirst, hrest⟩ := List.forall_mem_cons.1 hall
  cases t with
  | write wr =>
    obtain ⟨haccepts, hkind, -⟩ := hok wr (by simp [nextRequest, htasks])
    obtain ⟨n, r, hr, htakes⟩ := SendQueueContext.post_of_accepts haccepts
    dsimp only at hs
    rw [hr] at hs
    cases hs
    have hmessages : (w.afterPost tasks (wr, recv) r).messages = w.messages ++ [(wr, recv)] := by
      rw [afterPost, htakes.ok]
    refine { h with tasks := hrest, given := ?_, messages := ?_, arrived := ?_ }
    · rw [hmessages, filterMap_append]
      change filterMap snd ((w.net.parties P.d).sent P.k) = _
      rw [hgiven, append_assoc]
      cases recv <;> rfl
    · intro m x hx
      rw [hmessages] at hx
      rcases lt_or_ge m w.messages.length with hm | hm
      · rw [getElem?_append_left hm] at hx
        exact h.messages m x hx
      · obtain ⟨hlt, -⟩ := List.getElem?_eq_some_iff.1 hx
        rw [length_append, length_singleton] at hlt
        obtain rfl : m = w.messages.length := by omega
        rw [getElem?_concat_length] at hx
        cases hx
        exact ⟨hfirst.1 wr rfl, hkind⟩
    · intro a ha
      rw [hmessages, length_append]
      exact (h.arrived a ha).trans_le (P.traffic.start_monotone (Nat.le_succ _))
  | ack p | newComplete m =>
    obtain ⟨r, -, rfl⟩ := Option.map_eq_some_iff.1 hs
    have hnone : recv = none := hfirst.2 rfl
    subst hnone
    exact { h with tasks := hrest, given := hgiven }

theorem recv (h : PairInv P w) {l : RecvLabel} (hok : w.Carries P (.recv l))
    (hs : w.step P (.recv l) = some w') : PairInv P w' := by
  obtain ⟨hlabel, r, hr, rfl⟩ := step_recv hs
  have hrecv : RecvOk P.traffic P.traffic.takesRecv w.receiver l := by
    cases l with
    | arrive a => exact hok.1
    | header | other => exact hok
  refine { h with posted := ?_, safe := h.safe.step hrecv hr, arrived := ?_ }
  · cases l with
    | arrive a =>
      cases hr
      exact h.posted
    | header i j isRetry =>
      obtain ⟨s', hs', rfl⟩ := Option.map_eq_some_iff.1 hr
      have hposted := h.posted.step hs'
      rwa [append_nil] at hposted
    | other l =>
      obtain ⟨s', hs', rfl⟩ := Option.map_eq_some_iff.1 hr
      have hposted := h.posted.step hs'
      cases l with
      | postRecv wrId => exact absurd rfl (hlabel wrId)
      | post | report | timeout | runRdmaWrite | runRetransmit | runCompletion =>
        rwa [append_nil] at hposted
  · cases l with
    | arrive a =>
      cases hr
      exact List.forall_mem_cons.2 ⟨hok.2, h.arrived⟩
    | header i j isRetry =>
      obtain ⟨s', -, rfl⟩ := Option.map_eq_some_iff.1 hr
      exact h.arrived
    | other l =>
      obtain ⟨s', -, rfl⟩ := Option.map_eq_some_iff.1 hr
      cases l with
      | post | postRecv | report | timeout | runRdmaWrite | runRetransmit | runCompletion =>
        exact h.arrived

theorem step (h : PairInv P w) {l : PairLabel} (hok : w.Ok P l) (hs : w.step P l = some w') :
    PairInv P w' := by
  cases l with
  | net l =>
    obtain ⟨net', hnet, rfl⟩ := Option.map_eq_some_iff.1 hs
    exact h.net hok hnet
  | task t =>
    obtain ⟨ht, rfl⟩ := ite_some_none_eq_some.1 hs
    exact h.task ht
  | runRdmaWrite => exact h.runRdmaWrite hok hs
  | recv l => exact h.recv hok hs

theorem init (P : Pair) : PairInv P {} where
  routed := fun _ _ => ⟨fun _ _ => rfl, fun _ => rfl⟩
  delivers := ⟨rfl, nofun⟩
  ordered := ⟨nofun, Nat.zero_le 1, nofun, nofun, rfl⟩
  others := nofun
  posted := rfl
  safe := recvSafe_init P.traffic P.traffic.takesRecv
  tasks := nofun
  given := rfl
  messages := nofun
  arrived := nofun

end PairInv

/-- **Receive completions are paired with messages** in every run in which each receive is found its
peer, one thread of the sender matches at a time, the write worker can take every request, and the
headers of the messages that take a receive are reported in time. -/
theorem run_paired {ls : List PairLabel} (h : Run (step P) (Ok P) {} ls w) : w.Paired :=
  PairInv.paired (h.invariant (I := fun _ w => PairInv P w) (PairInv.init P)
    fun _ _ _ _ hinv hok hs => hinv.step hok hs)

end PairWorld

/-- The second party receives what the first sends. -/
def samplePair : Pair := ⟨2, 1, 1, 1, sendTraffic⟩

def sampleSend (wrId : ℕ) : SendWr :=
  .send ⟨wrId, 0, 0x2000, 64, 0, 0, .send, sampleRaddr_lt, by decide⟩

/-- The messages `0` to `n - 1` arrive and complete, after `m` receives were posted. -/
def arriveAndComplete (n m : ℕ) : List PairLabel :=
  replicate m (.recv (.other .runCompletion)) ++ (range n).flatMap fun j =>
    [.recv (.arrive j), .recv (.header j 0 false), .recv (.other .runCompletion),
      .recv (.other .runCompletion)]

/-- A request is posted and its thread makes `n` accesses. -/
def postAndMatch (wrId n : ℕ) : List NetLabel :=
  .postSend 1 0x100 (sampleSend wrId) :: replicate n (.posting 1)

/-- A receive arrives and its thread makes `n` accesses. -/
def receiveAndMatch (n : ℕ) : List NetLabel := .receive 2 1 :: replicate n (.matching 2 1)

/-- A receive is posted before the parties connect, and one after. The first send waits for its
receive, and the second finds it. -/
def sendTwice : List PairLabel :=
  (createBoth ++ [.postRecv 2 0x100 (sampleRecv 7), connectTo 1 2, connectTo 2 1,
    .postRecv 2 0x100 (sampleRecv 8)] ++ postAndMatch 0 2 ++ receiveAndMatch 5 ++
    receiveAndMatch 1 ++ postAndMatch 1 5).map PairLabel.net ++
  [.runRdmaWrite, .runRdmaWrite] ++ arriveAndComplete 2 2

/-- Both sends complete with the receives they were matched with. -/
theorem run_paired_sendTwice : ∃ w,
    Run (PairWorld.step samplePair) (PairWorld.Ok samplePair) {} sendTwice w ∧ w.Paired ∧
      w.receiver.1.recvCq = [.recv 7 none, .recv 8 none] ∧
      w.matched.map Prod.snd = [sampleRecv 7, sampleRecv 8] :=
  ⟨_, .of_isSome (by decide +kernel), PairWorld.run_paired (.of_isSome _), by decide +kernel,
    by decide +kernel⟩

/-- The first receive arrives before the first party connects, and the second after. -/
def sendAfterLoss : List PairLabel :=
  (createBoth ++ [connectTo 2 1, .postRecv 2 0x100 (sampleRecv 7), .receive 2 1, connectTo 1 2,
    .postRecv 2 0x100 (sampleRecv 8)] ++ receiveAndMatch 1 ++ postAndMatch 0 5).map PairLabel.net ++
  [.runRdmaWrite] ++ arriveAndComplete 1 2

/-- The thread that posts the second send takes the first receive for the first send. Before it
takes the send, the thread of the second receive does. -/
def sendWhileMatching : List PairLabel :=
  (createBoth ++ [connectTo 1 2, connectTo 2 1, .postRecv 2 0x100 (sampleRecv 7),
    .postRecv 2 0x100 (sampleRecv 8)] ++ postAndMatch 0 2 ++ receiveAndMatch 0 ++
    postAndMatch 1 2 ++ replicate 2 (NetLabel.matching 2 1) ++ receiveAndMatch 4 ++
    replicate 2 (NetLabel.posting 1)).map PairLabel.net ++
  [.runRdmaWrite, .runRdmaWrite] ++ arriveAndComplete 2 2

/-- **Completions with the wrong receive**: if a receive is lost, a send to the buffer of the second
receive completes the first; and if two threads match, the two sends are written to each other's
buffers. -/
theorem run_mispaired :
    (∃ w, Run (PairWorld.step samplePair) (PairWorld.Carries samplePair) {} sendAfterLoss w ∧
      w.matched.map Prod.snd = [sampleRecv 8] ∧ w.receiver.1.recvCq = [.recv 7 none] ∧ ¬ w.Paired) ∧
    ∃ w, Run (PairWorld.step samplePair) (PairWorld.Carries samplePair) {} sendWhileMatching w ∧
      w.net.posted 2 1 = (w.net.appended 2 1).map (·.wr) ∧
      w.matched.map Prod.snd = [sampleRecv 8, sampleRecv 7] ∧
      w.receiver.1.recvCq = [.recv 7 none, .recv 8 none] ∧ ¬ w.Paired := by
  have hne : ∀ {w : PairWorld} {recvs}, w.matched.map snd = sampleRecv 8 :: recvs →
      ∀ {cs}, w.receiver.1.recvCq = .recv 7 none :: cs → ¬ w.Paired := by
    intro w recvs hmatched cs hcq hpaired
    obtain ⟨wr, recv, hget, hc, -⟩ := hpaired 0 (.recv 7 none) (by rw [hcq]; rfl)
    have hrecv : recv = sampleRecv 8 := by
      have := congrArg (·[0]?) hmatched
      rw [getElem?_map, hget] at this
      exact Option.some.inj this
    subst hrecv
    unfold Completion.IsOf at hc
    split at hc <;> cases hc
  exact ⟨⟨_, .of_isSome (by decide +kernel), by decide +kernel, by decide +kernel,
      hne (by decide +kernel : _ = [sampleRecv 8]) (by decide +kernel : _ =
        [Completion.recv 7 none])⟩,
    _, .of_isSome (by decide +kernel), by decide +kernel, by decide +kernel, by decide +kernel,
    hne (by decide +kernel : _ = [sampleRecv 8, sampleRecv 7])
      (by decide +kernel : _ = [Completion.recv 7 none, .recv 8 none])⟩

end OpenRdma.Driver
