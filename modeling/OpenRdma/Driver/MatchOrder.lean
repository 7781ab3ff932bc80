import OpenRdma.Driver.Delivery

/-!
# Requests take receives in order

The requests and the receives of one queue pair are on a `Desk`, with the threads that match them.
If one thread at a time matches, the receives that arrived are those of the tasks sent, the one the
thread holds, and those in the queue, in this order. Each step of the network is a step of the desk
(`Net.desk_moves`).
-/

namespace OpenRdma.Driver

open List Option Function Matcher HwDeviceCtx

/-! ## Requests and tasks -/

/-- The request has an operation of its kind. -/
def SendWr.Valid : SendWr → Prop
  | .rdma wr => wr.opcode = .rdmaWrite ∨ wr.opcode = .rdmaWriteWithImm ∨ wr.opcode = .rdmaRead
  | .send base => base.opcode = .send ∨ base.opcode = .sendWithImm

instance : (wr : SendWr) → Decidable wr.Valid
  | .rdma wr => inferInstanceAs (Decidable (wr.opcode = _ ∨ wr.opcode = _ ∨ wr.opcode = _))
  | .send base => inferInstanceAs (Decidable (base.opcode = _ ∨ base.opcode = _))

/-- The message takes a receive of the peer. -/
def WorkReqOpCode.takesRecv : WorkReqOpCode → Bool
  | .rdmaWriteWithImm | .send | .sendWithImm => true
  | _ => false

/-- The message is written to the buffer of the receive it takes. -/
def WorkReqOpCode.isSend : WorkReqOpCode → Bool
  | .send | .sendWithImm => true
  | _ => false

/-- A task and the receive it was matched with: it has one if it takes one, and a send is written to
its buffer. -/
def IsMatched (x : SendWrRdma × Option RecvWr) : Prop :=
  x.2.isSome = x.1.opcode.takesRecv ∧
    ∀ recv ∈ x.2, x.1.opcode.isSend → x.1.raddr = recv.addr ∧ x.1.rkey = recv.lkey ∧
    x.1.length = recv.length

/-! ## One thread -/

/-- The requests that wait are valid. -/
def MatchQueues.Valid (q : MatchQueues) : Prop := ∀ wr ∈ q.pendingSend, wr.Valid

namespace Matcher

/-- The receives a thread holds. -/
def held (m : Matcher) : List RecvWr :=
  match m.pc with
  | .popSend recv | .pushSend _ recv | .pushRecv _ recv => [recv]
  | .sendTask _ => m.taken.toList
  | _ => []

/-- What a thread knows about the queues if it is the only one that matches. -/
def Knows (m : Matcher) (q : MatchQueues) : Prop :=
  match m.pc with
  | .popRecv | .popSend _ => ∃ wr wrs, q.pendingSend = wr :: wrs ∧ wr.needsRecvWr = true
  | .popPlain => ∃ wr wrs, q.pendingSend = wr :: wrs ∧ wr.needsRecvWr = false
  | .sendTask task => IsMatched (task, m.taken)
  | .pushSend base _ => (SendWr.send base).Valid
  | .peek | .pushRecv .. => True
  | .done _ => False

/-- What an access of the only thread does: it does not panic, and the receives it held and those in
the queue are those of the tasks sent, those it holds now, and those in the queue, in order. -/
structure Accessed (m : Matcher) (q : MatchQueues) (m' : Matcher) (q' : MatchQueues)
    (out : List (SendWrRdma × Option RecvWr)) : Prop where
  step : m.step q = some (m', q', out)
  valid : q'.Valid
  knows : m'.result = none → m'.Knows q'
  held : m'.result.isSome → m'.held = []
  matched : ∀ x ∈ out, IsMatched x
  order : m.held ++ q.recvWr = out.filterMap Prod.snd ++ m'.held ++ q'.recvWr

theorem exists_accessed {m : Matcher} {q : MatchQueues} (hv : q.Valid) (hk : m.Knows q) :
    ∃ m' q' out, m.Accessed q m' q' out := by
  obtain ⟨qpn, pc, taken⟩ := m
  cases pc with
  | peek =>
    cases hp : q.pendingSend with
    | nil =>
      refine ⟨⟨qpn, .done (.ok ()), taken⟩, q, [], ?_, hv, by rintro ⟨⟩, fun _ => rfl, by simp, rfl⟩
      simp only [step, MatchPc.step, hp]
      rfl
    | cons wr wrs =>
      refine ⟨⟨qpn, if wr.needsRecvWr then .popRecv else .popPlain, taken⟩, q, [], ?_, hv,
        fun _ => ?_, ?_, by simp, ?_⟩
      · simp only [step, MatchPc.step, hp]
        rfl
      all_goals cases hneeds : wr.needsRecvWr
      · exact ⟨wr, wrs, hp, hneeds⟩
      · exact ⟨wr, wrs, hp, hneeds⟩
      all_goals simp [held]
  | popRecv =>
    cases hr : q.recvWr with
    | nil =>
      refine ⟨⟨qpn, .done (.ok ()), taken⟩, q, [], ?_, hv, by rintro ⟨⟩, fun _ => rfl, by simp,
        by rw [hr]; rfl⟩
      simp only [step, MatchPc.step, hr]
      rfl
    | cons recv recvs =>
      refine ⟨⟨qpn, .popSend recv, taken⟩, { q with recvWr := recvs }, [], ?_, hv, fun _ => hk,
        by rintro ⟨⟩, by simp, by rw [hr]; rfl⟩
      simp only [step, MatchPc.step, hr]
      rfl
  | popSend recv =>
    obtain ⟨wr, wrs, hp, hneeds⟩ := hk
    have hrest : (⟨wrs, q.recvWr⟩ : MatchQueues).Valid :=
      fun x hx => hv x (by rw [hp]; exact .tail _ hx)
    have hwr : wr.Valid := hv wr (by rw [hp]; exact .head _)
    cases wr with
    | rdma wr =>
      have hop : wr.opcode = .rdmaWriteWithImm := of_decide_eq_true hneeds
      refine ⟨⟨qpn, .sendTask wr, some recv⟩, ⟨wrs, q.recvWr⟩, [], ?_, hrest, fun _ => ⟨?_, ?_⟩,
        by rintro ⟨⟩, by simp, rfl⟩
      · simp only [step, MatchPc.step, hp, if_pos hop]
        rfl
      · rw [hop]
        rfl
      · rw [hop]
        exact fun _ _ h => absurd h (by decide)
    | send base =>
      by_cases hlen : base.length = recv.length
      · refine ⟨⟨qpn, .sendTask (.newFromBase base recv), some recv⟩, ⟨wrs, q.recvWr⟩,
          [], ?_, hrest, fun _ => ⟨?_, ?_⟩, by rintro ⟨⟩, by simp, rfl⟩
        · simp only [step, MatchPc.step, hp, if_neg (not_not_intro hlen)]
          rfl
        · change true = base.opcode.takesRecv
          obtain hop | hop := hwr <;> rw [hop] <;> rfl
        · intro recv' h _
          obtain rfl := mem_some_iff.1 h
          exact ⟨rfl, rfl, hlen⟩
      · refine ⟨⟨qpn, .pushSend base recv, some recv⟩, ⟨wrs, q.recvWr⟩, [], ?_, hrest, fun _ => hwr,
          by rintro ⟨⟩, by simp, rfl⟩
        simp only [step, MatchPc.step, hp, if_pos hlen]
        rfl
  | popPlain =>
    obtain ⟨wr, wrs, hp, hneeds⟩ := hk
    have hwr : wr.Valid := hv wr (by rw [hp]; exact .head _)
    cases wr with
    | rdma wr =>
      have hop : wr.opcode ≠ .rdmaWriteWithImm := of_decide_eq_false hneeds
      refine ⟨⟨qpn, .sendTask wr, none⟩, ⟨wrs, q.recvWr⟩, [], ?_, fun x hx => hv x ?_,
        fun _ => ⟨?_, by rintro - ⟨⟩⟩, by rintro ⟨⟩, by simp, rfl⟩
      · simp only [step, MatchPc.step, hp]
        rfl
      · rw [hp]
        exact .tail _ hx
      · obtain hop' | hop' | hop' := hwr
        · rw [hop']
          rfl
        · exact absurd hop' hop
        · rw [hop']
          rfl
    | send base => cases hneeds
  | sendTask task =>
    refine ⟨⟨qpn, .peek, taken⟩, q, [(task, taken)], rfl, hv, fun _ => trivial, by rintro ⟨⟩, ?_,
      ?_⟩
    · intro x hx
      obtain rfl := mem_singleton.1 hx
      exact hk
    · cases taken <;> simp [held]
  | pushSend base recv =>
    refine ⟨⟨qpn, .pushRecv base recv, taken⟩,
      { q with pendingSend := .send base :: q.pendingSend }, [], rfl, forall_mem_cons.2 ⟨hk, hv⟩,
      fun _ => trivial, by rintro ⟨⟩, by simp, rfl⟩
  | pushRecv base recv =>
    exact ⟨⟨qpn, .done (.error (lengthMismatch qpn base recv)), taken⟩,
      { q with recvWr := recv :: q.recvWr }, [], rfl, hv, by rintro ⟨⟩, fun _ => rfl, by simp, rfl⟩
  | done result => exact hk.elim

end Matcher

/-! ## The desk of a queue pair -/

/-- The queues of a queue pair, the threads that match them, the tasks sent with their receives, and
the receives that arrived. -/
structure Desk where
  queues : MatchQueues
  threads : List Matcher
  sent : List (SendWrRdma × Option RecvWr)
  arrived : List RecvWr

namespace Desk

def post (r : Desk) (wr : SendWr) (qpn : ℕ) : Desk :=
  { r with
    queues := { r.queues with pendingSend := r.queues.pendingSend ++ [wr] }
    threads := [{ qpn := qpn }] }

def receive (r : Desk) (wr : RecvWr) (qpn : ℕ) : Desk :=
  { r with
    queues := { r.queues with recvWr := r.queues.recvWr ++ [wr] }
    threads := [{ qpn := qpn }]
    arrived := r.arrived ++ [wr] }

def access (r : Desk) (m : Matcher) (q : MatchQueues) (out : List (SendWrRdma × Option RecvWr)) :
    Desk :=
  { r with
    queues := q
    threads := if m.result.isSome then [] else [m]
    sent := r.sent ++ out }

/-- The steps of a desk at which one thread matches at a time. -/
inductive Moves (r r' : Desk) : Prop
  | same (h : r' = r)
  | post (wr : SendWr) (qpn : ℕ) (hwr : wr.Valid) (ht : r.threads = []) (h : r' = r.post wr qpn)
  | receive (wr : RecvWr) (qpn : ℕ) (ht : r.threads = []) (h : r' = r.receive wr qpn)
  | access (m m' : Matcher) (q : MatchQueues) (out : List (SendWrRdma × Option RecvWr))
      (ht : r.threads = [m]) (hs : m.step r.queues = some (m', q, out)) (h : r' = r.access m' q out)
  | panic (m : Matcher) (ht : r.threads = [m]) (hs : m.step r.queues = none)
      (h : r' = { r with threads := [] })

/-- **Receives are matched in the order they arrived**: those that arrived are those of the tasks
sent, the one the thread holds, and those in the queue. -/
structure Ordered (r : Desk) : Prop where
  valid : r.queues.Valid
  alone : r.threads.length ≤ 1
  knows : ∀ m ∈ r.threads, m.Knows r.queues
  matched : ∀ x ∈ r.sent, IsMatched x
  order : r.arrived = r.sent.filterMap Prod.snd ++ r.threads.flatMap Matcher.held ++ r.queues.recvWr

variable {r r' : Desk}

theorem Ordered.moves (h : r.Ordered) (hm : Moves r r') : r'.Ordered := by
  have horder := h.order
  rcases hm with rfl | ⟨wr, qpn, hwr, ht, rfl⟩ | ⟨wr, qpn, ht, rfl⟩ | ⟨m, m', q, out, ht, hs, rfl⟩ |
    ⟨m, ht, hs, rfl⟩
  · exact h
  · refine ⟨?_, le_rfl, fun m hm => ?_, h.matched, ?_⟩
    · exact forall_mem_append.2 ⟨h.valid, forall_mem_singleton.2 hwr⟩
    · obtain rfl := mem_singleton.1 hm
      trivial
    · rw [ht] at horder
      exact horder
  · refine ⟨h.valid, le_rfl, fun m hm => ?_, h.matched, ?_⟩
    · obtain rfl := mem_singleton.1 hm
      trivial
    · rw [ht] at horder
      simp only [receive, horder, append_assoc]
      rfl
  · rw [ht] at horder
    obtain ⟨m₁, q₁, out₁, ha⟩ := exists_accessed h.valid (h.knows m (by rw [ht]; exact .head _))
    obtain ⟨rfl, rfl, rfl⟩ : m₁ = m' ∧ q₁ = q ∧ out₁ = out := by
      simpa using ha.step.symm.trans hs
    have hheld : (if m₁.result.isSome then [] else [m₁]).flatMap held = m₁.held := by
      split
      · next hdone => exact (ha.held hdone).symm
      · simp
    refine ⟨ha.valid, ?_, fun m hm => ?_, forall_mem_append.2 ⟨h.matched, ha.matched⟩, ?_⟩
    · simp only [access]
      split <;> simp
    · simp only [access] at hm
      split at hm
      · cases hm
      · next hdone =>
        obtain rfl := mem_singleton.1 hm
        exact ha.knows (by simpa using hdone)
    · rw [append_assoc, flatMap_singleton, ha.order] at horder
      simp only [access, hheld, horder, filterMap_append, append_assoc]
  · -- the thread does not panic
    obtain ⟨m₁, q₁, out₁, ha⟩ := exists_accessed h.valid (h.knows m (by rw [ht]; exact .head _))
    cases hs.symm.trans ha.step

end Desk

/-! ## What the steps do to a desk -/

def RecvWorker.matcher : RecvWorker → Option Matcher
  | .matching m => some m
  | _ => none

@[simp] theorem RecvWorker.matcher_matching (m : Matcher) :
    (RecvWorker.matching m).matcher = some m := rfl

@[simp] theorem RecvWorker.matcher_idle : RecvWorker.idle.matcher = none := rfl

@[simp] theorem RecvWorker.matcher_panicked : RecvWorker.panicked.matcher = none := rfl

theorem RecvWorker.matcher_next (m : Matcher) :
    (RecvWorker.next (some m)).matcher = if m.result.isSome then none else some m := by
  simp only [RecvWorker.next]
  cases m.result with
  | none => rfl
  | some result => cases result <;> rfl

namespace HwDeviceCtx

variable {ctx ctx' : HwDeviceCtx} {qpn : ℕ}

theorem createQp_queues (ctx : HwDeviceCtx) (attr : IbvQpInitAttr) (key k : ℕ) :
    (ctx.createQp attr key).2.1.queues k = ctx.queues k := by
  unfold createQp
  split <;> rfl

theorem updateQp_queues {attr : IbvQpAttr} {connected result : Except RdmaError Unit}
    {out : CtxOutput} (h : ctx.updateQp qpn attr connected = some (result, ctx', out)) (k : ℕ) :
    ctx'.queues k = ctx.queues k := by
  unfold updateQp at h
  split at h
  · obtain ⟨ipAddr, -, h⟩ := map_eq_some_iff.1 h
    simp only [Prod.mk.injEq] at h
    obtain ⟨-, rfl, -⟩ := h
    unfold connectQp
    dsimp only
    split
    · split <;> rfl
    · rfl
  · obtain ⟨-, rfl, -⟩ := h
    rfl

theorem postRecv_queues (ctx : HwDeviceCtx) (qpn : ℕ) (wr : RecvWr) (k : ℕ) :
    (ctx.postRecv qpn wr).2.1.queues k = ctx.queues k := by
  unfold postRecv
  split
  · split <;> rfl
  · rfl

theorem tryPush_queues {wr : SendWr} (h : ctx.tryPush qpn wr = some ctx') (k : ℕ) :
    ctx'.queues k = if k = indexOfQpn qpn then
      { ctx.queues k with pendingSend := (ctx.queues k).pendingSend ++ [wr] }
        else ctx.queues k := by
  obtain ⟨-, rfl⟩ := ite_some_none_eq_some.1 h
  simp only [queues, update_apply]
  split
  · next heq => rw [heq]
  · rfl

theorem queues_setQueues (ctx : HwDeviceCtx) (index : ℕ) (q : MatchQueues) (k : ℕ) :
    (ctx.setQueues index q).queues k = if k = index then q else ctx.queues k := by
  simp only [queues, setQueues, update_apply]
  split <;> rfl

end HwDeviceCtx

namespace Party

/-- The desk of the queue pair `k`, where receives arrive from the address `a`. -/
def desk (p : Party) (a k : ℕ) (arrived : List RecvWr) : Desk where
  queues := p.ctx.queues k
  threads := (p.posting.toList ++ (p.workers a).matcher.toList).filter fun m => indexOfQpn m.qpn = k
  sent := p.sent k
  arrived := arrived

variable {p p' : Party} {m m' : Matcher} {a k : ℕ} {arrived : List RecvWr}

theorem access_eq (h : p.access m = some (m', p')) :
    m'.qpn = m.qpn ∧ p'.posting = p.posting ∧ p'.workers = p.workers ∧
      (indexOfQpn m.qpn ≠ k → p'.ctx.queues k = p.ctx.queues k ∧ p'.sent k = p.sent k) ∧
      (indexOfQpn m.qpn = k → ∃ out, m.step (p.ctx.queues k) = some (m', p'.ctx.queues k, out) ∧
        p'.sent k = p.sent k ++ out) := by
  obtain ⟨⟨m₁, q, out⟩, hs, h⟩ := map_eq_some_iff.1 h
  cases h
  refine ⟨?_, rfl, rfl, fun hne => ⟨?_, ?_⟩, fun heq => ⟨out, ?_, ?_⟩⟩
  · obtain ⟨r, -, h⟩ := map_eq_some_iff.1 hs
    obtain ⟨rfl, -⟩ := Prod.mk.inj h
    rfl
  · exact (queues_setQueues ..).trans (if_neg (Ne.symm hne))
  · exact update_of_ne (Ne.symm hne) ..
  · subst heq
    rw [hs, queues_setQueues, if_pos rfl]
  · subst heq
    exact update_self ..

theorem desk_posting (h : p.access m = some (m', p')) (hm : p.posting = some m)
    (halone : (p.desk a k arrived).threads.length ≤ 1) : Desk.Moves (p.desk a k arrived)
      (desk { p' with posting := if m'.result.isSome then none else some m' } a k arrived) := by
  obtain ⟨hqpn, -, hworkers, hother, hself⟩ := access_eq (k := k) h
  by_cases hk : indexOfQpn m.qpn = k
  · obtain ⟨out, hs, hsent⟩ := hself hk
    have hworker : ((p.workers a).matcher.toList.filter fun m => indexOfQpn m.qpn = k) = [] := by
      simpa [desk, hm, hk] using halone
    refine .access m m' (p'.ctx.queues k) out ?_ hs ?_
    · simp [desk, hm, hk, hworker]
    · simp only [desk, Desk.access, hsent, hworkers, filter_append, hworker]
      split <;> simp [hqpn, hk]
  · obtain ⟨hq, hsent⟩ := hother hk
    refine .same ?_
    simp only [desk, hq, hsent, hworkers, hm]
    split <;> simp [hqpn, hk]

theorem desk_worker (h : p.access m = some (m', p')) (hm : p.workers a = .matching m)
    (halone : (p.desk a k arrived).threads.length ≤ 1) : Desk.Moves (p.desk a k arrived)
      (desk { p' with workers := Function.update p'.workers a (.next (some m')) } a k arrived) := by
  obtain ⟨hqpn, hposting, -, hother, hself⟩ := access_eq (k := k) h
  by_cases hk : indexOfQpn m.qpn = k
  · obtain ⟨out, hs, hsent⟩ := hself hk
    have hnone : (p.posting.toList.filter fun m => indexOfQpn m.qpn = k) = [] := by
      simpa [desk, hm, hk] using halone
    refine .access m m' (p'.ctx.queues k) out ?_ hs ?_
    · simp [desk, hm, hk, hnone]
    · simp only [desk, Desk.access, hsent, hposting, filter_append, hnone, update_self,
        RecvWorker.matcher_next]
      split <;> simp [hqpn, hk]
  · obtain ⟨hq, hsent⟩ := hother hk
    refine .same ?_
    simp only [desk, hq, hsent, hposting, hm, update_self, RecvWorker.matcher_next]
    split <;> simp [hqpn, hk]

theorem desk_panic (h : p.access m = none) (hm : p.workers a = .matching m)
    (halone : (p.desk a k arrived).threads.length ≤ 1) : Desk.Moves (p.desk a k arrived)
      (desk { p with workers := Function.update p.workers a .panicked } a k arrived) := by
  by_cases hk : indexOfQpn m.qpn = k
  · have hnone : (p.posting.toList.filter fun m => indexOfQpn m.qpn = k) = [] := by
      simpa [desk, hm, hk] using halone
    refine .panic m ?_ ?_ ?_
    · simp [desk, hm, hk, hnone]
    · subst hk
      exact map_eq_none_iff.1 h
    · simp [desk, hnone]
  · refine .same ?_
    simp [desk, hm, hk]

theorem desk_other {src : ℕ} (hsrc : src ≠ a) (h : p.access m = some (m', p'))
    (hk : indexOfQpn m.qpn ≠ k) (w : RecvWorker) :
    desk { p' with workers := Function.update p'.workers src w } a k arrived =
    p.desk a k arrived := by
  obtain ⟨-, hposting, hworkers, hother, -⟩ := access_eq (k := k) h
  obtain ⟨hq, hsent⟩ := hother hk
  simp only [desk, hq, hsent, hposting, hworkers, update_of_ne hsrc.symm]

end Party

namespace Net

/-- The desk of the queue pair `k` of the party `d`, for the receives posted to the queue pair `i`
of the party `a`. -/
def desk (n : Net) (a i d k : ℕ) : Desk := (n.parties d).desk a k ((n.appended a i).map (·.wr))

/-- No worker for another address matches requests of the queue pair. -/
def OthersAway (n : Net) (a d k : ℕ) : Prop :=
  ∀ src ≠ a, ∀ m ∈ ((n.parties d).workers src).matcher, indexOfQpn m.qpn ≠ k

/-- A receive of the queue pair `i` of the party `a` is found its peer, the queue pair `k` of the
party `d`, while no thread matches there, and no other receive is found this queue pair. -/
def FindsDesk (a i d k : ℕ) (n : Net) (src dst : ℕ) (msg : RecvWrQpn) : Prop :=
  if src = a ∧ indexOfQpn msg.qpn = i then
    n.FindsPeer src dst msg ∧ n.peerOf src msg.qpn = (d, k) ∧ (n.desk a i d k).threads = []
  else ((n.ctx dst).query msg.qpn src).map (fun attr => (dst, indexOfQpn attr.qpn)) ≠ some (d, k)

instance (a i d k : ℕ) (n : Net) (src dst : ℕ) (msg : RecvWrQpn) :
    Decidable (n.FindsDesk a i d k src dst msg) :=
  inferInstanceAs (Decidable (if _ ∧ _ then _ ∧ _ ∧ _ else _ ≠ _))

/-- The steps that match the receives of the queue pair `i` of the party `a` in order, with the
requests of the queue pair `k` of the party `d`: a thread starts to match when no other does. -/
def PairOk (a i d k : ℕ) (n : Net) : NetLabel → Prop
  | .receive src dst => ∀ msg ∈ (n.wire src dst).head?, n.FindsDesk a i d k src dst msg
  | .postSend b qpn wr => wr.Valid ∧ (b = d → indexOfQpn qpn = k → (n.desk a i d k).threads = [])
  | _ => True

instance (a i d k : ℕ) (n : Net) : (l : NetLabel) → Decidable (n.PairOk a i d k l)
  | .receive .. | .postSend .. | .createQp .. | .updateQp .. | .postRecv .. | .posting _
      | .matching .. => by
    dsimp only [PairOk]
    infer_instance

variable {n n' : Net} {a i d k : ℕ}
variable {qpn src dst : ℕ} {msg : RecvWrQpn}

theorem parties_setParty (n : Net) (b : ℕ) (p : Party) (d : ℕ) :
    (n.setParty b p).parties d = if d = b then p else n.parties d :=
  update_apply ..

theorem desk_setCtx {b : ℕ} {ctx : HwDeviceCtx} (h : ∀ k, ctx.queues k = (n.ctx b).queues k) :
    (n.setCtx b ctx).desk a i d k = n.desk a i d k := by
  rw [desk, setCtx, parties_setParty]
  split
  · next heq =>
    subst heq
    rw [Party.desk, h]
    rfl
  · rfl

theorem OthersAway.setParty (h : n.OthersAway a d k) {b : ℕ} {p : Party}
    (hp : b = d → ∀ src ≠ a, ∀ m ∈ (p.workers src).matcher, indexOfQpn m.qpn ≠ k) :
    (n.setParty b p).OthersAway a d k := by
  intro src hsrc
  rw [parties_setParty]
  split
  · next heq => exact hp heq.symm src hsrc
  · exact h src hsrc

theorem OthersAway.setCtx (h : n.OthersAway a d k) (b : ℕ) (ctx : HwDeviceCtx) :
    (n.setCtx b ctx).OthersAway a d k :=
  h.setParty fun hb => hb ▸ h

theorem desk_postSend {b : ℕ} {wr : SendWr} {ctx : HwDeviceCtx}
    (hpush : (n.ctx b).tryPush qpn wr = some ctx) (hposting : (n.parties b).posting = none)
    (hok : n.PairOk a i d k (.postSend b qpn wr)) : Desk.Moves (n.desk a i d k)
      ((n.setParty b { n.parties b with ctx := ctx, posting := some { qpn := qpn } }).desk a
        i d k) := by
  have hq := tryPush_queues hpush k
  rw [desk, desk, parties_setParty]
  split
  swap
  · exact .same rfl
  next heq =>
  subst heq
  by_cases hk : indexOfQpn qpn = k
  · have ht := hok.2 rfl hk
    refine .post wr qpn hok.1 ht ?_
    have hworker : (((n.parties d).workers a).matcher.toList.filter fun m => indexOfQpn m.qpn = k) =
      [] := by
      simpa [desk, Party.desk, hposting] using ht
    simp only [Party.desk, Desk.post, hq, filter_append, hworker]
    simp [hk, setParty, Net.ctx]
  · refine .same ?_
    rw [if_neg (Ne.symm hk)] at hq
    simp only [Party.desk, hq, hposting]
    simp [hk, setParty, Net.ctx]

theorem appended_append (n : Net) (src dst : ℕ) (msg : RecvWrQpn) (qpn a i : ℕ) :
    ((n.append src dst msg qpn).appended a i).map (·.wr) =
      (n.appended a i).map (·.wr) ++ if src = a ∧ indexOfQpn msg.qpn = i then [msg.wr] else [] := by
  have happended := congrArg Route.appended (n.route_append src dst msg qpn a i)
  simp only [route] at happended
  rw [happended]
  by_cases h : src = a ∧ indexOfQpn msg.qpn = i
  · rw [if_pos ⟨h.1.symm, h.2.symm⟩, if_pos h]
    exact map_append
  · rw [if_neg fun h' => h ⟨h'.1.symm, h'.2.symm⟩, if_neg h, append_nil]

theorem desk_append_self (hk : indexOfQpn qpn = k) (hi : indexOfQpn msg.qpn = i)
    (ht : (n.desk a i d k).threads = []) :
    (n.append a d msg qpn).desk a i d k = (n.desk a i d k).receive msg.wr qpn := by
  have hnone : ((n.parties d).posting.toList.filter fun m => indexOfQpn m.qpn = k) = [] := by
    rw [desk, Party.desk, filter_append] at ht
    exact (append_eq_nil_iff.1 ht).1
  have hparty : (n.append a d msg qpn).parties d = _ :=
    (parties_setParty n d _ d).trans (if_pos rfl)
  rw [desk, hparty, appended_append, if_pos ⟨rfl, hi⟩]
  simp only [Party.desk, queues_setQueues, filter_append, hnone]
  simp [Desk.receive, desk, Party.desk, hk]

theorem desk_append_of_ne (hidle : (n.parties dst).workers src = .idle)
    (hmsg : ¬ (src = a ∧ indexOfQpn msg.qpn = i)) (hplace : (dst, indexOfQpn qpn) ≠ (d, k)) :
    (n.append src dst msg qpn).desk a i d k = n.desk a i d k := by
  have hparty : (n.append src dst msg qpn).parties d = _ := parties_setParty n dst _ d
  rw [desk, hparty, appended_append, if_neg hmsg, append_nil]
  split
  swap
  · rfl
  next heq =>
  subst heq
  have hk : indexOfQpn qpn ≠ k := fun hk => hplace (by rw [hk])
  simp only [desk, Party.desk, queues_setQueues, if_neg (Ne.symm hk)]
  by_cases hsrc : a = src
  · subst hsrc
    simp [hidle, hk]
  · simp [hsrc]

theorem OthersAway.append (h : n.OthersAway a d k) (hplace : src ≠ a → (dst, indexOfQpn qpn) ≠
    (d, k)) : (n.append src dst msg qpn).OthersAway a d k := by
  refine h.setParty fun hd src' hsrc' m hm => ?_
  subst hd
  dsimp only at hm
  rw [update_apply] at hm
  split at hm
  · next heq =>
    subst heq
    obtain rfl := mem_some_iff.1 hm
    exact fun hk => hplace hsrc' (by rw [hk])
  · exact h src' hsrc' m hm

theorem desk_receive {rest : List RecvWrQpn}
    (hidle : (n.parties dst).workers src = .idle) (ho : n.OthersAway a d k)
    (hok : n.FindsDesk a i d k src dst msg) :
    Desk.Moves (n.desk a i d k) ((n.receive src dst msg rest).desk a i d k) ∧
      (n.receive src dst msg rest).OthersAway a d k := by
  rw [receive]
  cases hquery : (n.ctx dst).query msg.qpn src with
  | none =>
    exact ⟨.same rfl, ho⟩
  | some attr =>
    have hplace : (src = a ∧ indexOfQpn msg.qpn = i) ∧ (dst, indexOfQpn attr.qpn) = (d, k) ∧
        (n.desk a i d k).threads = [] ∨
        ¬ (src = a ∧ indexOfQpn msg.qpn = i) ∧ (dst, indexOfQpn attr.qpn) ≠ (d, k) := by
      by_cases h : src = a ∧ indexOfQpn msg.qpn = i
      · rw [FindsDesk, if_pos h, FindsPeer, hquery] at hok
        obtain ⟨hfind, hpeer, ht⟩ := hok
        exact .inl ⟨h, (some.inj hfind).trans hpeer, ht⟩
      · rw [FindsDesk, if_neg h, hquery] at hok
        exact .inr ⟨h, fun heq => hok (congrArg some heq)⟩
    obtain ⟨⟨rfl, hi⟩, hplace, ht⟩ | ⟨hmsg, hplace⟩ := hplace
    · obtain ⟨rfl, hk⟩ := Prod.mk.inj hplace
      exact ⟨.receive msg.wr attr.qpn ht (desk_append_self (n := n.take src dst rest) hk hi ht),
        OthersAway.append (n := n.take src dst rest) ho fun h => absurd rfl h⟩
    · exact ⟨.same (desk_append_of_ne (n := n.take src dst rest) hidle hmsg hplace),
        OthersAway.append (n := n.take src dst rest) ho fun _ => hplace⟩

theorem desk_matching {m : Matcher} (hw : (n.parties dst).workers src = .matching m)
    (ho : n.OthersAway a d k) (halone : (n.desk a i d k).threads.length ≤ 1)
    (hs : n.step (.matching src dst) = some n') :
    Desk.Moves (n.desk a i d k) (n'.desk a i d k) ∧ n'.OthersAway a d k := by
  rw [step, hw] at hs
  cases hs
  constructor
  · rw [desk, desk, parties_setParty]
    split
    swap
    · exact .same rfl
    next heq =>
    subst heq
    by_cases hsrc : src = a
    · subst hsrc
      cases haccess : (n.parties d).access m with
      | none => exact Party.desk_panic haccess hw halone
      | some r => exact Party.desk_worker haccess hw halone
    · have hk := ho src hsrc m (by rw [hw]; rfl)
      refine .same ?_
      cases haccess : (n.parties d).access m with
      | none => simp [Party.desk, setParty, update_of_ne (Ne.symm hsrc)]
      | some r => exact Party.desk_other hsrc haccess hk _
  · refine ho.setParty fun hd src' hsrc' m' hm' => ?_
    subst hd
    dsimp only at hm'
    rw [update_apply] at hm'
    cases haccess : (n.parties dst).access m with
    | none =>
      rw [haccess] at hm'
      split at hm'
      · cases hm'
      · exact ho src' hsrc' m' hm'
    | some r =>
      obtain ⟨hqpn, -, hworkers, -⟩ := Party.access_eq (k := k) haccess
      rw [haccess] at hm'
      split at hm'
      · next heq =>
        subst heq
        rw [map_some, RecvWorker.matcher_next] at hm'
        obtain ⟨-, hm'⟩ := ite_none_left_eq_some.1 hm'
        cases hm'
        rw [hqpn]
        exact ho src' hsrc' m (by rw [hw]; rfl)
      · rw [map_some, getD_some, hworkers] at hm'
        exact ho src' hsrc' m' hm'

/-- **What a step does to a desk** at which one thread matches at a time. -/
theorem desk_moves {l : NetLabel} (ho : n.OthersAway a d k)
    (halone : (n.desk a i d k).threads.length ≤ 1) (hok : n.PairOk a i d k l)
    (hs : n.step l = some n') : Desk.Moves (n.desk a i d k) (n'.desk a i d k) ∧
    n'.OthersAway a d k := by
  cases l with
  | createQp b attr key =>
    obtain ⟨-, hs⟩ := ite_none_left_eq_some.1 hs
    cases hs
    have hq := (n.ctx b).createQp_queues attr key
    generalize ((n.ctx b).createQp attr key).2.1 = ctx at hq
    exact ⟨.same (desk_setCtx hq), ho.setCtx b ctx⟩
  | updateQp b qpn attr connected =>
    obtain ⟨-, hs⟩ := ite_none_left_eq_some.1 hs
    obtain ⟨⟨result, ctx, out⟩, hr, rfl⟩ := map_eq_some_iff.1 hs
    exact ⟨.same (desk_setCtx (updateQp_queues hr)), ho.setCtx b ctx⟩
  | postRecv b qpn wr =>
    obtain ⟨-, hs⟩ := ite_none_left_eq_some.1 hs
    cases hs
    have hdesk := desk_setCtx (a := a) (i := i) (d := d) (k := k) ((n.ctx b).postRecv_queues qpn wr)
    have ho' := ho.setCtx b ((n.ctx b).postRecv qpn wr).2.1
    cases ((n.ctx b).postRecv qpn wr).1 with
    | error e => exact ⟨.same hdesk, ho'⟩
    | ok => exact ⟨.same hdesk, ho'⟩
  | postSend b qpn wr =>
    obtain ⟨hposting, hs⟩ := ite_none_left_eq_some.1 hs
    cases hpush : (n.ctx b).tryPush qpn wr with
    | none =>
      rw [hpush] at hs
      cases hs
      exact ⟨.same rfl, ho⟩
    | some ctx =>
      rw [hpush] at hs
      cases hs
      exact ⟨desk_postSend hpush (by simpa using hposting) hok, ho.setParty fun hb => hb ▸ ho⟩
  | posting b =>
    obtain ⟨m, hm, hs⟩ := bind_eq_some_iff.1 hs
    obtain ⟨⟨m', p⟩, haccess, rfl⟩ := map_eq_some_iff.1 hs
    have hworkers := (Party.access_eq (k := k) haccess).2.2.1
    refine ⟨?_, ho.setParty fun hb => ?_⟩
    · rw [desk, desk, parties_setParty]
      split
      · next heq =>
        subst heq
        exact Party.desk_posting haccess hm halone
      · exact .same rfl
    · subst hb
      rw [hworkers]
      exact ho
  | receive src dst =>
    obtain ⟨hidle, msg, rest, hwire, rfl⟩ := receive_eq hs
    exact desk_receive hidle ho (hok msg (by rw [hwire]; rfl))
  | matching src dst =>
    cases hw : (n.parties dst).workers src with
    | idle | panicked =>
      rw [step, hw] at hs
      cases hs
    | matching m => exact desk_matching hw ho halone hs

end Net

end OpenRdma.Driver
