import OpenRdma.Driver.Peers
import OpenRdma.Foundations.Run

/-!
# No posted receive is lost

The receives of one queue pair are on a `Route`: they wait until the peer is known, are sent to it,
and are appended to the queue of the queue pair its worker finds. Each step of the network is a step
of the route of every queue pair (`Net.route_calls`, `Net.route_receive`).
-/

namespace OpenRdma.Driver

open List Option Function HwDeviceCtx

/-! ## The way of a receive -/

/-- What there is of the receives posted to one queue pair: the address they are sent to if it is
known, those that wait for it, those on the connections by address, those posted and those
appended. -/
@[ext]
structure Route where
  tx : Option ℕ
  pending : List RecvWr
  onWire : ℕ → List RecvWr
  posted : List RecvWr
  appended : List Appended

namespace Route

/-- The address becomes known, and the receives that waited are sent. -/
def connect (r : Route) (d : ℕ) : Route :=
  { r with tx := some d, pending := [], onWire :=
    Function.update r.onWire d (r.onWire d ++ r.pending) }

/-- A receive is posted and sent. -/
def postTo (r : Route) (d : ℕ) (wr : RecvWr) : Route :=
  { r with posted := r.posted ++ [wr], onWire := update r.onWire d (r.onWire d ++ [wr]) }

/-- A receive is posted and waits. -/
def postPending (r : Route) (wr : RecvWr) : Route :=
  { r with posted := r.posted ++ [wr], pending := r.pending ++ [wr] }

def take (r : Route) (d : ℕ) (rest : List RecvWr) : Route :=
  { r with onWire := update r.onWire d rest }

def append (r : Route) (x : Appended) : Route := { r with appended := r.appended ++ [x] }

/-- The steps of a route that no worker takes. -/
inductive Calls (r r' : Route) : Prop
  | same (h : r' = r)
  | connect (d : ℕ) (htx : r.tx = none) (h : r' = r.connect d)
  | postTo (d : ℕ) (wr : RecvWr) (htx : r.tx = some d) (h : r' = r.postTo d wr)
  | postPending (wr : RecvWr) (htx : r.tx = none) (h : r' = r.postPending wr)

/-- Receives are only on the connection to the known address, and none waits once it is known. -/
structure Routed (r : Route) : Prop where
  stray : ∀ d, r.tx ≠ some d → r.onWire d = []
  flushed : r.tx ≠ none → r.pending = []

def inFlight (r : Route) : List RecvWr := r.tx.elim [] r.onWire

/-- **Every receive posted was appended once, in order, to the queue of the peer, or is on its
way.** -/
structure Delivers (r : Route) : Prop where
  accounted : r.posted = r.appended.map (·.wr) ++ r.inFlight ++ r.pending
  places : ∀ x ∈ r.appended, x.place = x.peer

variable {r r' : Route}

theorem Routed.calls (h : r.Routed) (hs : Calls r r') : r'.Routed := by
  rcases hs with rfl | ⟨d, htx, rfl⟩ | ⟨d, wr, htx, rfl⟩ | ⟨wr, htx, rfl⟩
  · exact h
  · refine ⟨fun d' hne => ?_, fun _ => rfl⟩
    have hne : d' ≠ d := fun heq => hne (heq ▸ rfl)
    exact (update_of_ne hne ..).trans (h.stray d' (by rw [htx]; simp))
  · refine ⟨fun d' hne => ?_, h.flushed⟩
    have hne' : d' ≠ d := fun heq => hne (heq ▸ htx)
    exact (update_of_ne hne' ..).trans (h.stray d' hne)
  · exact ⟨h.stray, fun hne => absurd htx hne⟩

theorem Delivers.calls (h : r.Delivers) (hr : r.Routed) (hs : Calls r r') : r'.Delivers := by
  rcases hs with rfl | ⟨d, htx, rfl⟩ | ⟨d, wr, htx, rfl⟩ | ⟨wr, htx, rfl⟩
  · exact h
  · refine ⟨?_, h.places⟩
    have hacc := h.accounted
    rw [inFlight, htx, elim_none, append_nil] at hacc
    have hwire : r.onWire d = [] := hr.stray d (by rw [htx]; simp)
    simp only [Route.connect, inFlight, elim_some, update_self, hwire, append_nil]
    exact hacc
  · refine ⟨?_, h.places⟩
    have hacc := h.accounted
    have hnone : r.pending = [] := hr.flushed (by rw [htx]; simp)
    simp only [Route.postTo, inFlight, htx, elim_some, update_self, hnone, append_nil, hacc,
      append_assoc]
  · refine ⟨?_, h.places⟩
    have hacc := h.accounted
    simp only [Route.postPending, inFlight, hacc, append_assoc]

section Take

variable {d : ℕ} {wr : RecvWr} {rest : List RecvWr}

theorem Routed.tx_eq (h : r.Routed) (hd : r.onWire d = wr :: rest) : r.tx = some d := by
  by_contra hne
  rw [h.stray d hne] at hd
  cases hd

theorem Routed.take (h : r.Routed) (hd : r.onWire d = wr :: rest) : (r.take d rest).Routed := by
  refine ⟨fun d' hne => ?_, h.flushed⟩
  have hne' : d' ≠ d := by
    rintro rfl
    exact hne (h.tx_eq hd)
  exact (update_of_ne hne' ..).trans (h.stray d' hne)

theorem inFlight_take (hr : r.Routed) (hd : r.onWire d = wr :: rest) :
    r.inFlight = wr :: rest ∧ (r.take d rest).inFlight = rest := by
  have htx := hr.tx_eq hd
  refine ⟨?_, ?_⟩
  · rw [inFlight, htx, elim_some, hd]
  · simp only [Route.take, inFlight, htx, elim_some, update_self]

theorem delivers_append_iff (h : r.Delivers) (hr : r.Routed) (hd : r.onWire d = wr :: rest)
    {x : Appended} (hx : x.wr = wr) : ((r.take d rest).append x).Delivers ↔ x.place = x.peer := by
  obtain ⟨hflight, hflight'⟩ := inFlight_take hr hd
  constructor
  · exact fun h' => h'.places x (mem_append_right _ mem_cons_self)
  · intro hplace
    refine ⟨?_, fun y hy => ?_⟩
    · have hacc := h.accounted
      rw [hflight] at hacc
      have hflight'' : ((r.take d rest).append x).inFlight = rest := hflight'
      rw [hflight'']
      simp only [Route.append, Route.take, map_append, map_cons, map_nil, hx, hacc,
        append_assoc, cons_append, nil_append]
    · rcases mem_append.1 hy with hy | hy
      · exact h.places y hy
      · exact mem_singleton.1 hy ▸ hplace

end Take

end Route

/-! ## What the steps do to the routes -/

namespace HwDeviceCtx

variable {ctx ctx' : HwDeviceCtx} {qpn : ℕ}

theorem createQp_frame (ctx : HwDeviceCtx) (attr : IbvQpInitAttr) (key : ℕ) :
    (ctx.createQp attr key).2.1.postRecvTxTable = ctx.postRecvTxTable ∧
      (ctx.createQp attr key).2.1.pendingPostRecvQueue = ctx.pendingPostRecvQueue := by
  unfold createQp
  split <;> exact ⟨rfl, rfl⟩

theorem connectQp_tcp (ctx : HwDeviceCtx) (qpn : ℕ) (connected : Except RdmaError Unit) :
    ((ctx.connectQp qpn connected).2.1.postRecvTxTable = ctx.postRecvTxTable ∧
      (ctx.connectQp qpn connected).2.1.pendingPostRecvQueue = ctx.pendingPostRecvQueue ∧
      (ctx.connectQp qpn connected).2.2 = []) ∨
      ∃ ip, ctx.postRecvTxTable (indexOfQpn qpn) = none ∧
        (ctx.connectQp qpn connected).2.1.postRecvTxTable =
          update ctx.postRecvTxTable (indexOfQpn qpn) (some ip) ∧
        (ctx.connectQp qpn connected).2.1.pendingPostRecvQueue =
          update ctx.pendingPostRecvQueue (indexOfQpn qpn) [] ∧
        (ctx.connectQp qpn connected).2.2 =
          (ctx.pendingPostRecvQueue (indexOfQpn qpn)).map fun wr => (ip, ⟨wr, qpn⟩) := by
  unfold connectQp
  dsimp only
  split
  · next hconn =>
    split
    · exact .inl ⟨rfl, rfl, rfl⟩
    · exact .inr ⟨_, hconn.2.2, rfl, rfl, rfl⟩
  · exact .inl ⟨rfl, rfl, rfl⟩

theorem updateQp_tcp {attr : IbvQpAttr} {connected result : Except RdmaError Unit} {out : CtxOutput}
    (h : ctx.updateQp qpn attr connected = some (result, ctx', out)) :
    (ctx'.postRecvTxTable = ctx.postRecvTxTable ∧ ctx'.pendingPostRecvQueue =
      ctx.pendingPostRecvQueue ∧ out.tcp = []) ∨
      ∃ ip, ctx.postRecvTxTable (indexOfQpn qpn) = none ∧
        ctx'.postRecvTxTable = update ctx.postRecvTxTable (indexOfQpn qpn) (some ip) ∧
        ctx'.pendingPostRecvQueue = update ctx.pendingPostRecvQueue (indexOfQpn qpn) [] ∧
        out.tcp = (ctx.pendingPostRecvQueue (indexOfQpn qpn)).map fun wr => (ip, ⟨wr, qpn⟩) := by
  unfold updateQp at h
  split at h
  · obtain ⟨ipAddr, -, h⟩ := map_eq_some_iff.1 h
    obtain ⟨-, rfl, rfl⟩ := h
    exact connectQp_tcp _ qpn connected
  · obtain ⟨-, rfl, rfl⟩ := h
    exact .inl ⟨rfl, rfl, rfl⟩

theorem postRecv_cases (ctx : HwDeviceCtx) (qpn : ℕ) (wr : RecvWr) :
    (∃ e, ctx.postRecv qpn wr = (.error e, ctx, {})) ∨
      (∃ ip out, ctx.postRecvTxTable (indexOfQpn qpn) = some ip ∧
        ctx.postRecv qpn wr = (.ok (), ctx, out) ∧ out.tcp = [(ip, ⟨wr, qpn⟩)]) ∨
      ∃ out, ctx.postRecvTxTable (indexOfQpn qpn) = none ∧
        ctx.postRecv qpn wr = (.ok (),
          { ctx with
            pendingPostRecvQueue := update ctx.pendingPostRecvQueue (indexOfQpn qpn)
              (ctx.pendingPostRecvQueue (indexOfQpn qpn) ++ [wr]) }, out) ∧ out.tcp = [] := by
  unfold postRecv
  split
  · cases htx : ctx.postRecvTxTable (indexOfQpn qpn) with
    | some ip => exact .inr (.inl ⟨ip, _, rfl, rfl, rfl⟩)
    | none => exact .inr (.inr ⟨_, rfl, rfl, rfl⟩)
  · exact .inl ⟨_, rfl⟩

end HwDeviceCtx

namespace Net

/-- The receives of a queue pair on a connection. -/
def onWire (wire : List RecvWrQpn) (i : ℕ) : List RecvWr :=
  (wire.filter fun msg => indexOfQpn msg.qpn = i).map (·.wr)

/-- The receives posted to the queue pair `i` of the party `a`. -/
def route (n : Net) (a i : ℕ) : Route where
  tx := (n.ctx a).postRecvTxTable i
  pending := (n.ctx a).pendingPostRecvQueue i
  onWire d := onWire (n.wire a d) i
  posted := n.posted a i
  appended := n.appended a i

variable {n n' : Net}
variable {a src dst : ℕ} {p : Party} {ctx : HwDeviceCtx} {l : NetLabel} {msg : RecvWrQpn}
  {rest : List RecvWrQpn}

@[simp] theorem onWire_nil (i : ℕ) : onWire [] i = [] := rfl

theorem onWire_append (l l' : List RecvWrQpn) (i : ℕ) :
    onWire (l ++ l') i = onWire l i ++ onWire l' i := by
  rw [onWire, filter_append, map_append]
  rfl

theorem onWire_cons (msg : RecvWrQpn) (l : List RecvWrQpn) (i : ℕ) :
    onWire (msg :: l) i = if indexOfQpn msg.qpn = i then msg.wr :: onWire l i else onWire l i := by
  by_cases h : indexOfQpn msg.qpn = i <;> simp [onWire, h]

theorem onWire_sent (wrs : List RecvWr) (ip qpn d i : ℕ) :
    onWire (((wrs.map fun wr => (ip, (⟨wr, qpn⟩ : RecvWrQpn))).filter fun x => x.1 = d).map (·.2))
    i =
      if ip = d ∧ indexOfQpn qpn = i then wrs else [] := by
  induction wrs with
  | nil => simp
  | cons wr wrs ih =>
    rw [map_cons]
    by_cases hd : ip = d
    · rw [filter_cons_of_pos (by simpa using hd), map_cons, onWire_cons, ih]
      by_cases hi : indexOfQpn qpn = i <;> simp [hd, hi]
    · rw [filter_cons_of_neg (by simpa using hd), ih, if_neg fun h => hd h.1,
        if_neg fun h => hd h.1]

@[simp] theorem ctx_setCtx (n : Net) (a b : ℕ) (ctx : HwDeviceCtx) :
    (n.setCtx a ctx).ctx b = if b = a then ctx else n.ctx b := by
  rw [Net.ctx, setCtx, setParty]
  dsimp only
  rw [update_apply]
  split <;> rfl

theorem route_setParty (htx : p.ctx.postRecvTxTable = (n.ctx a).postRecvTxTable)
    (hpending : p.ctx.pendingPostRecvQueue = (n.ctx a).pendingPostRecvQueue) (b i : ℕ) :
    (n.setParty a p).route b i = n.route b i := by
  have hctx : ∀ b, ((n.setParty a p).ctx b).postRecvTxTable = (n.ctx b).postRecvTxTable ∧
      ((n.setParty a p).ctx b).pendingPostRecvQueue = (n.ctx b).pendingPostRecvQueue := by
    intro b
    rw [Net.ctx, setParty]
    dsimp only
    rw [update_apply]
    split
    · next heq => exact heq ▸ ⟨htx, hpending⟩
    · exact ⟨rfl, rfl⟩
  rw [route, (hctx b).1, (hctx b).2]
  rfl

theorem route_send_self (n : Net) (a : ℕ) (ctx : HwDeviceCtx) (tcp : List (ℕ × RecvWrQpn)) (i : ℕ) :
    ((n.setCtx a ctx).send a tcp).route a i =
      ⟨ctx.postRecvTxTable i, ctx.pendingPostRecvQueue i,
        fun d => onWire (n.wire a d) i ++ onWire ((tcp.filter fun x => x.1 = d).map (·.2)) i,
        n.posted a i, n.appended a i⟩ := by
  have hctx : ((n.setCtx a ctx).send a tcp).ctx a = ctx := (ctx_setCtx n a a ctx).trans (if_pos rfl)
  rw [route, hctx]
  simp only [send, setCtx, setParty, update_self, onWire_append]

theorem route_send_of_ne (n : Net) {b : ℕ} (hb : b ≠ a) (ctx : HwDeviceCtx)
    (tcp : List (ℕ × RecvWrQpn)) (i : ℕ) : ((n.setCtx a ctx).send a tcp).route b i =
    n.route b i := by
  have hctx : ((n.setCtx a ctx).send a tcp).ctx b = n.ctx b :=
    (ctx_setCtx n a b ctx).trans (if_neg hb)
  rw [route, hctx]
  simp only [send, setCtx, setParty, route, update_of_ne hb]

theorem route_send_nil (htx : ctx.postRecvTxTable = (n.ctx a).postRecvTxTable)
    (hpending : ctx.pendingPostRecvQueue = (n.ctx a).pendingPostRecvQueue) (b i : ℕ) :
    ((n.setCtx a ctx).send a []).route b i = n.route b i := by
  by_cases hb : b = a
  · subst hb
    rw [route_send_self, htx, hpending]
    simp [route]
  · exact route_send_of_ne n hb ctx [] i

theorem calls_connect {qpn ip : ℕ} (htx : (n.ctx a).postRecvTxTable (indexOfQpn qpn) = none)
    (htx' : ctx.postRecvTxTable = Function.update (n.ctx a).postRecvTxTable
      (indexOfQpn qpn) (some ip))
    (hpending : ctx.pendingPostRecvQueue =
      Function.update (n.ctx a).pendingPostRecvQueue (indexOfQpn qpn) []) (b i : ℕ) :
    Route.Calls (n.route b i) (((n.setCtx a ctx).send a
      (((n.ctx a).pendingPostRecvQueue (indexOfQpn qpn)).map fun wr => (ip, ⟨wr, qpn⟩))).route b
      i) := by
  by_cases hb : b = a
  swap
  · exact .same (route_send_of_ne n hb ctx _ i)
  subst hb
  rw [route_send_self]
  simp only [onWire_sent, htx', hpending]
  by_cases hi : indexOfQpn qpn = i
  · subst hi
    refine .connect ip htx (Route.ext (update_self ..) (update_self ..) ?_ rfl rfl)
    funext d
    simp only [Route.connect, route]
    by_cases hd : ip = d
    · rw [if_pos ⟨hd, trivial⟩, hd, update_self]
    · rw [if_neg fun h => hd h.1, update_of_ne (Ne.symm hd), append_nil]
  · refine .same (Route.ext (update_of_ne (Ne.symm hi) ..) (update_of_ne (Ne.symm hi) ..)
      ?_ rfl rfl)
    funext d
    dsimp only
    rw [if_neg fun h => hi h.2, append_nil]
    rfl

theorem route_recordPosted (n : Net) (a qpn : ℕ) (wr : RecvWr) (b i : ℕ) :
    (n.recordPosted a qpn wr (.ok ())).route b i =
      if b = a ∧ indexOfQpn qpn = i then { n.route b i with posted := n.posted b i ++ [wr] }
      else n.route b i := by
  rw [recordPosted]
  by_cases hb : b = a
  · subst hb
    by_cases hi : indexOfQpn qpn = i
    · subst hi
      rw [if_pos ⟨rfl, rfl⟩]
      exact Route.ext rfl rfl rfl (by simp [route]) rfl
    · rw [if_neg fun h => hi h.2]
      exact Route.ext rfl rfl rfl (by simp [route, Ne.symm hi]) rfl
  · rw [if_neg fun h => hb h.1]
    exact Route.ext rfl rfl rfl (by simp [route, hb]) rfl

theorem calls_postTo {qpn ip : ℕ} {wr : RecvWr}
    (htx : (n.ctx a).postRecvTxTable (indexOfQpn qpn) = some ip) (b i : ℕ) :
    Route.Calls (n.route b i)
      ((((n.setCtx a (n.ctx a)).send a [(ip, ⟨wr, qpn⟩)]).recordPosted a qpn wr (.ok ())).route b
        i) := by
  rw [route_recordPosted]
  by_cases hb : b = a
  swap
  · rw [if_neg fun h => hb h.1]
    exact .same (route_send_of_ne n hb _ _ i)
  subst hb
  have hsent := onWire_sent [wr] ip qpn
  rw [map_singleton] at hsent
  by_cases hi : indexOfQpn qpn = i
  · subst hi
    rw [if_pos ⟨rfl, rfl⟩, route_send_self]
    refine .postTo ip wr htx (Route.ext rfl rfl ?_ rfl rfl)
    funext d
    simp only [hsent, Route.postTo, route]
    by_cases hd : ip = d
    · rw [if_pos ⟨hd, trivial⟩, hd, update_self]
    · rw [if_neg fun h => hd h.1, update_of_ne (Ne.symm hd), append_nil]
  · rw [if_neg fun h => hi h.2, route_send_self]
    refine .same (Route.ext rfl rfl ?_ rfl rfl)
    funext d
    dsimp only
    rw [hsent, if_neg fun h => hi h.2, append_nil]
    rfl

theorem calls_postPending {qpn : ℕ} {wr : RecvWr}
    (htx : (n.ctx a).postRecvTxTable (indexOfQpn qpn) = none) (htx' : ctx.postRecvTxTable =
    (n.ctx a).postRecvTxTable) (hpending : ctx.pendingPostRecvQueue =
    update (n.ctx a).pendingPostRecvQueue (indexOfQpn qpn)
      ((n.ctx a).pendingPostRecvQueue (indexOfQpn qpn) ++ [wr])) (b i : ℕ) :
      Route.Calls (n.route b i) ((((n.setCtx a ctx).send a []).recordPosted a qpn wr (.ok ())).route
      b i) := by
  rw [route_recordPosted]
  by_cases hb : b = a
  swap
  · rw [if_neg fun h => hb h.1]
    exact .same (route_send_of_ne n hb _ _ i)
  subst hb
  have hnil : (fun d => onWire (n.wire b d) i ++
      onWire ((([] : List (ℕ × RecvWrQpn)).filter fun x => x.1 = d).map (·.2)) i) =
        (n.route b i).onWire := by
    funext d
    exact append_nil _
  by_cases hi : indexOfQpn qpn = i
  · subst hi
    rw [if_pos ⟨rfl, rfl⟩, route_send_self, htx', hpending, update_self]
    exact .postPending wr htx (Route.ext rfl rfl hnil rfl rfl)
  · rw [if_neg fun h => hi h.2, route_send_self, htx', hpending, update_of_ne (Ne.symm hi)]
    exact .same (Route.ext rfl rfl hnil rfl rfl)

theorem access_frame {p' : Party} {m m' : Matcher} (h : p.access m = some (m', p')) :
    p'.ctx.postRecvTxTable = p.ctx.postRecvTxTable ∧
      p'.ctx.pendingPostRecvQueue = p.ctx.pendingPostRecvQueue := by
  obtain ⟨r, -, h⟩ := map_eq_some_iff.1 h
  obtain ⟨-, rfl⟩ := Prod.mk.inj h
  exact ⟨rfl, rfl⟩

/-- **What a step does to the receives of a queue pair**, if no receive is taken from a
connection. -/
theorem route_calls (hs : n.step l = some n') (hl : ∀ src dst, l ≠ .receive src dst) (b i : ℕ) :
    Route.Calls (n.route b i) (n'.route b i) := by
  cases l with
  | createQp a attr key =>
    obtain ⟨-, hs⟩ := ite_none_left_eq_some.1 hs
    cases hs
    have hframe := (n.ctx a).createQp_frame attr key
    generalize ((n.ctx a).createQp attr key).2.1 = ctx at hframe
    refine .same (route_setParty ?_ ?_ b i)
    · exact hframe.1
    · exact hframe.2
  | updateQp a qpn attr connected =>
    obtain ⟨-, hs⟩ := ite_none_left_eq_some.1 hs
    obtain ⟨⟨result, ctx, out⟩, hr, rfl⟩ := map_eq_some_iff.1 hs
    obtain ⟨htx, hpending, htcp⟩ | ⟨ip, htx, htx', hpending, htcp⟩ := updateQp_tcp hr
    · rw [htcp]
      exact .same (route_send_nil htx hpending b i)
    · rw [htcp]
      exact calls_connect htx htx' hpending b i
  | postRecv a qpn wr =>
    obtain ⟨-, hs⟩ := ite_none_left_eq_some.1 hs
    cases hs
    obtain ⟨e, hr⟩ | ⟨ip, out, htx, hr, htcp⟩ | ⟨out, htx, hr, htcp⟩ :=
      (n.ctx a).postRecv_cases qpn wr
    · rw [hr]
      exact .same (route_send_nil rfl rfl b i)
    · rw [hr, htcp]
      exact calls_postTo htx b i
    · rw [hr, htcp]
      refine calls_postPending htx ?_ ?_ b i
      · rfl
      · rfl
  | postSend a qpn wr =>
    obtain ⟨-, hs⟩ := ite_none_left_eq_some.1 hs
    cases hpush : (n.ctx a).tryPush qpn wr with
    | none =>
      rw [hpush] at hs
      cases hs
      exact .same rfl
    | some ctx =>
      rw [hpush] at hs
      cases hs
      obtain ⟨-, rfl⟩ := ite_some_none_eq_some.1 hpush
      refine .same (route_setParty ?_ ?_ b i) <;> rfl
  | posting a =>
    obtain ⟨m, -, hs⟩ := bind_eq_some_iff.1 hs
    obtain ⟨⟨m', p⟩, haccess, rfl⟩ := map_eq_some_iff.1 hs
    obtain ⟨htx, hpending⟩ := access_frame haccess
    refine .same (route_setParty ?_ ?_ b i)
    · exact htx
    · exact hpending
  | receive src dst => exact absurd rfl (hl src dst)
  | matching src dst =>
    rw [step] at hs
    cases hw : (n.parties dst).workers src with
    | idle | panicked =>
      rw [hw] at hs
      cases hs
    | matching m =>
      rw [hw] at hs
      cases hs
      refine .same (route_setParty ?_ ?_ b i) <;> cases haccess : (n.parties dst).access m with
      | none => rfl
      | some r =>
        first
        | exact (access_frame haccess).1
        | exact (access_frame haccess).2

theorem receive_eq (hs : n.step (.receive src dst) = some n') :
    (n.parties dst).workers src = .idle ∧
      ∃ msg rest, n.wire src dst = msg :: rest ∧ n' = n.receive src dst msg rest := by
  rw [step] at hs
  cases hw : (n.parties dst).workers src with
  | matching m | panicked =>
    rw [hw] at hs
    cases hs
  | idle =>
    rw [hw] at hs
    cases hwire : n.wire src dst with
    | nil =>
      rw [hwire] at hs
      cases hs
    | cons msg rest =>
      rw [hwire] at hs
      exact ⟨rfl, msg, rest, rfl, (some.inj hs).symm⟩

theorem route_take (hwire : n.wire src dst = msg :: rest) (b i : ℕ) :
    (n.take src dst rest).route b i =
      if b = src ∧ i = indexOfQpn msg.qpn then (n.route b i).take dst (onWire rest i)
        else n.route b i := by
  by_cases hb : b = src
  · subst hb
    by_cases hi : i = indexOfQpn msg.qpn
    · rw [if_pos ⟨rfl, hi⟩]
      refine Route.ext rfl rfl ?_ rfl rfl
      funext d
      simp only [route, take, Route.take, update_self]
      by_cases hd : d = dst
      · rw [hd, update_self, update_self]
      · rw [update_of_ne hd, update_of_ne hd]
    · rw [if_neg fun h => hi h.2]
      refine Route.ext rfl rfl ?_ rfl rfl
      funext d
      simp only [route, take, update_self]
      by_cases hd : d = dst
      · rw [hd, update_self, hwire, onWire_cons, if_neg (Ne.symm hi)]
      · rw [update_of_ne hd]
  · rw [if_neg fun h => hb h.1]
    refine Route.ext rfl rfl ?_ rfl rfl
    simp only [route, take, update_of_ne hb]

theorem route_append (n : Net) (src dst : ℕ) (msg : RecvWrQpn) (qpn b i : ℕ) :
    (n.append src dst msg qpn).route b i =
      if b = src ∧ i = indexOfQpn msg.qpn then
        (n.route b i).append ⟨msg.wr, (dst, indexOfQpn qpn), n.peerOf src msg.qpn⟩
      else n.route b i := by
  have hframe := route_setParty (n := n) (a := dst) (p := { n.parties dst with
      ctx := (n.ctx dst).setQueues (indexOfQpn qpn)
        { (n.ctx dst).queues (indexOfQpn qpn) with
          recvWr := ((n.ctx dst).queues (indexOfQpn qpn)).recvWr ++ [msg.wr] }
      workers := update (n.parties dst).workers src (.matching { qpn := qpn }) }) rfl rfl b i
  have htx := congrArg Route.tx hframe
  have hpending := congrArg Route.pending hframe
  by_cases h : b = src ∧ i = indexOfQpn msg.qpn
  · obtain ⟨rfl, rfl⟩ := h
    rw [if_pos ⟨rfl, rfl⟩]
    refine Route.ext htx hpending rfl rfl ?_
    simp [route, append, Route.append]
  · rw [if_neg h]
    refine Route.ext htx hpending rfl rfl ?_
    by_cases hb : b = src
    · have hi : i ≠ indexOfQpn msg.qpn := fun hi => h ⟨hb, hi⟩
      simp [route, append, hb, hi]
    · simp [route, append, hb]

/-! ## No receive is lost -/

/-- Every receive posted was appended once to the queue of the peer, or is on its way. -/
def Delivers (n : Net) : Prop := ∀ a i, (n.route a i).Delivers

/-- The queue pair a worker finds for a receive is the one that the queue pair it was posted to is
connected to. -/
def FindsPeer (n : Net) (src dst : ℕ) (msg : RecvWrQpn) : Prop :=
  ((n.ctx dst).query msg.qpn src).map (fun attr => (dst, indexOfQpn attr.qpn)) =
    some (n.peerOf src msg.qpn)

instance (n : Net) (src dst : ℕ) (msg : RecvWrQpn) : Decidable (n.FindsPeer src dst msg) :=
  inferInstanceAs (Decidable (_ = _))

/-- A receive is taken from a connection only when its queue pair is found. -/
def Ok (n : Net) : NetLabel → Prop
  | .receive src dst => ∀ msg ∈ (n.wire src dst).head?, n.FindsPeer src dst msg
  | _ => True

instance (n : Net) (l : NetLabel) : Decidable (n.Ok l) := by
  unfold Ok
  split <;> infer_instance

theorem route_receive (hwire : n.wire src dst = msg :: rest) (b i : ℕ) :
    (n.receive src dst msg rest).route b i =
      if b = src ∧ i = indexOfQpn msg.qpn then
        match (n.ctx dst).query msg.qpn src with
        | none => (n.route b i).take dst (onWire rest i)
        | some attr => ((n.route b i).take dst (onWire rest i)).append
            ⟨msg.wr, (dst, indexOfQpn attr.qpn), n.peerOf src msg.qpn⟩
      else n.route b i := by
  have htake := route_take hwire b i
  rw [receive]
  cases (n.ctx dst).query msg.qpn src with
  | none => exact htake
  | some attr =>
    rw [route_append, htake]
    by_cases h : b = src ∧ i = indexOfQpn msg.qpn
    · rw [if_pos h, if_pos h, if_pos h]
      rfl
    · rw [if_neg h, if_neg h, if_neg h]

theorem onWire_route (hwire : n.wire src dst = msg :: rest) :
    (n.route src (indexOfQpn msg.qpn)).onWire dst = msg.wr :: onWire rest (indexOfQpn msg.qpn) := by
  simp only [route]
  rw [hwire, onWire_cons, if_pos rfl]

theorem routed_step (hr : ∀ a i, (n.route a i).Routed) (hs : n.step l = some n') (a i : ℕ) :
    (n'.route a i).Routed := by
  by_cases hl : ∃ src dst, l = .receive src dst
  · obtain ⟨src, dst, rfl⟩ := hl
    obtain ⟨-, msg, rest, hwire, rfl⟩ := receive_eq hs
    rw [route_receive hwire]
    split
    · next h =>
      obtain ⟨rfl, rfl⟩ := h
      have htake := (hr a _).take (onWire_route hwire)
      split
      · exact htake
      · exact ⟨htake.stray, htake.flushed⟩
    · exact hr a i
  · exact (hr a i).calls (route_calls hs (fun src dst h => hl ⟨src, dst, h⟩) a i)

/-- No request waits, and no thread matches more than the empty queue. -/
structure Quiet (p : Party) : Prop where
  posting : p.posting = none
  pending : ∀ i, p.ctx.pendingSendQueueTable i = []
  workers : ∀ src, p.workers src = .idle ∨ ∃ qpn taken, p.workers src =
    .matching ⟨qpn, .peek, taken⟩

theorem Quiet.setCtx (hq : ∀ a, Quiet (n.parties a))
    (hctx : ctx.pendingSendQueueTable = (n.ctx a).pendingSendQueueTable) (b : ℕ) :
    Quiet ((n.setCtx a ctx).parties b) := by
  rw [Net.setCtx, setParty]
  dsimp only
  rw [update_apply]
  split
  · refine ⟨(hq a).posting, fun i => ?_, (hq a).workers⟩
    exact (congrFun hctx i).trans ((hq a).pending i)
  · exact hq b

theorem Quiet.setParty (hq : ∀ a, Quiet (n.parties a)) (hp : Quiet p) (b : ℕ) :
    Quiet ((n.setParty a p).parties b) := by
  rw [Net.setParty]
  dsimp only
  rw [update_apply]
  split
  · exact hp
  · exact hq b

theorem Quiet.access (hp : Quiet p) (qpn : ℕ) (taken : Option RecvWr) :
    ∃ p', p.access ⟨qpn, .peek, taken⟩ = some (⟨qpn, .done (.ok ()), taken⟩, p') ∧ Quiet p' := by
  have hempty := hp.pending (indexOfQpn qpn)
  have hstep : (⟨qpn, .peek, taken⟩ : Matcher).step (p.ctx.queues (indexOfQpn qpn)) =
      some (⟨qpn, .done (.ok ()), taken⟩, p.ctx.queues (indexOfQpn qpn), []) := by
    simp only [queues, hempty]
    rfl
  rw [Party.access, hstep]
  refine ⟨_, rfl, hp.posting, fun i => ?_, hp.workers⟩
  simp only [setQueues, queues, update_eq_self]
  exact hp.pending i

theorem Quiet.ready (hq : ∀ a, Quiet (n.parties a)) (src dst : ℕ) :
    (n.parties dst).workers src = .idle ∨
      ∃ n', n.step (.matching src dst) = some n' ∧ (n'.parties dst).workers src = .idle := by
  obtain hw | ⟨qpn, taken, hw⟩ := (hq dst).workers src
  · exact .inl hw
  · obtain ⟨p', haccess, -⟩ := (hq dst).access qpn taken
    refine .inr ⟨_, by rw [step, hw], ?_⟩
    rw [Net.setParty, haccess]
    simp only [update_self]
    rfl

end Net

/-- A receive of 64 bytes. -/
def sampleRecv (wrId : ℕ) : RecvWr := ⟨wrId, 0x1000, 64, 0, sampleAddr_lt⟩

/-- The queue pair of the party `a` is connected to that of the party `b`. -/
def connectTo (a b : ℕ) : NetLabel :=
  .updateQp a 0x100 { qpState := some .rtr, destQpNum := some 0x100, destQpIp := some b } (.ok ())

/-- The parties 1 and 2 create a queue pair each. -/
def createBoth : List NetLabel := [.createQp 1 ⟨2, some 0, some 0⟩ 0,
    .createQp 2 ⟨2, some 0, some 0⟩ 0]

end OpenRdma.Driver
