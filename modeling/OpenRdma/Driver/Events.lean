import Mathlib.Data.List.TakeWhile
import OpenRdma.Driver.Completion
import OpenRdma.Foundations.Run

/-!
# The order of events

The completion worker keeps events sorted by the circular order of their message numbers. A `Ranked`
event carries the unbounded numbers its metadata stands for, and within half a circle the tracker is
a list sorted by them: `append` inserts at the place of the number or drops a second event of the
same message (`append_new`, `append_old`), and `drain` pops the events that end at the base or
before it (`drain_eq`). What the polling loops return is described by `pollSendLoop_spec` and
`pollRecvLoop_spec`.
-/

namespace OpenRdma.Driver

open EventMeta List Option MergeQueue

/-! ## Ranked events -/

/-- An event with the unbounded numbers its metadata stands for. -/
structure Ranked (E : Type) [EventMeta E] where
  event : E
  msn : ℤ
  fin : ℤ
  messageMeta_eq : messageMeta event = ⟨Msn.wrap msn, Psn.wrap fin⟩

variable {E : Type} [EventMeta E]

namespace Ranked

/-- The two events are less than half a circle of message numbers apart. -/
def Near (r x : Ranked E) : Prop := x.msn - r.msn < 2 ^ 15 ∧ r.msn - x.msn < 2 ^ 15

theorem msn_lt_iff {r x : Ranked E} (h : r.Near x) :
    (messageMeta r.event).msn < (messageMeta x.event).msn ↔ r.msn < x.msn := by
  rw [r.messageMeta_eq, x.messageMeta_eq]
  exact Msn.wrap_lt_wrap h.1 h.2.le

theorem msn_eq_iff {r x : Ranked E} (h : r.Near x) :
    (messageMeta r.event).msn = (messageMeta x.event).msn ↔ r.msn = x.msn := by
  obtain ⟨h₁, h₂⟩ := h
  rw [r.messageMeta_eq, x.messageMeta_eq]
  exact ⟨fun he => Msn.wrap_inj he (by omega) (by omega), fun he => congrArg Msn.wrap he⟩

theorem lt_of_mem_dropWhile {rs : List (Ranked E)} {r : Ranked E} {b : ℤ}
    (hs : rs.Pairwise (·.fin ≤ ·.fin)) (hr : r ∈ rs.dropWhile (·.fin ≤ b)) : b < r.fin := by
  induction rs with
  | nil => cases hr
  | cons x rs ih =>
    rw [pairwise_cons] at hs
    rw [dropWhile_cons] at hr
    split_ifs at hr with hx
    · exact ih hs.2 hr
    · have hb : b < x.fin := by simpa using hx
      rcases mem_cons.1 hr with rfl | hr
      · exact hb
      · exact hb.trans_le (hs.1 r hr)

end Ranked

namespace MessageTracker

variable {t : MessageTracker E} {A B : List E} {event : E}

omit [EventMeta E] in
theorem insertIdx_append (A B : List E) (event : E) :
    (A ++ B).insertIdx A.length event = A ++ event :: B := by
  induction A with
  | nil => exact insertIdx_zero
  | cons a A ih => rw [cons_append, length_cons, insertIdx_succ_cons, ih, cons_append]

theorem findIdx_reverse (hA : ∀ e ∈ A, (messageMeta e).msn < (messageMeta event).msn)
    (hB : ∀ e ∈ B, ¬ (messageMeta e).msn < (messageMeta event).msn) :
    ((A ++ B).reverse.findIdx? fun e => (messageMeta e).msn < (messageMeta event).msn).getD
      (A ++ B).length = B.length := by
  have hnone : B.reverse.findIdx? (fun e => decide ((messageMeta e).msn <
    (messageMeta event).msn)) =
      none := by
    rw [findIdx?_eq_none_iff]
    intro e he
    simpa using hB e (mem_reverse.1 he)
  rw [reverse_append, findIdx?_append, hnone]
  rcases eq_nil_or_concat A with rfl | ⟨A', a, rfl⟩
  · rfl
  · have ha := hA a (by simp)
    rw [concat_eq_append, reverse_append, reverse_singleton, singleton_append, findIdx?_cons,
      decide_eq_true ha]
    simp

theorem append_eq (ht : t.inner = A ++ B) (hA : ∀ e ∈ A, (messageMeta e).msn <
    (messageMeta event).msn) (hB : ∀ e ∈ B, ¬ (messageMeta e).msn < (messageMeta event).msn) :
    (t.append event).inner =
      if ∃ e ∈ B.head?, (messageMeta e).msn = (messageMeta event).msn then A ++ B
      else A ++ event :: B := by
  have hindex : (A ++ B).length - B.length = A.length := by
    rw [length_append, Nat.add_sub_cancel]
  unfold append
  dsimp only
  rw [ht, findIdx_reverse hA hB, hindex, getElem?_append_right le_rfl, Nat.sub_self,
    ← head?_eq_getElem?]
  cases hhead : B.head? with
  | none => simp [insertIdx_append]
  | some e =>
    simp only [mem_some_iff, exists_eq_left', ite_not, insertIdx_append]
    split_ifs
    · exact ht
    · rfl

variable {R S : List (Ranked E)} {r x : Ranked E}

theorem append_new (ht : t.inner = (R ++ S).map Ranked.event)
    (hR : ∀ r ∈ R, r.Near x ∧ r.msn < x.msn) (hS : ∀ r ∈ S, r.Near x ∧ x.msn < r.msn) :
    (t.append x.event).inner = (R ++ x :: S).map Ranked.event := by
  rw [List.map_append] at ht
  rw [append_eq ht, if_neg]
  · rw [List.map_append, List.map_cons]
  · rintro ⟨e, he, heq⟩
    rw [List.head?_map, Option.mem_def, Option.map_eq_some_iff] at he
    obtain ⟨r, hr, rfl⟩ := he
    have hr := hS r (List.mem_of_mem_head? hr)
    exact hr.2.ne' ((Ranked.msn_eq_iff hr.1).1 heq)
  · simp only [List.mem_map, forall_exists_index, and_imp, forall_apply_eq_imp_iff₂]
    exact fun r hr => (Ranked.msn_lt_iff (hR r hr).1).2 (hR r hr).2
  · simp only [List.mem_map, forall_exists_index, and_imp, forall_apply_eq_imp_iff₂]
    exact fun r hr h => (hS r hr).2.not_gt ((Ranked.msn_lt_iff (hS r hr).1).1 h)

theorem append_old (ht : t.inner = (R ++ r :: S).map Ranked.event)
    (hR : ∀ y ∈ R, y.Near x ∧ y.msn < x.msn) (hS : ∀ y ∈ r :: S, y.Near x ∧ x.msn ≤ y.msn)
    (hr : r.msn = x.msn) : (t.append x.event).inner = (R ++ r :: S).map Ranked.event := by
  rw [List.map_append] at ht
  rw [append_eq ht, if_pos, List.map_append]
  · exact ⟨r.event, by simp, (Ranked.msn_eq_iff (hS r List.mem_cons_self).1).2 hr⟩
  · simp only [List.mem_map, forall_exists_index, and_imp, forall_apply_eq_imp_iff₂]
    exact fun y hy => (Ranked.msn_lt_iff (hR y hy).1).2 (hR y hy).2
  · simp only [List.mem_map, forall_exists_index, and_imp, forall_apply_eq_imp_iff₂]
    exact fun y hy h => (hS y hy).2.not_gt ((Ranked.msn_lt_iff (hS y hy).1).1 h)

@[simp] theorem append_basePsn (t : MessageTracker E) (event : E) :
    (t.append event).basePsn = t.basePsn := by
  unfold append
  dsimp only
  split
  · split_ifs <;> rfl
  · rfl

theorem drain_append (p : Psn) (es : List E) : (drain p es).1 ++ (drain p es).2 = es := by
  induction es with
  | nil => rfl
  | cons e es ih =>
    rw [drain]
    split_ifs
    · exact congrArg (e :: ·) ih
    · rfl

theorem drain_eq {b : ℤ} (rs : List (Ranked E)) (h : ∀ r ∈ rs, b - r.fin < 2 ^ 23 ∧
    r.fin - b ≤ 2 ^ 23) : drain (Psn.wrap b) (rs.map Ranked.event) =
      ((rs.takeWhile (·.fin ≤ b)).map Ranked.event,
        (rs.dropWhile (·.fin ≤ b)).map Ranked.event) := by
  induction rs with
  | nil => rfl
  | cons r rs ih =>
    rw [forall_mem_cons] at h
    have hle : (messageMeta r.event).endPsn ≤ Psn.wrap b ↔ r.fin ≤ b := by
      rw [r.messageMeta_eq]
      exact Psn.wrap_le_wrap h.1.1 h.1.2
    rw [map_cons, drain]
    simp only [hle]
    split_ifs with hr
    · rw [ih h.2, takeWhile_cons_of_pos (by simpa using hr),
        dropWhile_cons_of_pos (by simpa using hr)]
      rfl
    · rw [takeWhile_cons_of_neg (by simpa using hr), dropWhile_cons_of_neg (by simpa using hr)]
      rfl

end MessageTracker

/-! ## A window of message numbers -/

inductive TrackerLabel (E : Type)
  | append (event : E)
  | ack (basePsn : Psn)
  | pop

theorem Msn.lt_iff_distance {m n b : Msn} (hm : m.distance b < 2 ^ 15)
    (hn : n.distance b < 2 ^ 15) : m < n ↔ m.distance b < n.distance b := by
  have := m.inner_lt
  have := n.inner_lt
  have := b.inner_lt
  rw [Msn.lt_iff]
  unfold distance wrappingSub16 at *
  unfold Circular.Before Circular.fwd
  omega

theorem Msn.distance_inj {m n b : Msn} (h : m.distance b = n.distance b) : m = n := by
  have := m.inner_lt
  have := n.inner_lt
  have := b.inner_lt
  unfold distance wrappingSub16 at h
  exact Msn.ext (by omega)

/-- The place of the message of an event in the window that begins at `b`. -/
def place (b : Msn) (e : E) : ℕ := (messageMeta e).msn.distance b

namespace MessageTracker

variable {b : Msn} {t : MessageTracker E} {event : E}

/-- One call. A pop may find nothing. -/
def step (t : MessageTracker E) : TrackerLabel E → Option (MessageTracker E)
  | .append event => some (t.append event)
  | .ack basePsn => some (t.ack basePsn)
  | .pop => some ((t.pop.map (·.2)).getD t)

/-- `pop` until it finds nothing, at most `n` times. -/
def popAll : ℕ → MessageTracker E → List E × MessageTracker E
  | 0, t => ([], t)
  | n + 1, t =>
    match t.pop with
    | none => ([], t)
    | some (e, t') => ((e :: (popAll n t').1), (popAll n t').2)

/-- The events are in the window, in the order of their places. -/
def Sorted (b : Msn) (t : MessageTracker E) : Prop :=
  t.inner.Pairwise (place b · < place b ·) ∧ ∀ e ∈ t.inner, place b e < 2 ^ 15

theorem exists_split {es : List E} (h : es.Pairwise (place b · < place b ·)) (k : ℕ) :
    ∃ A B, es = A ++ B ∧ (∀ e ∈ A, place b e < k) ∧ ∀ e ∈ B, k ≤ place b e := by
  induction es with
  | nil => exact ⟨[], [], rfl, nofun, nofun⟩
  | cons x es ih =>
    obtain ⟨hx, hes⟩ := pairwise_cons.1 h
    by_cases hk : place b x < k
    · obtain ⟨A, B, rfl, hA, hB⟩ := ih hes
      exact ⟨x :: A, B, rfl, forall_mem_cons.2 ⟨hk, hA⟩, hB⟩
    · exact ⟨[], x :: es, rfl, nofun, forall_mem_cons.2 ⟨not_lt.1 hk,
        fun e he => (not_lt.1 hk).trans (hx e he).le⟩⟩

/-- An event of the window is dropped exactly if its message is there already, and else gets to its
place. -/
theorem Sorted.append (h : Sorted b t) (hevent : place b event < 2 ^ 15) :
    Sorted b (t.append event) ∧
      ((∃ e ∈ t.inner, (messageMeta e).msn = (messageMeta event).msn) → t.append event = t) := by
  obtain ⟨hsorted, hwindow⟩ := h
  obtain ⟨A, B, ht, hA, hB⟩ := exists_split hsorted (place b event)
  rw [ht] at hsorted hwindow
  have heq := append_eq ht
    (fun e he => (Msn.lt_iff_distance (hwindow e (mem_append_left _ he)) hevent).2 (hA e he))
    fun e he hlt => (hB e he).not_gt ((Msn.lt_iff_distance (hwindow e (mem_append_right _ he))
      hevent).1 hlt)
  obtain ⟨hpA, hpB, hAB⟩ := pairwise_append.1 hsorted
  by_cases hhead : ∃ e ∈ B.head?, (messageMeta e).msn = (messageMeta event).msn
  · rw [if_pos hhead, ← ht] at heq
    have hsame : t.append event = t := congrArg₂ mk heq (t.append_basePsn event)
    rw [hsame]
    exact ⟨⟨ht ▸ hsorted, ht ▸ hwindow⟩, fun _ => rfl⟩
  · rw [if_neg hhead] at heq
    have hlt : ∀ e ∈ B, place b event < place b e := by
      cases B with
      | nil => exact nofun
      | cons x B =>
        have hx : place b event < place b x :=
          lt_of_le_of_ne (hB x (.head _)) fun he => hhead ⟨x, rfl, (Msn.distance_inj he).symm⟩
        exact forall_mem_cons.2 ⟨hx, fun e he => hx.trans ((pairwise_cons.1 hpB).1 e he)⟩
    refine ⟨⟨?_, ?_⟩, ?_⟩
    · rw [heq, pairwise_append, pairwise_cons]
      exact ⟨hpA, ⟨hlt, hpB⟩, fun a ha => forall_mem_cons.2 ⟨hA a ha, hAB a ha⟩⟩
    · rw [heq]
      simp only [mem_append, mem_cons]
      rintro e (he | rfl | he)
      · exact hwindow e (mem_append_left _ he)
      · exact hevent
      · exact hwindow e (mem_append_right _ he)
    · rintro ⟨e, he, hmsn⟩
      have hplace : place b e = place b event := congrArg (·.distance b) hmsn
      rcases mem_append.1 (ht ▸ he) with he | he
      · exact absurd hplace (hA e he).ne
      · exact absurd hplace (hlt e he).ne'

theorem popAll_eq {n : ℕ} (hn : t.inner.length ≤ n) :
    t.popAll n = (t.inner.takeWhile fun e => (messageMeta e).endPsn ≤ t.basePsn,
      { t with inner := t.inner.dropWhile fun e => (messageMeta e).endPsn ≤ t.basePsn }) := by
  induction n generalizing t with
  | zero =>
    obtain ⟨inner, basePsn⟩ := t
    obtain rfl : inner = [] := eq_nil_of_length_eq_zero (Nat.le_zero.1 hn)
    rfl
  | succ n ih =>
    obtain ⟨_ | ⟨front, inner⟩, basePsn⟩ := t
    · rfl
    · rw [popAll, pop, takeWhile_cons, dropWhile_cons]
      by_cases hfront : (messageMeta front).endPsn ≤ basePsn
      · simp only [hfront, if_true, decide_true,
          ih (t := ⟨inner, basePsn⟩) (Nat.le_of_succ_le_succ hn)]
      · simp [hfront]

/-- **The tracker keeps the events of a window in the circular order of their messages**, one for
each message, and repeated pops take those before the first that is not acknowledged. -/
theorem run_sorted {ls : List (TrackerLabel E)}
    (h : Run step (fun _ l => ∀ event, l = .append event → place b event < 2 ^ 15) {} ls t) :
    t.inner.Pairwise (fun e e' => (messageMeta e).msn < (messageMeta e').msn ∧
        (messageMeta e).msn ≠ (messageMeta e').msn) ∧
      (∀ event, place b event < 2 ^ 15 → (∃ e ∈ t.inner, (messageMeta e).msn =
        (messageMeta event).msn) → t.append event = t) ∧
      ∀ n ≥ t.inner.length, t.popAll n = (t.inner.takeWhile fun e => (messageMeta e).endPsn ≤
        t.basePsn, { t with inner := t.inner.dropWhile fun e => (messageMeta e).endPsn ≤
      t.basePsn }) := by
  have hsorted : Sorted b t := by
    refine h.invariant (I := fun _ t => Sorted b t) ⟨.nil, nofun⟩ fun _ t l t' hi hok hs => ?_
    cases l with
    | append event =>
      cases hs
      exact (hi.append (hok event rfl)).1
    | ack basePsn =>
      cases hs
      exact hi
    | pop =>
      cases hs
      obtain ⟨_ | ⟨front, inner⟩, basePsn⟩ := t
      · exact hi
      · rw [pop]
        dsimp only
        split
        · exact ⟨(pairwise_cons.1 hi.1).2, fun e he => hi.2 e (.tail _ he)⟩
        · exact hi
  refine ⟨hsorted.1.imp_of_mem fun he he' hlt => ⟨?_, ?_⟩, fun event hevent =>
    (hsorted.append hevent).2, fun n hn => popAll_eq hn⟩
  · exact (Msn.lt_iff_distance (hsorted.2 _ he) (hsorted.2 _ he')).2 hlt
  · exact fun hmsn => hlt.ne (congrArg (·.distance b) hmsn)

/-- Over the end of the circle, the event of message 65535 is put before that of message 0. -/
theorem run_sorted_wrapped :
    let t := (({} : MessageTracker RecvEvent).append ⟨.write, ⟨Msn.wrap 0, Psn.wrap 2⟩,
      true⟩).append ⟨.write, ⟨Msn.wrap 0xffff, Psn.wrap 1⟩, true⟩
    t.inner.map (·.messageMeta.msn.inner) = [0xffff, 0] ∧
      t.inner.Pairwise fun e e' => (messageMeta e).msn < (messageMeta e').msn ∧
        (messageMeta e).msn ≠ (messageMeta e').msn := by
  refine ⟨by decide, (run_sorted (b := Msn.wrap 0xfff0)
    ((Run.nil.snoc (l := .append _) ?_ rfl).snoc (l := .append _) ?_ rfl)).1⟩
  all_goals
    intro event he
    cases he
    decide

end MessageTracker

/-! ## Polling -/

namespace MergeQueue

theorem foldl_pushSend (m : MergeQueue) (es : List SendEvent) :
    es.foldl pushSend m = { m with send := m.send ++ es } := by
  induction es generalizing m with
  | nil => rw [foldl_nil, append_nil]
  | cons e es ih => rw [foldl_cons, ih, pushSend, append_assoc, singleton_append]

theorem foldl_pushRecv (m : MergeQueue) (es : List RecvEvent) : es.foldl pushRecv m =
      { m with
        recv := m.recv ++ es.filter fun e => !decide (e.op = .readResp)
        recvReadResp := m.recvReadResp ++ es.filter fun e => e.op = .readResp } := by
  induction es generalizing m with
  | nil => simp
  | cons e es ih =>
    rw [foldl_cons, ih, pushRecv]
    cases hop : e.op <;> simp [hop]

end MergeQueue

namespace QueuePairMessageTracker

variable {t t' : QueuePairMessageTracker} {qp : QpAttr}
  {r : QueuePairMessageTracker × CompletionOutput}

/-- What polling send completions does: it takes events off the front, in order, until there are
none or the first waits for the response to a read. -/
structure PolledSend (t : QueuePairMessageTracker) (xs : List (SendEvent × Completion))
    (t' : QueuePairMessageTracker) : Prop where
  send : t.merge.send = xs.map Prod.fst ++ t'.merge.send
  completion : ∀ x ∈ xs, x.2 = x.1.completion
  left : t'.merge.send = [] ∨
    (∃ e ∈ t'.merge.send.head?, e.op = .readSignaled) ∧ t'.merge.recvReadResp = []
  resp : ∃ used, t.merge.recvReadResp = used ++ t'.merge.recvReadResp ∧
    used.length = xs.countP (·.1.op = .readSignaled)
  frame : t' = { t with merge := { t.merge with
    send := t'.merge.send, recvReadResp := t'.merge.recvReadResp } }

theorem pollSendCompletion_none (h : t.pollSendCompletion = (none, t')) :
    t' = t ∧ (t.merge.send = [] ∨
      (∃ e ∈ t.merge.send.head?, e.op = .readSignaled) ∧ t.merge.recvReadResp = []) := by
  unfold pollSendCompletion popSend at h
  cases hsend : t.merge.send with
  | nil => simp_all [eq_comm]
  | cons e send => cases hop : e.op <;> cases hresp : t.merge.recvReadResp <;> simp_all [eq_comm]

theorem pollSendCompletion_some {x : SendEvent × Completion}
    (h : t.pollSendCompletion = (some x, t')) : t.merge.send = x.1 :: t'.merge.send ∧
    x.2 = x.1.completion ∧
      (∃ used, t.merge.recvReadResp = used ++ t'.merge.recvReadResp ∧
        used.length = if x.1.op = .readSignaled then 1 else 0) ∧
      t' = { t with merge := { t.merge with
        send := t'.merge.send, recvReadResp := t'.merge.recvReadResp } } := by
  unfold pollSendCompletion popSend at h
  cases hsend : t.merge.send with
  | nil => simp_all
  | cons e send =>
    cases hop : e.op <;> cases hresp : t.merge.recvReadResp <;> simp_all <;>
      (obtain ⟨rfl, rfl⟩ := h; simp [hop, length_eq_one_iff])

theorem pollSendLoop_spec {n : ℕ} (hn : t.merge.send.length ≤ n) :
    t.PolledSend (pollSendLoop n t).1 (pollSendLoop n t).2 := by
  induction n generalizing t with
  | zero =>
    have hnil : t.merge.send = [] := length_eq_zero_iff.1 (Nat.le_zero.1 hn)
    exact ⟨by simp [pollSendLoop], by simp [pollSendLoop], Or.inl hnil, ⟨[], rfl, rfl⟩, rfl⟩
  | succ n ih =>
    rcases hpoll : t.pollSendCompletion with ⟨_ | x, u⟩
    · obtain ⟨rfl, hleft⟩ := pollSendCompletion_none hpoll
      simp only [pollSendLoop, hpoll]
      exact ⟨rfl, by simp, hleft, ⟨[], rfl, rfl⟩, rfl⟩
    · obtain ⟨hsend, hcompletion, ⟨used, hused, hlen⟩, hu⟩ := pollSendCompletion_some hpoll
      have hrest := ih (t := u) (by rw [hsend, length_cons] at hn; omega)
      simp only [pollSendLoop, hpoll]
      refine ⟨by rw [hsend, hrest.send]; rfl, ?_, hrest.left, ?_, ?_⟩
      · rw [forall_mem_cons]
        exact ⟨hcompletion, hrest.completion⟩
      · obtain ⟨used', hused', hlen'⟩ := hrest.resp
        refine ⟨used ++ used', by rw [hused, hused', append_assoc], ?_⟩
        rw [length_append, hlen, hlen', countP_cons, Nat.add_comm]
        simp
      · rw [hrest.frame]
        rw [hu]

/-- The completion `c` is the one of a polled receive event. -/
def CompletesAs (op : RecvEventOp) (c : Option Completion) : Prop :=
  match op with
  | .writeWithImm imm => ∃ wrId, c = some (.recvRdmaWithImm wrId imm)
  | .recv => ∃ wrId, c = some (.recv wrId none)
  | .recvWithImm imm => ∃ wrId, c = some (.recv wrId (some imm))
  | .readResp => False
  | .recvRead | .write => c = none

/-- What polling receive completions does, if no posted receive is missing: it takes all events. -/
structure PolledRecv (t : QueuePairMessageTracker) (ys : List (RecvEvent × Option Completion))
    (t' : QueuePairMessageTracker) : Prop where
  recv : t.merge.recv = ys.map Prod.fst
  completion : ∀ y ∈ ys, CompletesAs y.1.op y.2
  frame : t' = { t with merge := { t.merge with recv := [] }, postRecvQueue := t'.postRecvQueue }

theorem takePostRecv_eq {f : ℕ → Completion} {c : Option Completion}
    (h : t.takePostRecv f = some (c, t')) : (∃ wrId, c = some (f wrId)) ∧
    t' = { t with postRecvQueue := t'.postRecvQueue } := by
  unfold takePostRecv at h
  split at h
  · exact absurd h nofun
  · cases h
    exact ⟨⟨_, rfl⟩, rfl⟩

theorem completeRecv_eq {event : RecvEvent} {c : Option Completion}
    (h : t.completeRecv event = some (c, t')) :
    CompletesAs event.op c ∧ t' = { t with postRecvQueue := t'.postRecvQueue } := by
  obtain ⟨op, messageMeta, ackReq⟩ := event
  cases op with
  | writeWithImm imm => exact takePostRecv_eq h
  | recv => exact takePostRecv_eq h
  | recvWithImm imm => exact takePostRecv_eq h
  | readResp => exact absurd h nofun
  | recvRead | write =>
    cases h
    exact ⟨rfl, rfl⟩

theorem pollRecvLoop_spec {n : ℕ} {ys : List (RecvEvent × Option Completion)}
    (hn : t.merge.recv.length ≤ n) (h : pollRecvLoop n t = some (ys, t')) : t.PolledRecv ys t' := by
  induction n generalizing t t' ys with
  | zero =>
    have hnil : t.merge.recv = [] := length_eq_zero_iff.1 (Nat.le_zero.1 hn)
    cases h
    exact ⟨hnil, by simp, by rw [← hnil]⟩
  | succ n ih =>
    cases hrecv : t.merge.recv with
    | nil =>
      simp only [pollRecvLoop, pollRecvCompletion, popRecv, hrecv] at h
      cases h
      exact ⟨hrecv, by simp, by rw [← hrecv]⟩
    | cons e recv =>
      simp only [pollRecvLoop, pollRecvCompletion, popRecv, hrecv, bind_map] at h
      obtain ⟨⟨c, u⟩, hc, h⟩ := bind_eq_some_iff.1 h
      obtain ⟨⟨zs, u'⟩, hloop, h⟩ := Option.map_eq_some_iff.1 h
      obtain ⟨hcompletes, hu⟩ := completeRecv_eq hc
      have hlen : u.merge.recv.length ≤ n := by
        rw [hu]
        rw [hrecv] at hn
        exact Nat.le_of_succ_le_succ hn
      have hrest := ih hlen hloop
      cases h
      refine ⟨?_, forall_mem_cons.2 ⟨hcompletes, hrest.completion⟩, ?_⟩
      · rw [map_cons, ← hrest.recv, hu, hrecv]
      · rw [hrest.frame, hu]

/-- The event takes a posted receive. -/
def takesRecv (event : RecvEvent) : Bool :=
  match event.op with
  | .writeWithImm _ | .recv | .recvWithImm _ => true
  | _ => false

theorem process_ackSend {p : Psn} (hr : t.process qp (.ackSend p) = some r) :
    ∃ xs u, (t.ackSend p).PolledSend xs u ∧ r = (u, { send := xs }) := by
  unfold process at hr
  dsimp only at hr
  split_ifs at hr
  exact ⟨_, _, pollSendLoop_spec le_rfl, (some.inj hr).symm⟩

theorem process_ackRecv {p : Psn} (hr : t.process qp (.ackRecv p) = some r) :
    ∃ xs t' ys u, (t.ackRecv p).PolledSend xs t' ∧ t'.PolledRecv ys u ∧
      r = (u, { send := xs, recv := ys }) := by
  unfold process at hr
  dsimp only at hr
  split_ifs at hr
  obtain ⟨⟨ys, u⟩, hys, rfl⟩ := Option.map_eq_some_iff.1 hr
  exact ⟨_, _, ys, u, pollSendLoop_spec le_rfl, pollRecvLoop_spec le_rfl hys, rfl⟩

/-- Polling stopped because nothing was left or the first event waits for its response. -/
def Settled (t : QueuePairMessageTracker) : Prop :=
  t.merge.send = [] ∨
    (∃ e ∈ t.merge.send.head?, e.op = .readSignaled) ∧ t.merge.recvReadResp = []

theorem Settled.process (h : t.Settled) {task : CompletionTask} (hr : t.process qp task = some r) :
    r.1.Settled := by
  cases task with
  | register event =>
    cases hr
    cases event <;> exact h
  | ackSend p =>
    obtain ⟨xs, u, hp, rfl⟩ := process_ackSend hr
    exact hp.left
  | ackRecv p =>
    obtain ⟨xs, t', ys, u, hp, hrecv, rfl⟩ := process_ackRecv hr
    have hleft := hp.left
    rw [hrecv.frame]
    exact hleft

end QueuePairMessageTracker

end OpenRdma.Driver
