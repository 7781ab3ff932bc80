import Mathlib.Algebra.Order.BigOperators.Group.List
import Mathlib.Data.Int.ConditionallyCompleteOrder
import Mathlib.Order.CompletePartialOrder
import Mathlib.Order.RelClasses
import OpenRdma.Driver.Posting
import OpenRdma.Foundations.Run

/-!
# The window of a send queue

A send queue issues sequence numbers and is told which of them are acknowledged. `SendWindow` is its
context with the unbounded numbers the context stands for.

* `SendWindow.orders_iff`: the numbers outstanding are in the order of issue exactly if they are
  less than half a circle. The check of `next_wr` admits half a circle, on which the first and the
  last number are each after the other.
* `SendWindow.Inv`: if the check never adds up to a whole circle, at most half a circle is
  outstanding, and the ranges of the requests outstanding are disjoint on the wire. The check wraps
  at a circle, and `num_psn` returns up to one.
-/

namespace OpenRdma.Driver

open List Option

/-! ## The order of the numbers outstanding -/

theorem Psn.cmp_eq (p q : Psn) : p.cmp q = Circular.cmp (2 ^ 24) p.inner q.inner := by
  unfold Psn.cmp Circular.cmp
  rw [masked_sub]
  rfl

theorem Msn.partialCmp_eq (m n : Msn) : m.partialCmp n = Circular.cmp (2 ^ 16) m.inner n.inner :=
  rfl

/-- **The comparison orders the wire values of the numbers from `a` to `b`** as the numbers: it is a
strict total order on them that agrees with the order of issue, and no two are each after the
other. -/
structure Orders {α : Type} (cmp : α → α → Ordering) (wire : ℤ → α) (a b : ℤ) : Prop where
  strict : IsStrictTotalOrder {p // p ∈ wire '' Set.Icc a b} fun p q => cmp p q = .lt
  agrees : ∀ x ∈ Set.Icc a b, ∀ y ∈ Set.Icc a b, cmp (wire x) (wire y) = compare x y
  antisymm : ∀ p ∈ wire '' Set.Icc a b, ∀ q ∈ wire '' Set.Icc a b, ¬ (cmp p q = .gt ∧ cmp q p = .gt)

theorem Orders.of_agrees {α : Type} {cmp : α → α → Ordering} {wire : ℤ → α} {a b : ℤ}
    (h : ∀ x ∈ Set.Icc a b, ∀ y ∈ Set.Icc a b, cmp (wire x) (wire y) = compare x y) :
    Orders cmp wire a b where
  strict :=
    { trichotomous := by
        rintro ⟨-, x, hx, rfl⟩ ⟨-, y, hy, rfl⟩ hxy hyx
        rw [h x hx y hy, compare_lt_iff_lt] at hxy
        rw [h y hy x hx, compare_lt_iff_lt] at hyx
        obtain rfl : x = y := le_antisymm (not_lt.1 hyx) (not_lt.1 hxy)
        rfl
      irrefl := by
        rintro ⟨-, x, hx, rfl⟩ hlt
        rw [h x hx x hx, compare_lt_iff_lt] at hlt
        exact lt_irrefl x hlt
      trans := by
        rintro ⟨-, x, hx, rfl⟩ ⟨-, y, hy, rfl⟩ ⟨-, z, hz, rfl⟩ hxy hyz
        rw [h x hx y hy, compare_lt_iff_lt] at hxy
        rw [h y hy z hz, compare_lt_iff_lt] at hyz
        rw [h x hx z hz, compare_lt_iff_lt]
        exact hxy.trans hyz }
  agrees := h
  antisymm := by
    rintro - ⟨x, hx, rfl⟩ - ⟨y, hy, rfl⟩ ⟨hxy, hyx⟩
    rw [h x hx y hy, compare_gt_iff_gt] at hxy
    rw [h y hy x hx, compare_gt_iff_gt] at hyx
    exact lt_asymm hxy hyx

theorem orders_iff_of_circular {α : Type} {cmp : α → α → Ordering} {wire : ℤ → α} {H : ℕ}
    (hH : 0 < H) (hcmp : ∀ x y, cmp (wire x) (wire y) =
      Circular.cmp (2 * H) (Circular.wrap (2 * H) x) (Circular.wrap (2 * H) y)) (a b : ℤ) :
    Orders cmp wire a b ↔ b - a < H := by
  constructor
  · intro h
    by_contra hle
    have hgt := Circular.cmp_wrap_opposite hH a
    rw [← hcmp, ← hcmp] at hgt
    exact h.antisymm _ ⟨a, ⟨le_rfl, by omega⟩, rfl⟩ _ ⟨a + H, ⟨by omega, by omega⟩, rfl⟩ hgt
  · intro h
    refine .of_agrees fun x hx y hy => ?_
    obtain ⟨hx₁, hx₂⟩ := hx
    obtain ⟨hy₁, hy₂⟩ := hy
    rw [hcmp, Circular.cmp_wrap (by omega) (by omega) (by omega) (by omega)]

/-! ## A send queue with its history -/

/-- A send queue: its context, and the number of packets of each request it issued, the first number
that is not acknowledged and the acknowledged message, all unbounded. -/
structure SendWindow where
  ctx : SendQueueContext := default
  issued : List ℕ := []
  psnAcked : ℕ := 0
  msnAcked : ℕ := 0
  deriving DecidableEq

/-- The calls on the context. -/
inductive SendCall
  | nextWr (numPsn : ℕ)
  | updatePsnAcked (psn : ℕ)
  | updateMsnAcked (msn : ℕ)

namespace SendWindow

variable {s s' : SendWindow} {l : SendCall} {ls : List SendCall}

/-- The first number of the request `i`, which is the next number for the next request. -/
def start (s : SendWindow) (i : ℕ) : ℕ := (s.issued.take i).sum

def next (s : SendWindow) : ℕ := s.issued.sum

/-- One call. A request that is refused changes nothing. -/
def step (s : SendWindow) : SendCall → Option SendWindow
  | .nextWr n =>
    match s.ctx.nextWr n with
    | some (_, ctx) => some { s with ctx := ctx, issued := s.issued ++ [n] }
    | none => some s
  | .updatePsnAcked a => some { s with ctx := s.ctx.updatePsnAcked (Psn.wrap a), psnAcked := a }
  | .updateMsnAcked m => some { s with ctx := s.ctx.updateMsnAcked (Msn.wrap m), msnAcked := m }

/-- The largest number of packets `num_psn` returns for a 32-bit length. -/
def maxNumPsn : ℕ := 2 ^ 24

/-- The calls the driver makes: a request has at most as many packets as `num_psn` returns, and what
is acknowledged was issued and not yet acknowledged past. -/
def CallOk (s : SendWindow) : SendCall → Prop
  | .nextWr n => n ≤ maxNumPsn
  | .updatePsnAcked a => s.psnAcked ≤ a ∧ a ≤ s.next
  | .updateMsnAcked m => s.msnAcked ≤ m ∧ m ≤ s.issued.length

theorem maxNumPsn_isGreatest :
    IsGreatest {n | ∃ pmtu addr length, length < 2 ^ 32 ∧ numPsn pmtu addr length = some n}
    maxNumPsn := by
  refine ⟨⟨1, 0, 2 ^ 32 - 1, by decide, by decide +kernel⟩, ?_⟩
  rintro n ⟨pmtu, addr, length, hlen, hn⟩
  obtain ⟨P, hP, hn⟩ := bind_eq_some_iff.1 hn
  obtain ⟨k, hk₁, hk₂, rfl⟩ := convertIbvMtuToU16_eq hP
  dsimp only at hn
  split_ifs at hn
  cases hn
  rw [Word.checkedSub_getD]
  unfold Word.divCeil maxNumPsn
  have hk : k = 8 ∨ k = 9 ∨ k = 10 ∨ k = 11 ∨ k = 12 := by omega
  rcases hk with rfl | rfl | rfl | rfl | rfl <;> split_ifs <;> omega

theorem step_cases (h : s.step l = some s') : (∃ n, l = .nextWr n ∧ ¬ s.ctx.HasRoom n ∧ s = s') ∨
      (∃ n, l = .nextWr n ∧ s.ctx.HasRoom n ∧
        { s with ctx := s.ctx.take n, issued := s.issued ++ [n] } = s') ∨
      (∃ a, l = .updatePsnAcked a ∧
        { s with ctx := s.ctx.updatePsnAcked (Psn.wrap a), psnAcked := a } = s') ∨
      ∃ m, l = .updateMsnAcked m ∧
        { s with ctx := s.ctx.updateMsnAcked (Msn.wrap m), msnAcked := m } = s' := by
  cases l with
  | nextWr n =>
    rw [step, SendQueueContext.nextWr_eq] at h
    by_cases hroom : s.ctx.HasRoom n
    · rw [if_pos hroom] at h
      exact Or.inr (Or.inl ⟨n, rfl, hroom, some.inj h⟩)
    · rw [if_neg hroom] at h
      exact Or.inl ⟨n, rfl, hroom, some.inj h⟩
  | updatePsnAcked a => exact Or.inr (Or.inr (Or.inl ⟨a, rfl, some.inj h⟩))
  | updateMsnAcked m => exact Or.inr (Or.inr (Or.inr ⟨m, rfl, some.inj h⟩))

/-- The context holds the wire values of the history, and at most half a circle of messages is
outstanding. -/
structure Tracks (s : SendWindow) : Prop where
  psn : s.ctx.psn = Psn.wrap s.next
  psnAcked : s.ctx.psnAcked = Psn.wrap s.psnAcked
  msn : s.ctx.msn = Msn.wrap s.issued.length
  msnAcked : s.ctx.msnAcked = Msn.wrap s.msnAcked
  psnAcked_le : s.psnAcked ≤ s.next
  msnAcked_le : s.msnAcked ≤ s.issued.length
  msnWindow : s.issued.length ≤ s.msnAcked + maxSendWr

theorem Tracks.step (ht : s.Tracks) (hok : s.CallOk l) (hs : s.step l = some s') : s'.Tracks := by
  have hwin := ht.msnWindow
  unfold maxSendWr at hwin
  rcases step_cases hs with ⟨n, -, -, rfl⟩ | ⟨n, -, hroom, rfl⟩ | ⟨a, rfl, rfl⟩ | ⟨m, rfl, rfl⟩
  · exact ht
  · have hdist := Msn.distance_wrap (a := s.issued.length) (b := s.msnAcked)
      (by exact_mod_cast ht.msnAcked_le) (by omega)
    have hlt := hroom.2
    rw [ht.msn, ht.msnAcked] at hlt
    unfold maxSendWr at hlt
    have hnext : (s.issued ++ [n]).sum = s.next + n := by simp [next]
    refine { ht with psn := ?_, msn := ?_, psnAcked_le := ?_, msnAcked_le := ?_, msnWindow := ?_ }
    · rw [SendQueueContext.take, ht.psn, Psn.wrap_add]
      change _ = Psn.wrap ((s.issued ++ [n]).sum : ℕ)
      rw [hnext, Nat.cast_add]
    · rw [SendQueueContext.take, ht.msn, Msn.wrappingAdd_wrap, length_append]
      rfl
    · change s.psnAcked ≤ (s.issued ++ [n]).sum
      have := ht.psnAcked_le
      omega
    · rw [length_append]
      exact ht.msnAcked_le.trans (Nat.le_add_right _ _)
    · rw [length_append]
      change s.issued.length + 1 ≤ s.msnAcked + 0x8000
      omega
  · exact { ht with psnAcked := rfl, psnAcked_le := hok.2 }
  · refine { ht with msnAcked := rfl, msnAcked_le := hok.2, msnWindow := ?_ }
    have hle := hok.1
    change s.issued.length ≤ m + 0x8000
    omega

theorem tracks_init : Tracks {} := ⟨rfl, rfl, rfl, rfl, le_rfl, le_rfl, by decide⟩

theorem tracks_of_run (h : Run step CallOk {} ls s) : s.Tracks :=
  h.invariant (I := fun _ s => s.Tracks) tracks_init fun _ _ _ _ ht hok hs => ht.step hok hs

/-! ## The order of issue -/

/-- **The numbers outstanding are ordered**: the packet sequence numbers from the acknowledged one
to the next one, and the message sequence numbers likewise, in the order of issue. -/
structure Ordered (s : SendWindow) : Prop where
  psnBounds : s.ctx.psnAcked = Psn.wrap s.psnAcked ∧ s.ctx.psn = Psn.wrap s.next
  psn : Orders Psn.cmp Psn.wrap s.psnAcked s.next
  msnBounds : s.ctx.msnAcked = Msn.wrap s.msnAcked ∧ s.ctx.msn = Msn.wrap s.issued.length
  msn : Orders Msn.partialCmp Msn.wrap s.msnAcked s.issued.length

theorem orders_psn_iff (a b : ℤ) : Orders Psn.cmp Psn.wrap a b ↔ b - a < 2 ^ 23 :=
  orders_iff_of_circular (H := 2 ^ 23) (by decide) (fun x y => Psn.cmp_eq (Psn.wrap x) (Psn.wrap y))
    a b

theorem orders_msn_iff (a b : ℤ) : Orders Msn.partialCmp Msn.wrap a b ↔ b - a < 2 ^ 15 :=
  orders_iff_of_circular (H := 2 ^ 15) (by decide) (fun x y =>
    Msn.partialCmp_eq (Msn.wrap x) (Msn.wrap y)) a b

/-- **The numbers outstanding are ordered exactly if fewer than half a circle are outstanding.** The
message sequence numbers before the next one always are. -/
theorem ordered_iff (h : Run step CallOk {} ls s) :
    (s.Ordered ↔ s.next < s.psnAcked + 2 ^ 23 ∧ s.issued.length < s.msnAcked + 2 ^ 15) ∧
      Orders Msn.partialCmp Msn.wrap s.msnAcked (s.issued.length - 1) := by
  have ht := tracks_of_run h
  have hwin : s.issued.length ≤ s.msnAcked + 0x8000 := ht.msnWindow
  refine ⟨⟨fun ho => ?_, fun ⟨hpsn, hmsn⟩ => ?_⟩, (orders_msn_iff _ _).2 (by omega)⟩
  · have hpsn := (orders_psn_iff _ _).1 ho.psn
    have hmsn := (orders_msn_iff _ _).1 ho.msn
    omega
  · exact ⟨⟨ht.psnAcked, ht.psn⟩, (orders_psn_iff _ _).2 (by omega), ⟨ht.msnAcked, ht.msn⟩,
      (orders_msn_iff _ _).2 (by omega)⟩

/-- Two packets of one request, the first acknowledged. -/
theorem ordered_one_of_two : ∃ s, Run step CallOk {} [.nextWr 2, .updatePsnAcked 1] s ∧
    s.Ordered := by
  let s₁ : SendWindow := { ctx := SendQueueContext.take default 2, issued := [2] }
  have h₁ : Run step CallOk {} [.nextWr 2] s₁ :=
    Run.nil.snoc (show 2 ≤ maxNumPsn by decide) (by decide +kernel)
  let s₂ : SendWindow := { s₁ with ctx := s₁.ctx.updatePsnAcked (Psn.wrap 1), psnAcked := 1 }
  have h₂ : Run step CallOk {} [.nextWr 2, .updatePsnAcked 1] s₂ :=
    h₁.snoc (show 0 ≤ 1 ∧ 1 ≤ s₁.next by decide) rfl
  exact ⟨_, h₂, (ordered_iff h₂).1.2 (by decide)⟩

/-- **A request of half a circle** leaves the first and the last number each after the other. It is
the request for `2 ^ 31` bytes at a path MTU of 256. -/
theorem half_circle_not_ordered :
    numPsn 1 0 (2 ^ 31) = some (2 ^ 23) ∧
      ∃ s, Run step CallOk {} [.nextWr (2 ^ 23)] s ∧ s.ctx.psnAcked.cmp s.ctx.psn = .gt ∧
        s.ctx.psn.cmp s.ctx.psnAcked = .gt ∧ ¬ s.Ordered := by
  let s : SendWindow := { ctx := SendQueueContext.take default (2 ^ 23), issued := [2 ^ 23] }
  have hrun : Run step CallOk {} [.nextWr (2 ^ 23)] s :=
    Run.nil.snoc (show 2 ^ 23 ≤ maxNumPsn by decide) (by decide +kernel)
  refine ⟨by decide +kernel, s, hrun, by decide, by decide, fun ho => ?_⟩
  exact absurd ((orders_psn_iff _ _).1 ho.psn) (by decide)

/-! ## The bounds of the window -/

/-- **The window is bounded**: at most half a circle of packets and of messages is outstanding, and
the requests with a packet outstanding have disjoint ranges on the wire. -/
structure Bounded (s : SendWindow) : Prop where
  psn : s.next - s.psnAcked ≤ 2 ^ 23
  msn : s.issued.length - s.msnAcked ≤ 0x8000
  disjoint : ∀ i j, i < j → j < s.issued.length → s.psnAcked < s.start (i + 1) →
    s.psnAcked < s.start (j + 1) → Disjoint (Psn.wrap '' Set.Ico (s.start i) (s.start (i + 1)))
      (Psn.wrap '' Set.Ico (s.start j) (s.start (j + 1)))

/-- The calls the driver makes in which a request that is taken does not fill the circle. -/
def NoWrap (s : SendWindow) (l : SendCall) : Prop :=
  s.CallOk l ∧ ∀ n, l = .nextWr n → s.ctx.HasRoom n → (s.ctx.psn - s.ctx.psnAcked).inner + n <
    2 ^ 24

structure Inv (s : SendWindow) : Prop extends Tracks s where
  psnWindow : s.next ≤ s.psnAcked + 2 ^ 23
  count_le : ∀ n ∈ s.issued, n ≤ 2 ^ 23

theorem Inv.outstanding (hi : s.Inv) : (s.ctx.psn - s.ctx.psnAcked).inner = s.next -
    s.psnAcked := by
  have hle := hi.psnAcked_le
  have hwin := hi.psnWindow
  have := Psn.wrap_sub (a := s.next) (b := s.psnAcked) (by omega) (by omega)
  rw [hi.psn, hi.psnAcked]
  omega

theorem next_take (s : SendWindow) (ctx : SendQueueContext) (n : ℕ) :
    next { s with ctx := ctx, issued := s.issued ++ [n] } = s.next + n := by
  simp [next]

theorem Inv.step (hi : s.Inv) (hok : s.NoWrap l) (hs : s.step l = some s') : s'.Inv := by
  refine { hi.toTracks.step hok.1 hs with psnWindow := ?_, count_le := ?_ }
  all_goals
    have hwin := hi.psnWindow
    have hout := hi.outstanding
    rcases step_cases hs with ⟨n, -, -, rfl⟩ | ⟨n, rfl, hroom, rfl⟩ | ⟨a, rfl, rfl⟩ | ⟨m, rfl, rfl⟩
  · exact hwin
  · have hsum := hok.2 n rfl hroom
    have hcheck := hroom.1
    rw [Psn.add_inner, maxPsnWindow_eq] at hcheck
    rw [next_take]
    change s.next + n ≤ s.psnAcked + 2 ^ 23
    omega
  · have := hok.1.1
    change s.next ≤ a + 2 ^ 23
    omega
  · exact hwin
  · exact hi.count_le
  · have hsum := hok.2 n rfl hroom
    have hcheck := hroom.1
    rw [Psn.add_inner, maxPsnWindow_eq] at hcheck
    intro k hk
    rcases mem_append.1 hk with hk | hk
    · exact hi.count_le k hk
    · rw [mem_singleton.1 hk]
      omega
  · exact hi.count_le
  · exact hi.count_le

theorem start_mono (s : SendWindow) : Monotone s.start := monotone_sum_take s.issued

theorem start_le_next (s : SendWindow) (i : ℕ) : s.start i ≤ s.next := by
  have h := s.start_mono (Nat.le_add_right i s.issued.length)
  unfold start at h
  rwa [take_of_length_le (Nat.le_add_left _ i)] at h

theorem Inv.start_succ_le (hi : s.Inv) {i : ℕ} (h : i < s.issued.length) :
    s.start (i + 1) ≤ s.start i + 2 ^ 23 := by
  unfold start
  rw [sum_take_succ _ _ h]
  exact Nat.add_le_add_left (hi.count_le _ (getElem_mem h)) _

theorem Inv.bounded (hi : s.Inv) : s.Bounded := by
  have hwin := hi.psnWindow
  have hmsn : s.issued.length ≤ s.msnAcked + 0x8000 := hi.msnWindow
  refine ⟨by omega, by omega, fun i j hij hj hi' hj' => ?_⟩
  -- the numbers from the first of request `i` to the next one are less than a circle
  have hsucc := hi.start_succ_le (hij.trans hj)
  have hmono : s.start (i + 1) ≤ s.start j := s.start_mono hij
  have hend := s.start_le_next (j + 1)
  rw [Set.disjoint_left]
  rintro - ⟨x, ⟨hx₁, hx₂⟩, rfl⟩ ⟨y, ⟨hy₁, hy₂⟩, hxy⟩
  have := Psn.wrap_inj hxy (by omega) (by omega)
  omega

theorem inv_init : Inv {} := { tracks_init with psnWindow := by decide, count_le := by simp }

theorem inv_of_run (h : Run step NoWrap {} ls s) : s.Inv :=
  h.invariant (I := fun _ s => s.Inv) inv_init fun _ _ _ _ hi hok hs => hi.step hok hs

/-- **The window is bounded** in every run in which no request that is taken fills the circle, and
the first request that does breaks the bound. -/
theorem bounded_of_run (h : Run step NoWrap {} ls s) :
    s.Bounded ∧ ∀ l s', s.CallOk l → s.step l = some s' → (s'.Bounded ↔ s.NoWrap l) := by
  have hi := inv_of_run h
  refine ⟨hi.bounded, fun l s' hok hs => ⟨fun hb => ⟨hok, ?_⟩, fun hnw => (hi.step hnw hs).bounded⟩⟩
  rintro n rfl hroom
  have hle := hi.psnAcked_le
  have hpsn := hb.psn
  rw [hi.outstanding]
  rcases step_cases hs with ⟨k, hk, hno, -⟩ | ⟨k, hk, -, rfl⟩ | ⟨a, ha, -⟩ | ⟨m, hm, -⟩
  · obtain rfl := SendCall.nextWr.inj hk
    exact absurd hroom hno
  · obtain rfl := SendCall.nextWr.inj hk
    rw [next_take] at hpsn
    change s.next + n - s.psnAcked ≤ 2 ^ 23 at hpsn
    omega
  · cases ha
  · cases hm

/-- A full window, and a request for the part of it that is acknowledged. -/
theorem bounded_full_window :
    ∃ s, Run step NoWrap {} [.nextWr (2 ^ 23), .updatePsnAcked 5, .nextWr 5] s ∧
    s.next = s.psnAcked + 2 ^ 23 ∧
      s.Bounded := by
  let s₁ : SendWindow := { ctx := SendQueueContext.take default (2 ^ 23), issued := [2 ^ 23] }
  let s₂ : SendWindow := { s₁ with ctx := s₁.ctx.updatePsnAcked (Psn.wrap 5), psnAcked := 5 }
  let s₃ : SendWindow := { s₂ with ctx := s₂.ctx.take 5, issued := [2 ^ 23, 5] }
  have h₁ : Run step NoWrap {} [.nextWr (2 ^ 23)] s₁ :=
    Run.nil.snoc ⟨show 2 ^ 23 ≤ maxNumPsn by decide, fun n hn _ => by cases hn; decide⟩
      (by decide +kernel)
  have h₂ : Run step NoWrap {} [.nextWr (2 ^ 23), .updatePsnAcked 5] s₂ :=
    h₁.snoc ⟨show 0 ≤ 5 ∧ 5 ≤ s₁.next by decide, fun n hn => by cases hn⟩ rfl
  have h₃ : Run step NoWrap {} [.nextWr (2 ^ 23), .updatePsnAcked 5, .nextWr 5] s₃ :=
    h₂.snoc ⟨show 5 ≤ maxNumPsn by decide, fun n hn _ => by cases hn; decide⟩ (by decide +kernel)
  exact ⟨s₃, h₃, by decide, (bounded_of_run h₃).1⟩

/-- **The largest request of `num_psn` fills the circle**, and the check takes it for no packet at
all. -/
theorem full_circle_not_bounded :
    numPsn 1 0 (2 ^ 32 - 1) = some (2 ^ 24) ∧
      ∃ s, Run step CallOk {} [.nextWr (2 ^ 24)] s ∧ s.next - s.psnAcked = 2 ^ 24 ∧
      s.ctx.HasRoom (2 ^ 24) ∧
        ¬ s.Bounded := by
  let s : SendWindow := { ctx := SendQueueContext.take default (2 ^ 24), issued := [2 ^ 24] }
  have hrun : Run step CallOk {} [.nextWr (2 ^ 24)] s :=
    Run.nil.snoc (show 2 ^ 24 ≤ maxNumPsn by decide) (by decide +kernel)
  exact ⟨by decide +kernel, s, hrun, by decide, by decide, fun hb => absurd hb.psn (by decide)⟩

end SendWindow

end OpenRdma.Driver
