import OpenRdma.Driver.Reports

/-!
# Trackers fed with windows

The reports about received packets carry windows of 128 numbers. Both trackers remember the lowest
number of the furthest window so far (`psn_pre`) and take the numbers between two windows as
acknowledged. This is sound if those numbers arrived. `WindowSound` is kept by a report whose
windows hold received numbers only, where the numbers before its first window arrived or are not
taken as acknowledged (`WindowSound.nak`, `WindowSound.ack`); everything named has to be within half
a circle.
-/

namespace OpenRdma.Driver

namespace Sound

variable {t : PsnTracker} {U : Set ℤ} {B : ℤ}

theorem applyWithin (h : Sound t U B) (op : AckOp) (hop : op.acks B ⊆ U) :
    ∃ B', B ≤ B' ∧ Sound (t.apply op).1 U B' := by
  obtain ⟨B', hle, h'⟩ := h.apply op
  rw [Set.union_eq_self_of_subset_right hop] at h'
  exact ⟨B', hle, h'⟩

theorem window (h : Sound t U B) {H : ℤ} {bm : BitVec 128} (h₁ : B - H ≤ 2 ^ 23)
    (h₂ : H - B < 2 ^ 23) (hbits : ∀ x : ℕ, bm.getLsbD x = true → H + x ∈ U) :
    ∃ B', B ≤ B' ∧ Sound (t.ackBitmap (Psn.wrap H) bm).1 U B' := by
  refine h.applyWithin (.bitmap (Psn.wrap H) bm) ?_
  rintro a ⟨x, hx, rfl⟩
  rw [Psn.lift_wrap h₁ h₂]
  exact hbits x hx

theorem gap (h : Sound t U B) {P H : ℤ} (hP₁ : B - P ≤ 2 ^ 23) (hP₂ : P - B < 2 ^ 23)
    (hH₁ : B - H ≤ 2 ^ 23) (hH₂ : H - B < 2 ^ 23) (hfilled : ∀ a, P ≤ a → a < H → a ∈ U) :
    ∃ B', B ≤ B' ∧ Sound (t.ackRange (Psn.wrap P) (Psn.wrap H)).1 U B' := by
  refine h.applyWithin (.range (Psn.wrap P) (Psn.wrap H)) ?_
  rintro a ⟨ha₁, ha₂⟩
  rw [Psn.lift_wrap hP₁ hP₂] at ha₁
  rw [Psn.lift_wrap hH₁ hH₂] at ha₂
  exact hfilled a ha₁ ha₂

end Sound

/-- The numbers of `R` up to the end of the window that starts with `Q`. -/
def upTo (R : Set ℤ) (Q : ℤ) : Set ℤ := {a | a ∈ R ∧ a < Q + 128}

theorem upTo_mono {R : Set ℤ} {Q Q' : ℤ} (h : Q ≤ Q') : upTo R Q ⊆ upTo R Q' :=
  fun _ ha => ⟨ha.1, ha.2.trans_le (by omega)⟩

/-- Everything the tracker treats as acknowledged arrived and is not beyond the furthest window,
which starts with `P`. -/
structure WindowSound (t : PsnTracker) (psnPre : Psn) (R : Set ℤ) (B P : ℤ) : Prop where
  sound : Sound t (upTo R P) B
  pre : psnPre = Psn.wrap P
  nonneg : 0 ≤ P
  reached : P = 0 ∨ ∃ a ∈ R, P ≤ a

theorem windowSound_default (R : Set ℤ) : WindowSound default default R 0 0 :=
  ⟨sound_default.mono (Set.empty_subset _), rfl, le_rfl, Or.inl rfl⟩

namespace WindowSound

variable {t t₁ : PsnTracker} {psnPre : Psn} {R R' : Set ℤ} {B P H H' : ℤ} {pre now : BitVec 128}

theorem mono (h : WindowSound t psnPre R B P) (hR : R ⊆ R') : WindowSound t psnPre R' B P :=
  ⟨h.sound.mono fun _ ha => ⟨hR ha.1, ha.2⟩, h.pre, h.nonneg,
    h.reached.imp_right fun ⟨a, ha, hle⟩ => ⟨a, hR ha, hle⟩⟩

theorem base_le (h : WindowSound t psnPre R B P) : B ≤ P + 128 :=
  h.sound.base_le (by have := h.nonneg; omega) fun _ ha => ha.2

theorem pre_lt (h : WindowSound t psnPre R B P) (hR : ∀ a ∈ R, a + 128 < B + 2 ^ 23) :
    P - B < 2 ^ 23 := by
  have h0 := h.sound.nonneg
  rcases h.reached with hP | ⟨a, ha, hle⟩
  · omega
  · have := hR a ha
    omega

theorem enter {Q : ℤ} (h : Sound t (upTo R Q) B) (hQ : 0 ≤ Q) (hle : H ≤ Q)
    (hnear : Q + 128 ≤ H + 2 ^ 23) (hlt : H - B < 2 ^ 23) (hbits : ∀ x : ℕ, now.getLsbD x = true →
      H + x ∈ R) :
    ∃ B', B ≤ B' ∧ Sound (t.ackBitmap (Psn.wrap H) now).1 (upTo R Q) B' := by
  have hB : B ≤ Q + 128 := h.base_le (by omega) fun _ ha => ha.2
  refine h.window (by omega) hlt fun x hx => ⟨hbits x hx, ?_⟩
  have := BitVec.lt_of_getLsbD hx
  omega

/-- The tracker after the numbers before the window that starts with `H` are entered, or are not. -/
def Ranged (t : PsnTracker) (psnPre : Psn) (R : Set ℤ) (P H : ℤ) (t₁ : PsnTracker) : Prop :=
  t₁ = t ∨ t₁ = (t.ackRange psnPre (Psn.wrap H)).1 ∧ ∀ a, P ≤ a → a < H → a ∈ R

variable (hR : ∀ a ∈ R, a + 128 < B + 2 ^ 23)
include hR

variable (h : WindowSound t psnPre R B P)
include h

section

variable (hreach : ∃ a ∈ R, H ≤ a)
include hreach

theorem ranged (hnear : P + 128 ≤ H + 2 ^ 23) (hranged : Ranged t psnPre R P H t₁) :
    ∃ B', B ≤ B' ∧ Sound t₁ (upTo R (max P H)) B' := by
  have hsound := h.sound.mono (upTo_mono (le_max_left P H))
  have hB := h.base_le
  have hP := h.pre_lt hR
  obtain ⟨a, ha, hle⟩ := hreach
  have ha' := hR a ha
  rcases hranged with rfl | ⟨rfl, hfilled⟩
  · exact ⟨B, le_rfl, hsound⟩
  · rw [h.pre]
    exact hsound.gap (by omega) hP (by omega) (by omega) fun b h₁ h₂ =>
      ⟨hfilled b h₁ h₂, h₂.trans_le (by omega)⟩

theorem pre_lt_wrap (hnear : P + 128 ≤ H + 2 ^ 23) : psnPre < Psn.wrap H ↔ P < H := by
  obtain ⟨a, ha, hle⟩ := hreach
  have ha' := hR a ha
  have hB := h.base_le
  rw [h.pre]
  exact Psn.wrap_lt_wrap (by omega) (by omega)

theorem max_pre (hnear : P + 128 ≤ H + 2 ^ 23) :
    (if psnPre < Psn.wrap H then Psn.wrap H else psnPre) = Psn.wrap (max P H) ∧
      (max P H = 0 ∨ ∃ a ∈ R, max P H ≤ a) := by
  have hlt := h.pre_lt_wrap hR hreach hnear
  by_cases hPH : P < H
  · rw [if_pos (hlt.2 hPH), max_eq_right hPH.le]
    exact ⟨rfl, Or.inr hreach⟩
  · rw [if_neg (fun hn => hPH (hlt.1 hn)), max_eq_left (not_lt.1 hPH)]
    exact ⟨h.pre, h.reached⟩

/-- **A report with one window keeps a tracker sound.** -/
theorem ack (hnear : P + 128 ≤ H + 2 ^ 23) (hranged : Ranged t psnPre R P H t₁)
    (hnow : ∀ x : ℕ, now.getLsbD x = true → H + x ∈ R) :
    WindowSound (t₁.ackBitmap (Psn.wrap H) now).1 (if psnPre < Psn.wrap H then Psn.wrap H
      else psnPre) R (advance B t.basePsn (t₁.ackBitmap (Psn.wrap H) now).1.basePsn) (max P H) := by
  obtain ⟨hpre, hreached⟩ := h.max_pre hR hreach hnear
  have hP := h.nonneg
  obtain ⟨B₁, hle₁, h₁⟩ := h.ranged hR hreach hnear hranged
  obtain ⟨a, ha, hle⟩ := hreach
  have ha' := hR a ha
  obtain ⟨B₂, hle₂, h₂⟩ := enter h₁ (by omega) (le_max_right P H) (by omega) (by omega) hnow
  have hadvance := (h.sound.mono (upTo_mono (le_max_left P H))).advance_eq h₂ (hle₁.trans hle₂)
    fun b hb => by
      have := hR b hb.1
      omega
  rw [hadvance]
  exact ⟨h₂, hpre, by omega, hreached⟩

end

/-- **A report with two windows keeps a tracker sound.** -/
theorem nak (hHH' : H ≤ H')
    (hreach : ∃ a ∈ R, H' ≤ a) (hnear : P + 128 ≤ H + 2 ^ 23) (hranged : Ranged t psnPre R P H t₁)
    (hpre : ∀ x : ℕ, pre.getLsbD x = true → H + x ∈ R) (hnow : ∀ x : ℕ, now.getLsbD x = true →
      H' + x ∈ R) :
    WindowSound ((t₁.ackBitmap (Psn.wrap H) pre).1.ackBitmap (Psn.wrap H') now).1
      (if psnPre < Psn.wrap H' then Psn.wrap H' else psnPre) R
      (advance B t.basePsn
        ((t₁.ackBitmap (Psn.wrap H) pre).1.ackBitmap (Psn.wrap H') now).1.basePsn) (max P H') := by
  obtain ⟨hpre', hreached⟩ := h.max_pre hR hreach (by omega)
  have hP := h.nonneg
  obtain ⟨a, ha, hle⟩ := hreach
  have ha' := hR a ha
  obtain ⟨B₁, hle₁, h₁⟩ := h.ranged hR ⟨a, ha, hHH'.trans hle⟩ hnear hranged
  obtain ⟨B₂, hle₂, h₂⟩ := enter h₁ (by omega) (le_max_right P H) (by omega) (by omega) hpre
  have hB₂ : B₂ ≤ max P H + 128 := h₂.base_le (by omega) fun _ hb => hb.2
  have h₂' := h₂.mono (upTo_mono (max_le_max_left P hHH'))
  obtain ⟨B₃, hle₃, h₃⟩ : ∃ B₃, B₂ ≤ B₃ ∧
      Sound ((t₁.ackBitmap (Psn.wrap H) pre).1.ackBitmap (Psn.wrap H') now).1
        (upTo R (max P H')) B₃ :=
    h₂'.window (by omega) (by omega) fun x hx => ⟨hnow x hx, by
      have := BitVec.lt_of_getLsbD hx
      omega⟩
  have hadvance := (h.sound.mono (upTo_mono (le_max_left P H'))).advance_eq h₃
    (hle₁.trans (hle₂.trans hle₃)) fun b hb => by
      have := hR b hb.1
      omega
  rw [hadvance]
  exact ⟨h₃, hpre', by omega, hreached⟩

theorem lift_pre : Psn.lift B psnPre = P := by
  have := h.base_le
  rw [h.pre]
  exact Psn.lift_wrap (by omega) (h.pre_lt hR)

end WindowSound

/-! ## Reports of the cards -/

/-- A window with its unbounded lowest number. -/
structure AckWindow where
  low : ℤ
  bits : BitVec 128
  deriving DecidableEq

/-- Every number whose bit is set is in `R`. -/
def AckWindow.Within (w : AckWindow) (R : Set ℤ) : Prop :=
  ∀ x : ℕ, w.bits.getLsbD x = true → w.low + x ∈ R

/-- A report of the local card: one window, or the windows before and after a loss. -/
inductive LocalReport
  | ack (now : AckWindow)
  | nak (pre now : AckWindow)
  deriving DecidableEq

namespace LocalReport

/-- The report as the driver reads it. -/
def toMeta : LocalReport → ReportMeta
  | ack now => .ackLocalHw (Psn.wrap now.low) now.bits
  | nak pre now => .nakLocalHw (Psn.wrap now.low) now.bits (Psn.wrap pre.low) pre.bits

/-- The lowest number of the first window. -/
def low : LocalReport → ℤ
  | ack now => now.low
  | nak pre _ => pre.low

/-- The lowest number of the last window. -/
def high : LocalReport → ℤ
  | ack now => now.low
  | nak _ now => now.low

/-- The windows of the report hold numbers of `R` only, and the last is not beyond `R`. -/
def Within (R : Set ℤ) : LocalReport → Prop
  | ack now => now.Within R ∧ ∃ a ∈ R, now.low ≤ a
  | nak pre now => pre.Within R ∧ now.Within R ∧ pre.low ≤ now.low ∧ ∃ a ∈ R, now.low ≤ a

theorem Within.mono {R R' : Set ℤ} {r : LocalReport} (h : r.Within R) (hR : R ⊆ R') :
    r.Within R' := by
  cases r with
  | ack now =>
    obtain ⟨hnow, a, ha, hle⟩ := h
    exact ⟨fun x hx => hR (hnow x hx), a, hR ha, hle⟩
  | nak pre now =>
    obtain ⟨hpre, hnow, hlow, a, ha, hle⟩ := h
    exact ⟨fun x hx => hR (hpre x hx), fun x hx => hR (hnow x hx), hlow, a, hR ha, hle⟩

end LocalReport

/-- **A report of the local card keeps the tracker sound**, if it holds numbers of `R` only and the
numbers before it are in `R`. -/
theorem WindowSound.report {h : MetaHandler} {R : Set ℤ} {B P : ℤ} {r : LocalReport}
    (hsound : WindowSound h.recv.psnTracker h.recv.psnPre R B P)
    (hR : ∀ a ∈ R, a + 128 < B + 2 ^ 23) (hr : r.Within R) (hnear : P + 128 ≤ r.low + 2 ^ 23)
    (hfilled : ∀ a, P ≤ a → a < r.low → a ∈ R) : ∃ h' out, h.handleMeta r.toMeta = some (h', out) ∧
      WindowSound h'.recv.psnTracker h'.recv.psnPre R
        (advance B h.recv.psnTracker.basePsn h'.recv.psnTracker.basePsn) (max P r.high) := by
  cases r with
  | ack now =>
    obtain ⟨hnow, hreach⟩ := hr
    exact ⟨_, _, rfl, hsound.ack hR hreach hnear (Or.inr ⟨rfl, hfilled⟩) hnow⟩
  | nak pre now =>
    obtain ⟨hpre, hnow, hlow, hreach⟩ := hr
    exact ⟨_, _, rfl, hsound.nak hR hlow hreach hnear (Or.inr ⟨rfl, hfilled⟩) hpre hnow⟩

/-- **A negative acknowledgement of the peer keeps the tracker of the send side sound**, if it holds
numbers of `R` only and the numbers before it are in `R` or its message number is not the next. -/
theorem WindowSound.remote {h : MetaHandler} {R : Set ℤ} {B P : ℤ} {msn : Msn} {pre now : AckWindow}
    (hsound : WindowSound h.send.psnTracker h.send.psnPre R B P)
    (hR : ∀ a ∈ R, a + 128 < B + 2 ^ 23) (hr : (LocalReport.nak pre now).Within R)
    (hnear : P + 128 ≤ pre.low + 2 ^ 23)
    (hfilled : msn = h.send.msnPre.wrappingAdd 1 → ∀ a, P ≤ a → a < pre.low → a ∈ R) : ∃ h' out,
      h.handleMeta (.nakRemoteHw msn (Psn.wrap now.low) now.bits (Psn.wrap pre.low) pre.bits) =
        some (h', out) ∧
      WindowSound h'.send.psnTracker h'.send.psnPre R
        (advance B h.send.psnTracker.basePsn h'.send.psnTracker.basePsn) (max P now.low) ∧
      h'.send.msnPre = if P < now.low then msn else h.send.msnPre := by
  obtain ⟨hpre, hnow, hlow, hreach⟩ := hr
  refine ⟨_, _, rfl, hsound.nak hR hlow hreach hnear ?_ hpre hnow, ?_⟩
  · by_cases hmsn : msn = h.send.msnPre.wrappingAdd 1
    · rw [if_pos hmsn]
      exact Or.inr ⟨rfl, hfilled hmsn⟩
    · rw [if_neg hmsn]
      exact Or.inl rfl
  · have hlt := hsound.pre_lt_wrap hR hreach (by omega)
    by_cases hslid : P < now.low
    · rw [if_pos hslid]
      exact if_pos (hlt.2 hslid)
    · rw [if_neg hslid]
      exact if_neg fun hn => hslid (hlt.1 hn)

/-- Each of the reports holds numbers of `R` only, and the numbers between the furthest window
before it and its own are in `R`. -/
def Justified (R : Set ℤ) : ℤ → List LocalReport → Prop
  | _, [] => True
  | m, r :: rs => (r.Within R ∧ ∀ a, m ≤ a → a < r.low → a ∈ R) ∧ Justified R (max m r.high) rs

/-- The lowest number of the furthest window. -/
def furthest (m : ℤ) (rs : List LocalReport) : ℤ := rs.foldl (fun m r => max m r.high) m

theorem furthest_concat (m : ℤ) (rs : List LocalReport) (r : LocalReport) :
    furthest m (rs ++ [r]) = max (furthest m rs) r.high := by
  rw [furthest, List.foldl_append]
  rfl

theorem le_furthest (m : ℤ) (rs : List LocalReport) : m ≤ furthest m rs := by
  induction rs using List.reverseRecOn with
  | nil => exact le_rfl
  | append_singleton rs r ih =>
    rw [furthest_concat]
    exact ih.trans (le_max_left _ _)

theorem Justified.mono {R R' : Set ℤ} {m : ℤ} {rs : List LocalReport} (h : Justified R m rs)
    (hR : R ⊆ R') : Justified R' m rs := by
  induction rs generalizing m with
  | nil => trivial
  | cons r rs ih => exact ⟨⟨h.1.1.mono hR, fun a h₁ h₂ => hR (h.1.2 a h₁ h₂)⟩, ih h.2⟩

theorem Justified.concat {R : Set ℤ} {m : ℤ} {rs : List LocalReport} {r : LocalReport}
    (h : Justified R m rs) (hr : r.Within R)
    (hfilled : ∀ a, furthest m rs ≤ a → a < r.low → a ∈ R) : Justified R m (rs ++ [r]) := by
  induction rs generalizing m with
  | nil => exact ⟨⟨hr, hfilled⟩, trivial⟩
  | cons r' rs ih => exact ⟨h.1, ih h.2 hfilled⟩

end OpenRdma.Driver
