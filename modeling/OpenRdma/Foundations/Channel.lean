import Mathlib.Data.List.Basic
import Mathlib.Data.List.TakeWhile
import Mathlib.Logic.Function.Basic

/-!
# Channels

A producer sends tasks to a consumer over a first-in first-out channel. What the producer knows runs
ahead of what the consumer has seen, by the tasks in flight. `Channel.InFlight R a ts c` says that
seeing the tasks `ts` one after the other, each by a step of the relation `R`, takes the consumer's
view `a` to the producer's view `c`. Sending appends steps at the end (`InFlight.append`), receiving
takes the first step off the front, and an empty channel means that the two agree
(`InFlight.nil_iff`).

A stream is cut into frames if an item says whether more items of its frame follow. An arbiter
merges several streams and takes a frame without interruption, so what it puts out is again a
sequence of frames and the beginning of one (`Framing.Merging`). What the frames have to satisfy is
a parameter `P`.
-/

namespace OpenRdma.Channel

variable {α τ : Type*}

/-- Seeing the tasks in flight takes the view `a` to the view `c`. -/
def InFlight (R : α → τ → α → Prop) : α → List τ → α → Prop
  | a, [], c => a = c
  | a, t :: ts, c => ∃ b, R a t b ∧ InFlight R b ts c

variable {R : α → τ → α → Prop} {a b c : α} {t : τ} {ts us : List τ}

namespace InFlight

theorem nil_iff : InFlight R a [] c ↔ a = c := Iff.rfl

theorem refl (a : α) : InFlight R a [] a := rfl

theorem single (h : R a t c) : InFlight R a [t] c := ⟨c, h, rfl⟩

theorem append (h₁ : InFlight R a ts b) (h₂ : InFlight R b us c) : InFlight R a (ts ++ us) c := by
  induction ts generalizing a with
  | nil =>
    obtain rfl : a = b := h₁
    exact h₂
  | cons t ts ih =>
    obtain ⟨d, hd, h₁⟩ := h₁
    exact ⟨d, hd, ih h₁⟩

theorem of_forall (h : ∀ t ∈ ts, R a t a) : InFlight R a ts a := by
  induction ts with
  | nil => rfl
  | cons t ts ih =>
    rw [List.forall_mem_cons] at h
    exact ⟨a, h.1, ih h.2⟩

theorem preserves {P : α → Prop} (h : InFlight R a ts c) (ha : P a)
    (hstep : ∀ a t b, P a → R a t b → P b) : P c := by
  induction ts generalizing a with
  | nil =>
    obtain rfl : a = c := h
    exact ha
  | cons t ts ih =>
    obtain ⟨b, hb, h⟩ := h
    exact ih h (hstep a t b ha hb)

theorem eq_of_silent (h : InFlight R a ts c) (hts : ∀ t ∈ ts, ∀ a b, R a t b → b = a) : a = c := by
  induction ts generalizing a with
  | nil => exact h
  | cons t ts ih =>
    obtain ⟨b, hb, h⟩ := h
    rw [List.forall_mem_cons] at hts
    obtain rfl := hts.1 a b hb
    exact ih h hts.2

end InFlight

end OpenRdma.Channel

namespace OpenRdma.Framing

open List

variable {α ι : Type*} {more : α → Bool} {P : List α → Prop}

/-- Every item of a frame but the last says that more follow. -/
def IsFrame (more : α → Bool) (f : List α) : Prop :=
  ∃ init last, f = init ++ [last] ∧ (∀ x ∈ init, more x = true) ∧ more last = false

/-- The stream is a sequence of lists that satisfy `P`. -/
def Framed (P : List α → Prop) (l : List α) : Prop :=
  ∃ fs : List (List α), l = fs.flatten ∧ ∀ f ∈ fs, P f

theorem takeWhile_frame {init rest : List α} {last : α} (hinit : ∀ x ∈ init, more x = true)
    (hlast : more last = false) : (init ++ last :: rest).takeWhile more = init := by
  rw [takeWhile_append_of_pos hinit, takeWhile_cons_of_neg (by simp [hlast]), append_nil]

namespace Framed

theorem nil : Framed P [] := ⟨[], rfl, by simp⟩

theorem of_frame {f : List α} (h : P f) : Framed P f := ⟨[f], by simp, by simpa using h⟩

theorem append {l₁ l₂ : List α} (h₁ : Framed P l₁) (h₂ : Framed P l₂) : Framed P (l₁ ++ l₂) := by
  obtain ⟨fs₁, rfl, hfs₁⟩ := h₁
  obtain ⟨fs₂, rfl, hfs₂⟩ := h₂
  refine ⟨fs₁ ++ fs₂, flatten_append.symm, fun f hf => ?_⟩
  rcases mem_append.1 hf with hf | hf
  · exact hfs₁ f hf
  · exact hfs₂ f hf

theorem cases {l : List α} (h : Framed P l) : l = [] ∨ ∃ f rest, l = f ++ rest ∧
    P f ∧ Framed P rest := by
  obtain ⟨fs, rfl, hfs⟩ := h
  cases fs with
  | nil => exact Or.inl rfl
  | cons f fs =>
    exact Or.inr ⟨f, fs.flatten, flatten_cons, hfs f mem_cons_self,
      fs, rfl, fun g hg => hfs g (mem_cons_of_mem _ hg)⟩

variable (hP : ∀ f, P f → IsFrame more f)
include hP

theorem split {p l : List α} {x : α} (h : Framed P (p ++ x :: l)) (hp : ∀ y ∈ p, more y = true)
    (hx : more x = false) : P (p ++ [x]) ∧ Framed P l := by
  rcases h.cases with hnil | ⟨f, rest, heq, hf, hrest⟩
  · simp at hnil
  · obtain ⟨init, last, rfl, hinit, hlast⟩ := hP f hf
    rw [append_assoc, singleton_append] at heq
    have htake := congrArg (takeWhile more) heq
    rw [takeWhile_frame hp hx, takeWhile_frame hinit hlast] at htake
    subst htake
    obtain ⟨rfl, rfl⟩ := cons.inj (append_cancel_left heq)
    exact ⟨hf, hrest⟩

theorem exists_rest {p l : List α} (h : Framed P (p ++ l)) (hp : ∀ y ∈ p, more y = true)
    (hne : p ≠ []) : ∃ q, q ≠ [] ∧ P (p ++ q) := by
  rcases h.cases with hnil | ⟨f, rest, heq, hf, -⟩
  · exact absurd (append_eq_nil_iff.1 hnil).1 hne
  · obtain ⟨init, last, rfl, hinit, hlast⟩ := hP f hf
    rw [append_assoc, singleton_append] at heq
    have htake := congrArg (takeWhile more) heq
    rw [takeWhile_append_of_pos hp, takeWhile_frame hinit hlast] at htake
    subst htake
    rw [append_assoc] at hf
    exact ⟨_, by simp, hf⟩

end Framed

/-- The items put out are frames and the beginning `p` of a frame of the stream `cur`; what is left
of every stream is frames, apart from that beginning. -/
structure Merging [DecidableEq ι] (more : α → Bool) (P : List α → Prop) (streams : ι → List α)
    (cur : Option ι) (p out : List α) : Prop where
  done : ∃ l, Framed P l ∧ out = l ++ p
  more_follow : ∀ y ∈ p, more y = true
  idle : cur = none ↔ p = []
  framed : ∀ i, Framed P ((if cur = some i then p else []) ++ streams i)

namespace Merging

variable [DecidableEq ι] {streams streams' : ι → List α} {cur : Option ι} {p out : List α}

theorem nil : Merging more P (fun _ : ι => []) none [] [] :=
  ⟨⟨[], Framed.nil, rfl⟩, by simp, by simp, fun _ => Framed.nil⟩

theorem extend (h : Merging more P streams cur p out)
    (hs : ∀ i, ∃ l, Framed P l ∧ streams' i = streams i ++ l) :
    Merging more P streams' cur p out := by
  refine { h with framed := fun i => ?_ }
  obtain ⟨l, hl, heq⟩ := hs i
  rw [heq, ← append_assoc]
  exact (h.framed i).append hl

theorem read (h : Merging more P streams cur p out) :
    out = p ∨ ∃ f rest, out = f ++ rest ∧ P f ∧ Merging more P streams cur p rest := by
  obtain ⟨l, hl, rfl⟩ := h.done
  rcases hl.cases with rfl | ⟨f, rest, rfl, hf, hrest⟩
  · exact Or.inl rfl
  · exact Or.inr ⟨f, rest ++ p, append_assoc _ _ _, hf, { h with done := ⟨rest, hrest, rfl⟩ }⟩

variable (hP : ∀ f, P f → IsFrame more f)
include hP

/-- **The arbiter takes an item** of any stream between two frames, and of the stream of the frame
otherwise. -/
theorem take (h : Merging more P streams cur p out) {i : ι} {x : α} {l : List α}
    (hcur : cur = none ∨ cur = some i) (hi : streams i = x :: l)
    (hs : ∀ j, streams' j = if j = i then l else streams j) :
    ∃ p', Merging more P streams' (if more x then some i else none) p' (out ++ [x]) := by
  obtain ⟨done, hdone, rfl⟩ := h.done
  have hother : ∀ j, j ≠ i → Framed P (streams' j) := by
    intro j hj
    have hne : cur ≠ some j := by
      rcases hcur with rfl | rfl
      · simp
      · exact fun heq => hj (Option.some.inj heq).symm
    have := h.framed j
    rwa [if_neg hne, nil_append, ← (if_neg hj : (if j = i then l else streams j) = _), ← hs] at this
  have hframe : Framed P (p ++ x :: l) := by
    have := h.framed i
    rcases hcur with rfl | rfl
    · rwa [if_neg (by simp), hi, ← h.idle.1 rfl] at this
    · rwa [if_pos rfl, hi] at this
  have hli : streams' i = l := (hs i).trans (if_pos rfl)
  cases hx : more x with
  | false =>
    obtain ⟨hlast, hl⟩ := hframe.split hP h.more_follow hx
    refine ⟨[], ⟨done ++ (p ++ [x]), hdone.append (.of_frame hlast), by simp⟩, by simp, by simp, ?_⟩
    intro j
    by_cases hj : j = i
    · simpa [hj, hli] using hl
    · simpa using hother j hj
  | true =>
    refine ⟨p ++ [x], ⟨done, hdone, by simp⟩, ?_, by simp, ?_⟩
    · intro y hy
      rcases mem_append.1 hy with hy | hy
      · exact h.more_follow y hy
      · rwa [mem_singleton.1 hy]
    · intro j
      by_cases hj : j = i
      · simpa [hj, hli] using hframe
      · simpa [Ne.symm hj] using hother j hj

theorem exists_rest (h : Merging more P streams cur p out) (hne : p ≠ []) :
    ∃ q, q ≠ [] ∧ P (p ++ q) := by
  cases hcur : cur with
  | none => exact absurd (h.idle.1 hcur) hne
  | some i =>
    have := h.framed i
    rw [if_pos hcur] at this
    exact this.exists_rest hP h.more_follow hne

end Merging

end OpenRdma.Framing
