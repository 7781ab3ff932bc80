import Mathlib.Data.List.Induction
import Mathlib.Logic.Function.Iterate
import Mathlib.Order.Basic

/-!
# Runs of a transition function

A system is a function `step` from a state and a label to the next state, if there is one. A `Run`
is a finite execution in which every step meets a condition `ok` on the state before it and its
label. Prefixes of a run are runs, so what holds at the end of every run holds in every state it
reaches.
-/

namespace OpenRdma

open List

variable {σ ℓ : Type*} {step : σ → ℓ → Option σ} {ok ok' : σ → ℓ → Prop} {s₀ s : σ} {ls : List ℓ}

/-- The runs of `step` from `s₀` whose steps all meet `ok`, with their labels and last state. -/
inductive Run (step : σ → ℓ → Option σ) (ok : σ → ℓ → Prop) (s₀ : σ) : List ℓ → σ → Prop
  | nil : Run step ok s₀ [] s₀
  | snoc {ls : List ℓ} {s : σ} {l : ℓ} {s' : σ} :
      Run step ok s₀ ls s → ok s l → step s l = some s' → Run step ok s₀ (ls ++ [l]) s'

namespace Run

theorem mono (h : Run step ok s₀ ls s) (himp : ∀ s l, ok s l → ok' s l) : Run step ok' s₀ ls s := by
  induction h with
  | nil => exact .nil
  | snoc _ hok hs ih => exact ih.snoc (himp _ _ hok) hs

/-- What holds at first and is kept by every step holds after every run. -/
theorem invariant {I : List ℓ → σ → Prop} (h : Run step ok s₀ ls s) (h₀ : I [] s₀)
    (hstep : ∀ ls s l s', I ls s → ok s l → step s l = some s' → I (ls ++ [l]) s') : I ls s := by
  induction h with
  | nil => exact h₀
  | snoc _ hok hs ih => exact hstep _ _ _ _ ih hok hs

theorem append_replicate {f : σ → σ} {l : ℓ} (h : Run step ok s₀ ls s) (hok : ∀ s, ok s l)
    (hstep : ∀ s, step s l = some (f s)) (n : ℕ) :
    Run step ok s₀ (ls ++ List.replicate n l) (f^[n] s) := by
  induction n with
  | zero => rwa [replicate_zero, append_nil]
  | succ n ih =>
    rw [replicate_succ', ← append_assoc, Function.iterate_succ_apply']
    exact ih.snoc (hok _) (hstep _)

end Run

/-- Compute a run, stopping where a step does not exist or does not meet the condition. -/
def exec (step : σ → ℓ → Option σ) (ok : σ → ℓ → Prop) [∀ s l, Decidable (ok s l)] :
    σ → List ℓ → Option σ
  | s, [] => some s
  | s, l :: ls => if ok s l then (step s l).bind fun s' => exec step ok s' ls else none

theorem Run.append_exec [∀ s l, Decidable (ok s l)] {ls' : List ℓ} {s' : σ}
    (h : Run step ok s₀ ls s) (he : exec step ok s ls' = some s') :
    Run step ok s₀ (ls ++ ls') s' := by
  induction ls' generalizing ls s with
  | nil =>
    obtain rfl : s = s' := Option.some.inj he
    rwa [append_nil]
  | cons l ls' ih =>
    rw [exec] at he
    split_ifs at he with hok
    obtain ⟨s₁, hs, he⟩ := Option.bind_eq_some_iff.1 he
    have := ih (h.snoc hok hs) he
    rwa [append_assoc, singleton_append] at this

/-- An execution is a run. -/
theorem Run.of_exec [∀ s l, Decidable (ok s l)] (h : exec step ok s₀ ls = some s) :
    Run step ok s₀ ls s :=
  Run.nil.append_exec h

/-- The run is computed once for all facts about its last state. -/
theorem Run.append_any [∀ s l, Decidable (ok s l)] {ls' : List ℓ} {P : σ → Prop} [DecidablePred P]
    (h : Run step ok s₀ ls s) (he : (exec step ok s ls').any (decide <| P ·)) :
    ∃ s', Run step ok s₀ (ls ++ ls') s' ∧ P s' := by
  obtain ⟨s', hs', hP⟩ := (Option.any_eq_true _ _).1 he
  exact ⟨s', h.append_exec hs', of_decide_eq_true hP⟩

/-- The run to the state that is computed. -/
theorem Run.of_isSome [∀ s l, Decidable (ok s l)] (h : (exec step ok s₀ ls).isSome) :
    Run step ok s₀ ls ((exec step ok s₀ ls).get h) :=
  Run.of_exec (Option.some_get h).symm

/-! ## Systems that settle -/

section Settling

variable {own : ℓ → Prop} {s' : σ} {ls' : List ℓ} {μ : σ → ℕ}

/-- No step of the system itself is possible. The labels that are not `own` are steps of its
environment. -/
def Quiescent (step : σ → ℓ → Option σ) (ok : σ → ℓ → Prop) (own : ℓ → Prop) (s : σ) : Prop :=
  ∀ l, own l → ok s l → step s l = none

/-- Own steps decrease the measure, from every state a run reaches. -/
def Decreases (step : σ → ℓ → Option σ) (ok : σ → ℓ → Prop) (own : ℓ → Prop) (s₀ : σ) (μ : σ → ℕ) :
    Prop :=
  ∀ ls s l s', Run step ok s₀ ls s → own l → ok s l → step s l = some s' → μ s' < μ s

namespace Run

theorem unique (h : Run step ok s₀ ls s) (h' : Run step ok s₀ ls s') : s = s' := by
  induction h generalizing s' with
  | nil =>
    generalize hls : [] = ms at h'
    cases h' with
    | nil => rfl
    | snoc => simp at hls
  | @snoc ls s l s₁ _ _ hs ih =>
    generalize hls : ls ++ [l] = ms at h'
    cases h' with
    | nil => simp at hls
    | snoc h' _ hs' =>
      obtain ⟨rfl, hl⟩ := append_inj' hls rfl
      obtain rfl := singleton_inj.1 hl
      rw [ih h', hs'] at hs
      exact (Option.some.inj hs).symm

variable (hμ : Decreases step ok own s₀ μ)
include hμ

theorem length_add_le (h : Run step ok s₀ (ls ++ ls') s')
    (hown : ∀ l ∈ ls', own l) : ∃ s, Run step ok s₀ ls s ∧ ls'.length + μ s' ≤ μ s := by
  induction ls' using reverseRecOn generalizing s' with
  | nil =>
    rw [append_nil] at h
    exact ⟨s', h, by simp⟩
  | append_singleton ls' l ih =>
    rw [← append_assoc] at h
    generalize hls : ls ++ ls' ++ [l] = ms at h
    cases h with
    | nil => simp at hls
    | @snoc ms s₁ l' s' h hok hs =>
      obtain ⟨rfl, hl⟩ := append_inj' hls rfl
      obtain rfl := singleton_inj.1 hl
      obtain ⟨s, hrun, hle⟩ := ih h fun l' hl' => hown l' (mem_append_left _ hl')
      have hlt := hμ _ _ _ _ h (hown l (mem_append_right _ (mem_singleton_self l))) hok hs
      refine ⟨s, hrun, ?_⟩
      rw [length_append, length_singleton]
      omega

/-- **Own steps end**: there are at most as many in a row as the measure says. -/
theorem length_le (h : Run step ok s₀ ls s)
    (h' : Run step ok s₀ (ls ++ ls') s') (hown : ∀ l ∈ ls', own l) : ls'.length ≤ μ s := by
  obtain ⟨s₁, h₁, hle⟩ := h'.length_add_le hμ hown
  rw [h.unique h₁]
  omega

/-- **A system with a decreasing measure settles.** -/
theorem settles (h : Run step ok s₀ ls s) :
    ∃ ls' s', (∀ l ∈ ls', own l) ∧ Run step ok s₀ (ls ++ ls') s' ∧ Quiescent step ok own s' := by
  induction hn : μ s using Nat.strongRecOn generalizing ls s with
  | _ n ih =>
    by_cases hq : Quiescent step ok own s
    · exact ⟨[], s, by simp, by rwa [append_nil], hq⟩
    · rw [Quiescent] at hq
      push Not at hq
      obtain ⟨l, hl, hok, hne⟩ := hq
      obtain ⟨s₁, hs⟩ := Option.ne_none_iff_exists'.1 hne
      have hlt := hμ _ _ _ _ h hl hok hs
      obtain ⟨ls', s', hown, hrun, hq⟩ := ih _ (hn ▸ hlt) (h.snoc hok hs) rfl
      refine ⟨l :: ls', s', forall_mem_cons.2 ⟨hl, hown⟩, ?_, hq⟩
      rwa [append_assoc, singleton_append] at hrun

end Run

end Settling

end OpenRdma
