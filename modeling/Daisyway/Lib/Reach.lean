import Daisyway.Lib.Run

/-! # What a system can still do

`Reaches step P s s'` says that some run leads from `s` to `s'`, with actions that meet `P` only. A
system has no dead end where a good state can be reached from every state that can be reached. To
show this one leads a state to a good one in phases: a phase that uses up what is left of something
is `reaches_zero`, and a phase in which only one component moves is a run of that component
(`Reaches.lift`). -/

namespace Daisyway.Lib.Reach

open Daisyway.Lib.Run

variable {σ α : Type*} {step : σ → α → Option σ} {P : α → Bool} {s s1 s2 : σ}

/-- A run of actions that meet `P` leads from `s` to `s'`. -/
def Reaches (step : σ → α → Option σ) (P : α → Bool) (s s' : σ) : Prop :=
  ∃ as, (∀ a ∈ as, P a = true) ∧ run step s as = some s'

theorem Reaches.refl (s : σ) : Reaches step P s s := ⟨[], fun _ ha => (nomatch ha), rfl⟩

theorem Reaches.single {a : α} (ha : P a = true) (h : step s a = some s1) :
    Reaches step P s s1 := by
  refine ⟨[a], fun b hb => ?_, (run_singleton s a).trans h⟩
  rw [List.mem_singleton.mp hb]
  exact ha

theorem Reaches.trans (h1 : Reaches step P s s1) (h2 : Reaches step P s1 s2) :
    Reaches step P s s2 := by
  obtain ⟨as, hP, ha⟩ := h1
  obtain ⟨bs, hQ, hb⟩ := h2
  refine ⟨as ++ bs, fun a h => ?_, run_append_some.mpr ⟨s1, ha, hb⟩⟩
  exact (List.mem_append.mp h).elim (hP a) (hQ a)

/-- A step, and then a run. -/
theorem Reaches.head {a : α} (ha : P a = true) (h1 : step s a = some s1)
    (h2 : Reaches step P s1 s2) : Reaches step P s s2 :=
  (Reaches.single ha h1).trans h2

theorem Reaches.mono {Q : α → Bool} (hPQ : ∀ a, P a = true → Q a = true)
    (h : Reaches step P s s1) : Reaches step Q s s1 := by
  obtain ⟨as, hP, ha⟩ := h
  exact ⟨as, fun a hmem => hPQ a (hP a hmem), ha⟩

/-- What every step keeps. -/
theorem Reaches.invariant {I : σ → Prop} (h : Reaches step P s s1)
    (hstep : ∀ {s a s'}, I s → step s a = some s' → I s') (hI : I s) : I s1 := by
  obtain ⟨as, -, ha⟩ := h
  exact run_invariant hstep hI ha

/-- **A component runs.** A run of a component is a run of the system. -/
theorem Reaches.lift {τ β : Type*} {step' : τ → β → Option τ} {Q : β → Bool} {f : σ → τ} {g : α → β}
    (hPQ : ∀ a, P a = true → Q (g a) = true)
    (hstep : ∀ {s a s'}, step s a = some s' → step' (f s) (g a) = some (f s'))
    (h : Reaches step P s s1) : Reaches step' Q (f s) (f s1) := by
  obtain ⟨as, hP, ha⟩ := h
  induction as generalizing s with
  | nil =>
    obtain rfl : s = s1 := Option.some.inj ha
    exact Reaches.refl _
  | cons a as ih =>
    obtain ⟨s', h1, h2⟩ := run_cons_some.mp ha
    refine Reaches.head (hPQ a (hP a List.mem_cons_self)) (hstep h1) (ih (fun b hb => ?_) h2)
    exact hP b (List.mem_cons_of_mem a hb)

/-- **Using up**: if from every state with the invariant `I` in which something is left one can
reach one in which less is left, then one can reach a state in which nothing is left. -/
theorem reaches_zero {I : σ → Prop} {μ : σ → ℕ}
    (h : ∀ s, I s → μ s ≠ 0 → ∃ s', Reaches step P s s' ∧ I s' ∧ μ s' < μ s) (hI : I s) :
    ∃ s', Reaches step P s s' ∧ I s' ∧ μ s' = 0 := by
  induction hn : μ s using Nat.strongRecOn generalizing s with
  | _ n ih =>
    by_cases hz : μ s = 0
    · exact ⟨s, Reaches.refl s, hI, hz⟩
    · obtain ⟨s1, h1, hI1, hlt⟩ := h s hI hz
      obtain ⟨s2, h2, hI2, hzero⟩ := ih (μ s1) (hn ▸ hlt) hI1 rfl
      exact ⟨s2, h1.trans h2, hI2, hzero⟩

end Daisyway.Lib.Reach
