import Mathlib.Data.Nat.Basic

/-! # Deterministic machines

A machine is a partial step function `f : σ → Option σ`; it has stopped where `f` is `none`.
`steps f n s` makes at most `n` steps from `s`. `Leads f s s'` says that the machine gets from `s`
to `s'`; it is transitive, so a run is described piece by piece, and a piece that leads to a stopped
state is the whole run, for every number of steps that is large enough (`Leads.final`). -/

namespace Daisyway.Lib.Machine

variable {σ : Type*} {f : σ → Option σ} {s s' s'' : σ}

/-- At most `n` steps of the machine. -/
def steps (f : σ → Option σ) : ℕ → σ → σ
  | 0, s => s
  | n + 1, s =>
    match f s with
    | none => s
    | some s' => steps f n s'

/-- The machine gets from `s` to `s'`. -/
def Leads (f : σ → Option σ) (s s' : σ) : Prop := ∃ n, ∀ m, steps f (n + m) s = steps f m s'

theorem Leads.refl (s : σ) : Leads f s s := ⟨0, fun m => by rw [Nat.zero_add]⟩

theorem Leads.single (h : f s = some s') : Leads f s s' := by
  refine ⟨1, fun m => ?_⟩
  rw [Nat.add_comm]
  simp only [steps, h]

theorem Leads.trans (h : Leads f s s') (h' : Leads f s' s'') : Leads f s s'' := by
  obtain ⟨n, hn⟩ := h
  obtain ⟨n', hn'⟩ := h'
  refine ⟨n + n', fun m => ?_⟩
  rw [Nat.add_assoc, hn, hn']

theorem steps_of_stopped (h : f s = none) : ∀ n, steps f n s = s
  | 0 => rfl
  | n + 1 => by simp only [steps, h]

/-- **A run that reaches a stopped state ends there.** -/
theorem Leads.final (h : Leads f s s') (hs : f s' = none) : ∃ n, ∀ m, n ≤ m → steps f m s = s' := by
  obtain ⟨n, hn⟩ := h
  refine ⟨n, fun m hm => ?_⟩
  obtain ⟨k, rfl⟩ := Nat.exists_eq_add_of_le hm
  rw [hn, steps_of_stopped hs]

end Daisyway.Lib.Machine
