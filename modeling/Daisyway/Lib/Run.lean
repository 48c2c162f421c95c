import Mathlib.Data.List.Induction

/-! # Runs of a transition system

A system is given by its step function `step : σ → α → Option σ`: in the state `s` the action `a` is
either refused (`none`) or leads to one next state. Everything the environment chooses (an answer, a
random value, which party moves) is part of the action, so a run is a list of actions and the
interleavings of a system are the lists that `run` accepts.

* `run_invariant`: what every step keeps holds of every state reached; `run_invariant_history` is
  the same for statements about the state and the actions that led to it.
* `Along step C s as`: every step of the run `as` from `s` is taken in a state and with an action
  that meet `C`. `run_invariant_along` is the rule for runs restricted so, `along_iff_final` says
  when the restriction is exactly what a run needs to end well, and `along_congr` exchanges one
  restriction for another that is the same under an invariant. -/

namespace Daisyway.Lib.Run

variable {σ α : Type*} {step : σ → α → Option σ}

/-- The run of the actions `as` from `s`; it fails at the first refused action. -/
def run (step : σ → α → Option σ) : σ → List α → Option σ
  | s, [] => some s
  | s, a :: as => (step s a).bind fun s' => run step s' as

@[simp] theorem run_nil (s : σ) : run step s [] = some s := rfl

theorem run_cons (s : σ) (a : α) (as : List α) :
    run step s (a :: as) = (step s a).bind fun s' => run step s' as := rfl

theorem run_cons_some {s s' : σ} {a : α} {as : List α} :
    run step s (a :: as) = some s' ↔ ∃ s1, step s a = some s1 ∧ run step s1 as = some s' := by
  rw [run_cons, Option.bind_eq_some_iff]

theorem run_singleton (s : σ) (a : α) : run step s [a] = step s a := by
  rw [run_cons]
  cases step s a <;> rfl

theorem run_append : ∀ (as bs : List α) (s : σ),
    run step s (as ++ bs) = (run step s as).bind fun s' => run step s' bs
  | [], bs, s => by simp
  | a :: as, bs, s => by
    rw [List.cons_append, run_cons, run_cons, Option.bind_assoc]
    congr 1
    funext s1
    exact run_append as bs s1

theorem run_append_some {s s' : σ} {as bs : List α} :
    run step s (as ++ bs) = some s' ↔
      ∃ s1, run step s as = some s1 ∧ run step s1 bs = some s' := by
  rw [run_append, Option.bind_eq_some_iff]

/-- The last step of a run. -/
theorem run_concat_some {s s' : σ} {as : List α} {a : α} :
    run step s (as ++ [a]) = some s' ↔
      ∃ s1, run step s as = some s1 ∧ step s1 a = some s' := by
  rw [run_append_some]
  simp only [run_cons_some, run_nil, Option.some.injEq, exists_eq_right]

/-- Every step of the run `as` from `s` is taken in a state and with an action that meet `C`. -/
def Along (step : σ → α → Option σ) (C : σ → α → Prop) : σ → List α → Prop
  | _, [] => True
  | s, a :: as => C s a ∧ ∀ s', step s a = some s' → Along step C s' as

/-- **The invariant rule for restricted runs.** -/
theorem run_invariant_along {I : σ → Prop} {C : σ → α → Prop}
    (hstep : ∀ {s a s'}, I s → C s a → step s a = some s' → I s') :
    ∀ {as : List α} {s s' : σ}, I s → Along step C s as → run step s as = some s' → I s'
  | [], s, s', hI, _, h => by
    simp only [run_nil, Option.some.injEq] at h
    exact h ▸ hI
  | a :: as, s, s', hI, hC, h => by
    obtain ⟨s1, h1, h2⟩ := run_cons_some.mp h
    exact run_invariant_along hstep (hstep hI hC.1 h1) (hC.2 s1 h1) h2

/-- A run whose states keep `I` and whose actions meet `P` meets what the two imply. -/
theorem along_of_invariant {I : σ → Prop} {P : α → Prop} {C : σ → α → Prop}
    (hstep : ∀ {s a s'}, I s → step s a = some s' → I s') (hC : ∀ {s a}, I s → P a → C s a) :
    ∀ {as : List α} {s : σ}, I s → (∀ a ∈ as, P a) → Along step C s as
  | [], _, _, _ => trivial
  | a :: as, s, hI, hP => by
    refine ⟨hC hI (hP a List.mem_cons_self), fun s' hs => ?_⟩
    exact along_of_invariant hstep hC (hstep hI hs) fun b hb => hP b (List.mem_cons_of_mem _ hb)

/-- Every action of a run is taken at some step of it. -/
theorem along_mem {C : σ → α → Prop} {a : α} : ∀ {as : List α} {s s' : σ},
    Along step C s as → run step s as = some s' → a ∈ as → ∃ s1 s2, step s1 a = some s2 ∧ C s1 a
  | [], _, _, _, _, ha => by cases ha
  | b :: as, s, s', hC, h, ha => by
    obtain ⟨s1, h1, h2⟩ := run_cons_some.mp h
    rcases List.mem_cons.mp ha with rfl | ha
    · exact ⟨s, s1, h1, hC.1⟩
    · exact along_mem (hC.2 s1 h1) h2 ha

/-- The last step of a restricted run. -/
theorem along_concat {C : σ → α → Prop} {a : α} : ∀ {as : List α} {s s1 : σ},
    Along step C s (as ++ [a]) → run step s as = some s1 → C s1 a
  | [], s, s1, hC, h => by
    obtain rfl : s = s1 := Option.some.inj h
    exact hC.1
  | b :: as, s, s1, hC, h => by
    obtain ⟨s', h1, h2⟩ := run_cons_some.mp h
    exact along_concat (hC.2 s' h1) h2

theorem along_and {C D : σ → α → Prop} : ∀ {as : List α} {s : σ},
    Along step C s as → Along step D s as → Along step (fun s a => C s a ∧ D s a) s as
  | [], _, _, _ => trivial
  | _ :: _, _, hC, hD => ⟨⟨hC.1, hD.1⟩, fun s' hs => along_and (hC.2 s' hs) (hD.2 s' hs)⟩

theorem along_true : ∀ (as : List α) (s : σ), Along step (fun _ _ => True) s as
  | [], _ => trivial
  | _ :: as, _ => ⟨trivial, fun s' _ => along_true as s'⟩

/-- **The invariant rule.** -/
theorem run_invariant {I : σ → Prop} (hstep : ∀ {s a s'}, I s → step s a = some s' → I s')
    {as : List α} {s s' : σ} (hI : I s) (h : run step s as = some s') : I s' :=
  run_invariant_along (C := fun _ _ => True) (fun hI _ => hstep hI) hI (along_true as s) h

/-- **The invariant rule with history**: the invariant also speaks about the actions taken so far.
-/
theorem run_invariant_history {I : List α → σ → Prop} {s : σ} (h0 : I [] s)
    (hstep : ∀ {as s1 a s2}, I as s1 → step s1 a = some s2 → I (as ++ [a]) s2) {as : List α} :
    ∀ {s' : σ}, run step s as = some s' → I as s' := by
  induction as using List.reverseRecOn with
  | nil =>
    intro s' h
    obtain rfl : s = s' := Option.some.inj h
    exact h0
  | append_singleton as a ih =>
    intro s' h
    obtain ⟨s1, h1, h2⟩ := run_concat_some.mp h
    exact hstep (ih h1) h2

/-- **Exactness.** If a step meets `C` exactly when it leads to a good state, and a state that is
not good has no steps, then a run from a good state meets `C` throughout exactly when it ends in a
good state. -/
theorem along_iff_final {G : σ → Prop} {C : σ → α → Prop}
    (hstep : ∀ {s a s'}, step s a = some s' → (C s a ↔ G s'))
    (hfinal : ∀ {s a}, ¬ G s → step s a = none) :
    ∀ {as : List α} {s s' : σ}, G s → run step s as = some s' → (Along step C s as ↔ G s')
  | [], s, s', hG, h => by
    obtain rfl : s = s' := Option.some.inj h
    exact ⟨fun _ => hG, fun _ => trivial⟩
  | a :: as, s, s', hG, h => by
    obtain ⟨s1, h1, h2⟩ := run_cons_some.mp h
    have hrest : Along step C s (a :: as) ↔ C s a ∧ Along step C s1 as := by
      refine and_congr_right fun _ => ⟨fun hall => hall s1 h1, fun hs1 s2 h12 => ?_⟩
      obtain rfl : s1 = s2 := Option.some.inj (h1.symm.trans h12)
      exact hs1
    rw [hrest, hstep h1]
    by_cases hG1 : G s1
    · rw [along_iff_final hstep hfinal hG1 h2]
      exact and_iff_right hG1
    · -- the run has ended in the bad state `s1`
      cases as with
      | nil =>
        obtain rfl : s1 = s' := Option.some.inj h2
        exact ⟨fun h => h.1, fun h => absurd h hG1⟩
      | cons b bs =>
        rw [run_cons, hfinal hG1] at h2
        exact absurd h2 (by simp)

theorem run_down {J : σ → Prop} (hdown : ∀ {s a s'}, J s' → step s a = some s' → J s) :
    ∀ {as : List α} {s s' : σ}, run step s as = some s' → J s' → J s
  | [], s, s', h, hJ => by
    obtain rfl : s = s' := Option.some.inj h
    exact hJ
  | a :: as, s, s', h, hJ => by
    obtain ⟨s1, h1, h2⟩ := run_cons_some.mp h
    exact hdown (run_down hdown h2 hJ) h1

/-- **A run of a system is a run of each of its parts**: if every step is a run of the part, so is
every run. -/
theorem run_project {τ β : Type*} {step' : τ → β → Option τ} (part : σ → τ) (acts : α → List β)
    (hstep : ∀ {s a s'}, step s a = some s' → run step' (part s) (acts a) = some (part s')) :
    ∀ {as : List α} {s s' : σ}, run step s as = some s' →
      run step' (part s) (as.flatMap acts) = some (part s')
  | [], s, s', h => by
    obtain rfl : s = s' := Option.some.inj h
    rfl
  | a :: as, s, s', h => by
    obtain ⟨s1, h1, h2⟩ := run_cons_some.mp h
    rw [List.flatMap_cons, run_append_some]
    exact ⟨part s1, hstep h1, run_project part acts hstep h2⟩

/-- A run is also a run of a system that makes the same steps with its actions. -/
theorem run_of_steps {step' : σ → α → Option σ} : ∀ {as : List α} {s s' : σ},
    (∀ a ∈ as, ∀ {s s'}, step s a = some s' → step' s a = some s') →
      run step s as = some s' → run step' s as = some s'
  | [], _, _, _, h => h
  | a :: as, s, s', hstep, h => by
    obtain ⟨s1, h1, h2⟩ := run_cons_some.mp h
    refine run_cons_some.mpr ⟨s1, hstep a List.mem_cons_self h1, ?_⟩
    exact run_of_steps (fun b hb => hstep b (List.mem_cons_of_mem _ hb)) h2

/-- **Exchanging the restriction** for one that agrees with it on every step from a state with the
invariant `I`. `J` bounds how far a run may go: it holds at the end, so it holds all the way. -/
theorem along_congr {I J : σ → Prop} {C C' : σ → α → Prop}
    (hstep : ∀ {s a s'}, I s → J s' → step s a = some s' → I s')
    (hdown : ∀ {s a s'}, J s' → step s a = some s' → J s)
    (hC : ∀ {s a s'}, I s → J s → step s a = some s' → (C s a ↔ C' s a)) :
    ∀ {as : List α} {s s' : σ}, I s → run step s as = some s' → J s' →
      (Along step C s as ↔ Along step C' s as)
  | [], _, _, _, _, _ => Iff.rfl
  | a :: as, s, s', hI, h, hJ => by
    obtain ⟨s1, h1, h2⟩ := run_cons_some.mp h
    have hJ1 : J s1 := run_down hdown h2 hJ
    refine and_congr (hC hI (hdown hJ1 h1) h1) (forall_congr' fun s2 => ?_)
    refine imp_congr_right fun h12 => ?_
    obtain rfl : s1 = s2 := Option.some.inj (h1.symm.trans h12)
    exact along_congr hstep hdown hC (hstep hI hJ1 h1) h2 hJ

instance decidableAlong {C : σ → α → Prop} [∀ s a, Decidable (C s a)] :
    ∀ (s : σ) (as : List α), Decidable (Along step C s as)
  | _, [] => isTrue trivial
  | s, a :: as =>
    match h : step s a with
    | none => decidable_of_iff (C s a) (by simp [Along, h])
    | some s' =>
      have : Decidable (Along step C s' as) := decidableAlong s' as
      decidable_of_iff (C s a ∧ Along step C s' as) (by simp [Along, h])

end Daisyway.Lib.Run
