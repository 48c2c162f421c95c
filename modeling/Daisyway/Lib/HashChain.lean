import Mathlib.Logic.Function.Basic
import Mathlib.Data.List.Basic
import Mathlib.Data.List.Induction

/-! # Hash chains

A chain starts from a value `k` and absorbs labels one by one: each step encodes the value so far
and the next label (`enc`) and digests the encoding (`D`). The encoding needs no length field: it is
enough that it can be read back. Two chains from one start that end in the same value absorbed the
same labels, or two of the encodings on the way are different and have one digest, or one of them is
digested to the start value (`eq_of_chain_eq`). -/

namespace Daisyway.Lib.HashChain

section
variable {κ Λ ι : Type*} (enc : κ → Λ → ι) (D : ι → κ)

/-- The value after absorbing the labels. -/
def chain (k : κ) (ls : List Λ) : κ := ls.foldl (fun k l => D (enc k l)) k

/-- The inputs that are digested on the way. -/
def inputs : κ → List Λ → List ι
  | _, [] => []
  | k, l :: ls => enc k l :: inputs (D (enc k l)) ls

@[simp] theorem chain_nil (k : κ) : chain enc D k [] = k := rfl

@[simp] theorem chain_concat (k : κ) (ls : List Λ) (l : Λ) :
    chain enc D k (ls ++ [l]) = D (enc (chain enc D k ls) l) := by
  simp [chain]

theorem inputs_concat (ls : List Λ) (l : Λ) : ∀ k : κ,
    inputs enc D k (ls ++ [l]) = inputs enc D k ls ++ [enc (chain enc D k ls) l] := by
  induction ls with
  | nil => intro k; rfl
  | cons a ls ih =>
    intro k
    simp only [List.cons_append, inputs, ih, chain, List.foldl_cons]

/-- Two different inputs among `xs` have one digest. -/
def Collides (xs : List ι) : Prop := ∃ x ∈ xs, ∃ y ∈ xs, x ≠ y ∧ D x = D y

/-- One of the inputs `xs` is digested to `k`. -/
def Hits (k : κ) (xs : List ι) : Prop := ∃ x ∈ xs, D x = k

variable {enc D}

theorem Collides.mono {xs ys : List ι} (h : Collides D xs) (hs : xs ⊆ ys) : Collides D ys := by
  obtain ⟨x, hx, y, hy, hne, he⟩ := h
  exact ⟨x, hs hx, y, hs hy, hne, he⟩

theorem Hits.mono {k : κ} {xs ys : List ι} (h : Hits D k xs) (hs : xs ⊆ ys) : Hits D k ys := by
  obtain ⟨x, hx, he⟩ := h
  exact ⟨x, hs hx, he⟩

/-- **Chains that meet are equal, collide, or return to their start.** The induction takes the last
label of both chains at once: if the last inputs agree, so do the values before them. -/
theorem eq_of_chain_eq (henc : Function.Injective2 enc) (k : κ) (ls : List Λ) : ∀ ls' : List Λ,
    chain enc D k ls = chain enc D k ls' →
      ls = ls' ∨ Collides D (inputs enc D k ls ++ inputs enc D k ls') ∨
        Hits D k (inputs enc D k ls ++ inputs enc D k ls') := by
  induction ls using List.reverseRecOn with
  | nil =>
    intro ls' h
    rcases List.eq_nil_or_concat' ls' with rfl | ⟨ms, m, rfl⟩
    · exact Or.inl rfl
    · rw [chain_nil, chain_concat] at h
      right; right
      refine ⟨_, ?_, h.symm⟩
      simp [inputs_concat]
  | append_singleton ls l ih =>
    intro ls' h
    rcases List.eq_nil_or_concat' ls' with rfl | ⟨ms, m, rfl⟩
    · rw [chain_nil, chain_concat] at h
      right; right
      refine ⟨_, ?_, h⟩
      simp [inputs_concat]
    · rw [chain_concat, chain_concat] at h
      rw [inputs_concat, inputs_concat]
      by_cases he : enc (chain enc D k ls) l = enc (chain enc D k ms) m
      · obtain ⟨hk, rfl⟩ := henc he
        have hs : inputs enc D k ls ++ inputs enc D k ms ⊆
            inputs enc D k ls ++ [enc (chain enc D k ls) l] ++
              (inputs enc D k ms ++ [enc (chain enc D k ms) l]) := by
          intro x hx
          simp only [List.mem_append] at hx ⊢
          tauto
        rcases ih ms hk with rfl | hc | hh
        · exact Or.inl rfl
        · exact Or.inr (Or.inl (hc.mono hs))
        · exact Or.inr (Or.inr (hh.mono hs))
      · right; left
        exact ⟨_, by simp, _, by simp, he, h⟩

end

end Daisyway.Lib.HashChain
