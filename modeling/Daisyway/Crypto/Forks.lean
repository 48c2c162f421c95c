import Daisyway.Crypto.Chain

/-! # Forked domains

`mix` derives one domain from the output of SHAKE256, `mixFork` two and `mixTrifork` three, all from
the same stream: the result at the place `i` is the block of 32 bytes at that place, whichever of
the functions is called (`apply_eq`). So a derivation is known by the data and the place, its slot,
and a path of derivations is a chain of slots, to which the general result on hash chains applies:
paths with the same slots give the same domain, and other paths only if blocks of SHAKE256 collide
or are zero (`fork_paths_separate`). -/

namespace Daisyway.Crypto.Forks

open Daisyway.Prim Daisyway.Crypto.Hash Daisyway.Crypto.Chain
open Daisyway.Lib.HashChain

/-- A function called on a domain with some data, and which of its results is used. -/
inductive Derivation where
  | mix (data : Bytes)
  | fork (data : Bytes) (which : Fin 2)
  | trifork (data : Bytes) (which : Fin 3)
  deriving DecidableEq

/-- The data and the place of the result in the output. -/
def Derivation.slot : Derivation → Bytes × ℕ
  | .mix data => (data, 0)
  | .fork data which => (data, which)
  | .trifork data which => (data, which)

section
variable (S : Shake)

def Derivation.apply (d : HashDomain) : Derivation → HashDomain
  | .mix data => d.mix S data
  | .fork data 0 => (d.mixFork S data).1
  | .fork data 1 => (d.mixFork S data).2
  | .trifork data 0 => (d.mixTrifork S data).1
  | .trifork data 1 => (d.mixTrifork S data).2.1
  | .trifork data 2 => (d.mixTrifork S data).2.2

/-- The domain at the end of a path of derivations. -/
def deriveAll (d : HashDomain) (path : List Derivation) : HashDomain :=
  path.foldl (Derivation.apply S) d

/-- The block of 32 bytes at the place `x.2` of the output for `x.1`. -/
def block (x : Bytes × ℕ) : Key := readN keyLength fun j => S x.1 (keyLength * x.2 + j)

/-- The input and the place of the block that is used for a slot. -/
def blockInput (d : HashDomain) (slot : Bytes × ℕ) : Bytes × ℕ := (d.mixInput slot.1, slot.2)

/-- The blocks used along a path. -/
def blocksAlong : HashDomain → List Derivation → List (Bytes × ℕ)
  | _, [] => []
  | d, a :: path => blockInput d a.slot :: blocksAlong (a.apply S d) path

end

section
variable {S : Shake}

/-- A key of the packed structure is a block of the stream. -/
theorem keyAt_mixRead {n i : ℕ} (hi : keyLength * (i + 1) ≤ n) (d : HashDomain) (data : Bytes) :
    keyAt (d.mixRead S n data) i = block S (d.mixInput data, i) := by
  unfold keyAt fill block readN HashDomain.mixRead HashDomain.mixBeginReader
  congr 1
  funext j
  have hj := j.isLt
  have hlt : keyLength * i + j < n := by
    rw [Nat.mul_succ] at hi
    omega
  rw [List.getD_eq_getElem?_getD, List.getElem?_drop]
  simp [readN, hlt]

theorem digest_eq_block (x : Bytes) : digest S x = block S (x, 0) := by
  refine readN_eq_iff.mpr fun i _ => ?_
  rw [Nat.mul_zero, Nat.zero_add]

/-- **Every result is the block at its slot.** -/
theorem apply_eq (d : HashDomain) (a : Derivation) :
    a.apply S d = ⟨block S (blockInput d a.slot)⟩ := by
  cases a with
  | mix data => exact congrArg HashDomain.mk (digest_eq_block (d.mixInput data))
  | fork data which =>
    match which with
    | 0 => exact congrArg HashDomain.mk (keyAt_mixRead (by decide) d data)
    | 1 => exact congrArg HashDomain.mk (keyAt_mixRead (by decide) d data)
  | trifork data which =>
    match which with
    | 0 => exact congrArg HashDomain.mk (keyAt_mixRead (by decide) d data)
    | 1 => exact congrArg HashDomain.mk (keyAt_mixRead (by decide) d data)
    | 2 => exact congrArg HashDomain.mk (keyAt_mixRead (by decide) d data)

theorem deriveAll_eq_chain (path : List Derivation) : ∀ d : HashDomain,
    deriveAll S d path =
      chain blockInput (fun x => HashDomain.mk (block S x)) d (path.map Derivation.slot) := by
  unfold deriveAll chain
  induction path with
  | nil => intro d; rfl
  | cons a path ih =>
    intro d
    rw [List.foldl_cons, List.map_cons, List.foldl_cons, ih, apply_eq]

theorem blocksAlong_eq_inputs (path : List Derivation) : ∀ d : HashDomain,
    blocksAlong S d path =
      inputs blockInput (fun x => HashDomain.mk (block S x)) d (path.map Derivation.slot) := by
  induction path with
  | nil => intro d; rfl
  | cons a path ih =>
    intro d
    simp only [blocksAlong, List.map_cons, inputs, ih, apply_eq]

theorem blockInput_injective : Function.Injective2 blockInput := by
  intro d d' slot slot' h
  obtain ⟨hin, hplace⟩ := Prod.mk.inj h
  obtain ⟨hd, hdata⟩ := mixInput_injective hin
  exact ⟨hd, Prod.ext hdata hplace⟩

/-- **Separation of forked domains.** For all paths of calls of `mix`, `mixFork` and `mixTrifork`
from the zero domain: paths with the same data and places end in the same domain, whichever
functions were called; and if two paths end in one key they have the same data and places, or two
different blocks used along them are equal, or one of these blocks is zero. -/
theorem fork_paths_separate (S : Shake) (p q : List Derivation) :
    (p.map Derivation.slot = q.map Derivation.slot →
      deriveAll S .zero p = deriveAll S .zero q) ∧
    ((deriveAll S .zero p).intoKey = (deriveAll S .zero q).intoKey →
      p.map Derivation.slot = q.map Derivation.slot ∨
      (∃ x ∈ blocksAlong S .zero p ++ blocksAlong S .zero q,
        ∃ y ∈ blocksAlong S .zero p ++ blocksAlong S .zero q, x ≠ y ∧ block S x = block S y) ∨
      (∃ x ∈ blocksAlong S .zero p ++ blocksAlong S .zero q, block S x = zeroed 32)) := by
  constructor
  · intro h
    rw [deriveAll_eq_chain, deriveAll_eq_chain, h]
  · intro h
    have hd : deriveAll S .zero p = deriveAll S .zero q := by
      rw [HashDomain.mk.injEq]
      exact h
    rw [deriveAll_eq_chain, deriveAll_eq_chain] at hd
    rw [blocksAlong_eq_inputs, blocksAlong_eq_inputs]
    rcases eq_of_chain_eq blockInput_injective HashDomain.zero _ _ hd with he | hc | hz
    · exact Or.inl he
    · obtain ⟨x, hx, y, hy, hne, he⟩ := hc
      exact Or.inr (Or.inl ⟨x, hx, y, hy, hne, congrArg HashDomain.key he⟩)
    · obtain ⟨x, hx, he⟩ := hz
      exact Or.inr (Or.inr ⟨x, hx, congrArg HashDomain.key he⟩)

end

end Daisyway.Crypto.Forks
