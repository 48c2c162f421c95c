import Daisyway.Crypto.Basics
import Daisyway.Lib.HashChain

/-! # Domain separation

`mixAll` mixes a list of labels into a hash domain; the protocol's domains and the key derivation
are such chains from the zero domain (`deriveKey_eq`, `deriveDaisywayKey_eq`). The key of a domain
and the data mixed into it are concatenated without a length field; since the key has 32 bytes the
two can be read back (`mixInput_injective`), so two chains of labels give one key only if they are
equal or SHAKE256, cut to 32 bytes, collides or is zero on inputs of the chains. -/

namespace Daisyway.Crypto.Chain

open Daisyway.Prim Daisyway.Crypto.Hash Daisyway.Crypto.Basics
open Daisyway.Lib.HashChain

section
variable (S : Shake)

/-- The first 32 bytes of SHAKE256. -/
def digest (x : Bytes) : Key := readN keyLength (S x)

/-- The domain after mixing the labels one after the other. -/
def mixAll (d : HashDomain) (labels : List Bytes) : HashDomain :=
  labels.foldl (fun d l => d.mix S l) d

/-- The inputs that are hashed when the labels are mixed into the domain. -/
def hashedAlong : HashDomain → List Bytes → List Bytes
  | _, [] => []
  | d, l :: ls => d.mixInput l :: hashedAlong (d.mix S l) ls

end

/-! ### The domains of the protocol -/

section
variable {S : Shake}

theorem deriveKey_eq : ProtocolDomains.deriveKey S =
    mixAll S .zero [ProtocolDomains.protocolDomain, "derive key".toUTF8.data.toList] := rfl

theorem deriveDaisywayKey_eq (params : DaisywayProtocolParameters) (nonce : Nonce)
    (key : Etsi014Key) :
    deriveDaisywayKey S params nonce key = (mixAll S .zero [ProtocolDomains.protocolDomain,
      "derive key".toUTF8.data.toList, (kdfInput params nonce key).asBytes]).key := rfl

/-! ### Chains of labels -/

/-- The key and the data can be read back from the hashed input. -/
theorem mixInput_injective : Function.Injective2 HashDomain.mixInput := by
  intro d d' l l' h
  have hlen : d.key.toList.length = d'.key.toList.length := by simp
  obtain ⟨hk, hl⟩ := List.append_inj h hlen
  have hd : d = d' := by
    rw [HashDomain.mk.injEq]
    exact Vector.toList_inj.mp hk
  exact ⟨hd, hl⟩

theorem mixAll_eq_chain (d : HashDomain) (ls : List Bytes) :
    mixAll S d ls = chain HashDomain.mixInput (fun x => ⟨digest S x⟩) d ls := rfl

theorem hashedAlong_eq_inputs (ls : List Bytes) : ∀ d : HashDomain,
    hashedAlong S d ls = inputs HashDomain.mixInput (fun x => ⟨digest S x⟩) d ls := by
  induction ls with
  | nil => intro d; rfl
  | cons l ls ih => intro d; exact congrArg _ (ih _)

/-- **Domain separation.** Two chains of labels from the zero domain that end in one key are equal,
or two different inputs hashed along them have the same first 32 bytes of output, or one of these
inputs is hashed to the zero key. -/
theorem mix_chains_separate (S : Shake) (l1 l2 : List Bytes)
    (h : (mixAll S .zero l1).intoKey = (mixAll S .zero l2).intoKey) :
    l1 = l2 ∨
      (∃ x ∈ hashedAlong S .zero l1 ++ hashedAlong S .zero l2,
        ∃ y ∈ hashedAlong S .zero l1 ++ hashedAlong S .zero l2,
          x ≠ y ∧ digest S x = digest S y) ∨
      (∃ x ∈ hashedAlong S .zero l1 ++ hashedAlong S .zero l2, digest S x = zeroed 32) := by
  have hd : mixAll S .zero l1 = mixAll S .zero l2 := by
    rw [HashDomain.mk.injEq]
    exact h
  rw [mixAll_eq_chain, mixAll_eq_chain] at hd
  rw [hashedAlong_eq_inputs, hashedAlong_eq_inputs]
  rcases eq_of_chain_eq mixInput_injective HashDomain.zero l1 l2 hd with he | hc | hz
  · exact Or.inl he
  · obtain ⟨x, hx, y, hy, hne, he⟩ := hc
    exact Or.inr (Or.inl ⟨x, hx, y, hy, hne, congrArg HashDomain.key he⟩)
  · obtain ⟨x, hx, he⟩ := hz
    exact Or.inr (Or.inr ⟨x, hx, congrArg HashDomain.key he⟩)

end

/-- An output function that only sees the length of its input. -/
def lengthShake : Shake := fun x _ => UInt8.ofNat x.length

/-- Two chains of different labels with one key: their inputs collide. -/
theorem mix_chains_separate_lengthShake :
    (mixAll lengthShake .zero [[1], [2, 3]]).intoKey = (mixAll lengthShake .zero [[4, 5]]).intoKey ∧
      ∃ x ∈ hashedAlong lengthShake .zero [[1], [2, 3]] ++ hashedAlong lengthShake .zero [[4, 5]],
        ∃ y ∈ hashedAlong lengthShake .zero [[1], [2, 3]] ++
          hashedAlong lengthShake .zero [[4, 5]],
          x ≠ y ∧ digest lengthShake x = digest lengthShake y := by
  have hk : (mixAll lengthShake .zero [[1], [2, 3]]).intoKey =
      (mixAll lengthShake .zero [[4, 5]]).intoKey := by decide
  have hz : ∀ x ∈ hashedAlong lengthShake .zero [[1], [2, 3]] ++
      hashedAlong lengthShake .zero [[4, 5]], digest lengthShake x ≠ zeroed 32 := by decide
  refine ⟨hk, ?_⟩
  rcases mix_chains_separate lengthShake _ _ hk with h | h | ⟨x, hx, h⟩
  · exact absurd h (by decide)
  · exact h
  · exact absurd h (hz x hx)

end Daisyway.Crypto.Chain
