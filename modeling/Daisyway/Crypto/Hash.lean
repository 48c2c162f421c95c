import Daisyway.Prim

/-! # Hash domains

A hash domain is a key; mixing data into it hashes the key followed by the data with SHAKE256 and
keeps the first 32 bytes of the output. SHAKE256 itself is a parameter `S`: a byte string is sent to
a stream of output bytes, and nothing is assumed about it. -/

namespace Daisyway.Crypto.Hash

open Daisyway.Prim

/-- An extendable output function: from a byte string to its stream of output bytes. -/
abbrev Shake := Bytes → ℕ → UInt8

/-- The first `n` bytes of a stream. -/
def readN (n : ℕ) (reader : ℕ → UInt8) : Vector UInt8 n := Vector.ofFn fun i => reader i

/-- The key at the place `i` of a packed structure of keys. -/
def keyAt {n : ℕ} (out : Vector UInt8 n) (i : ℕ) : Key :=
  fill keyLength (out.toList.drop (keyLength * i))

theorem readN_eq_iff {n : ℕ} {r r' : ℕ → UInt8} : readN n r = readN n r' ↔ ∀ i < n, r i = r' i := by
  rw [Vector.ext_iff]
  simp [readN]

structure HashDomain where
  key : Key
  deriving DecidableEq

namespace HashDomain

def zero : HashDomain := ⟨zeroed keyLength⟩

variable (S : Shake)

/-- The input hashed when `data` is mixed into the domain. -/
def mixInput (d : HashDomain) (data : Bytes) : Bytes := d.key.toList ++ data

def mixBeginReader (d : HashDomain) (data : Bytes) : ℕ → UInt8 := S (d.mixInput data)

def mixRead (n : ℕ) (d : HashDomain) (data : Bytes) : Vector UInt8 n :=
  readN n (d.mixBeginReader S data)

def mix (d : HashDomain) (data : Bytes) : HashDomain := ⟨d.mixRead S keyLength data⟩

/-- Two domains from the first 64 bytes of output. -/
def mixFork (d : HashDomain) (data : Bytes) : HashDomain × HashDomain :=
  let twoKeys := d.mixRead S (2 * keyLength) data
  (⟨keyAt twoKeys 0⟩, ⟨keyAt twoKeys 1⟩)

/-- Three domains from the first 96 bytes of output. -/
def mixTrifork (d : HashDomain) (data : Bytes) : HashDomain × HashDomain × HashDomain :=
  let threeKeys := d.mixRead S (3 * keyLength) data
  (⟨keyAt threeKeys 0⟩, ⟨keyAt threeKeys 1⟩, ⟨keyAt threeKeys 2⟩)

def intoKey (d : HashDomain) : Key := d.key

end HashDomain

end Daisyway.Crypto.Hash
