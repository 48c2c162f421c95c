import Mathlib.Algebra.Group.Nat.Defs
import Mathlib.Data.List.Basic

/-! # SHAKE256

The extendable output function of the Keccak family with a capacity of 512 bits, executable. A state
of 25 lanes of 64 bits is one natural number, the lane `i` at the bits from `64 * i` on, so that the
permutation is arithmetic on single numbers and evaluates in the kernel. -/

namespace Daisyway.Lib.Keccak

/-! ### The permutation -/

/-- All bits of a lane. -/
def mask : ℕ := 2 ^ 64 - 1

/-- The lane `i` of a state. -/
def lane (s i : ℕ) : ℕ := (s >>> (64 * i)) &&& mask

/-- The lane `x` rotated by `n` bits. -/
def rotl (x n : ℕ) : ℕ := ((x <<< n) ||| (x >>> (64 - n))) &&& mask

/-- The state with the lanes `f 0, …, f (n - 1)`. -/
def pack (f : ℕ → ℕ) : ℕ → ℕ
  | 0 => 0
  | n + 1 => pack f n ||| (f n <<< (64 * n))

/-- The parities of the five columns of lanes. -/
def parities (s : ℕ) : ℕ :=
  pack (fun x => lane s x ^^^ lane s (x + 5) ^^^ lane s (x + 10) ^^^ lane s (x + 15) ^^^
    lane s (x + 20)) 5

/-- Adds to every lane the parities `c` of the two neighbouring columns. -/
def addParities (c s : ℕ) : ℕ :=
  pack (fun i => lane s i ^^^ lane c ((i + 4) % 5) ^^^ rotl (lane c ((i + 1) % 5)) 1) 25

def theta (s : ℕ) : ℕ := addParities (parities s) s

/-- The rotations of the lanes. -/
def offsets : List ℕ :=
  [0, 1, 62, 28, 27, 36, 44, 6, 55, 20, 3, 10, 43, 25, 39, 41, 45, 15, 21, 8, 18, 2, 61, 56, 14]

/-- The lane that is moved to the place `i`. -/
def source (i : ℕ) : ℕ := (i % 5 + 3 * (i / 5)) % 5 + 5 * (i % 5)

def rhoPi (s : ℕ) : ℕ := pack (fun i => rotl (lane s (source i)) (offsets.getD (source i) 0)) 25

def chi (s : ℕ) : ℕ :=
  pack (fun i => lane s i ^^^
    ((lane s (5 * (i / 5) + (i + 1) % 5) ^^^ mask) &&& lane s (5 * (i / 5) + (i + 2) % 5))) 25

def roundConstants : List ℕ :=
  [0x0000000000000001, 0x0000000000008082, 0x800000000000808A, 0x8000000080008000,
   0x000000000000808B, 0x0000000080000001, 0x8000000080008081, 0x8000000000008009,
   0x000000000000008A, 0x0000000000000088, 0x0000000080008009, 0x000000008000000A,
   0x000000008000808B, 0x800000000000008B, 0x8000000000008089, 0x8000000000008003,
   0x8000000000008002, 0x8000000000000080, 0x000000000000800A, 0x800000008000000A,
   0x8000000080008081, 0x8000000000008080, 0x0000000080000001, 0x8000000080008008]

def permute (s : ℕ) : ℕ := roundConstants.foldl (fun s c => chi (rhoPi (theta s)) ^^^ c) s

/-! ### The sponge -/

/-- The bytes of a block. -/
def rate : ℕ := 136

/-- The bytes followed by the domain bits and the padding, a multiple of `rate` in length. -/
def pad (bs : List UInt8) : List UInt8 :=
  let q := rate - bs.length % rate
  if q = 1 then bs ++ [0x9f] else bs ++ 0x1f :: (List.replicate (q - 2) 0 ++ [0x80])

/-- The number with the given bytes, the least significant first. -/
def ofBytes : List UInt8 → ℕ
  | [] => 0
  | b :: bs => b.toNat + 256 * ofBytes bs

/-- Absorbs `n` blocks. -/
def absorb : ℕ → ℕ → List UInt8 → ℕ
  | 0, s, _ => s
  | n + 1, s, bs => absorb n (permute (s ^^^ ofBytes (bs.take rate))) (bs.drop rate)

/-- The state the output block `n` is read from. -/
def squeeze (s : ℕ) : ℕ → ℕ
  | 0 => s
  | n + 1 => permute (squeeze s n)

/-- **SHAKE256**: the byte `i` of the output stream of `bs`. -/
def shake256 (bs : List UInt8) (i : ℕ) : UInt8 :=
  let s := absorb ((pad bs).length / rate) 0 (pad bs)
  UInt8.ofNat (squeeze s (i / rate) >>> (8 * (i % rate)))

example : (List.range 8).map (shake256 []) = [0x46, 0xb9, 0xdd, 0x2b, 0x0b, 0xa8, 0x8d, 0x13] := by
  decide +kernel

end Daisyway.Lib.Keccak
