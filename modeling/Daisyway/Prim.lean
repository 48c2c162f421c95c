import Mathlib.Data.List.Basic
import Mathlib.Tactic.IntervalCases
import Daisyway.Lib.Hex

/-! # Byte strings, texts, fixed arrays and identifiers

Byte slices are lists of bytes and the fixed arrays `[u8; N]` are vectors. `fill n bs` is the array
a read leaves behind: a buffer of `n` zero bytes whose front is overwritten with `bs`. A `Uuid` is
its sixteen bytes; `toBytesLe` reverses its first three fields (of four, two and two bytes) and
keeps the rest, `toText` is its hyphenated text. -/

namespace Daisyway.Prim

open Daisyway.Lib.Hex

/-- A byte string. -/
abbrev Bytes := List UInt8

/-- A string. -/
abbrev Text := List Char

/-- `[u8; KEY_LENGTH]`. -/
abbrev Key := Vector UInt8 32

/-- The number of bytes of a key. -/
def keyLength : ℕ := 32

/-- `new_zeroed`. -/
def zeroed (n : ℕ) : Vector UInt8 n := Vector.replicate n 0

/-- A zeroed array of `n` bytes with its front overwritten by `bs`. -/
def fill (n : ℕ) (bs : Bytes) : Vector UInt8 n := Vector.ofFn fun i => bs.getD i 0

theorem toList_fill {n : ℕ} {bs : Bytes} (h : bs.length = n) : (fill n bs).toList = bs := by
  refine List.ext_getElem (by simp [h]) fun i h1 h2 => ?_
  simp [fill, List.getElem?_eq_getElem h2]

/-- How a call ends: with a value, with an error, or by a panic that unwinds the caller. -/
inductive Outcome (ε α : Type) where
  | ok (a : α)
  | err (e : ε)
  | panicked
  deriving DecidableEq

namespace Outcome

variable {ε α β : Type}

/-- `?`: an error or a panic ends the caller as well. -/
def bind : Outcome ε α → (α → Outcome ε β) → Outcome ε β
  | .ok a, f => f a
  | .err e, _ => .err e
  | .panicked, _ => .panicked

instance : Monad (Outcome ε) where
  pure := .ok
  bind := bind

theorem bind_eq_ok {x : Outcome ε α} {f : α → Outcome ε β} {b : β} :
    (x >>= f) = .ok b ↔ ∃ a, x = .ok a ∧ f a = .ok b := by
  show x.bind f = .ok b ↔ _
  cases x <;> simp [bind]

/-- `map_err` of a result that cannot be a panic. -/
def ofExcept {ε' : Type} (f : ε' → ε) : Except ε' α → Outcome ε α
  | .ok a => .ok a
  | .error e => .err (f e)

@[simp] theorem ofExcept_eq_ok {ε' : Type} {f : ε' → ε} {x : Except ε' α} {a : α} :
    ofExcept f x = .ok a ↔ x = .ok a := by
  cases x <;> simp [ofExcept]

/-- `map_err`. -/
def mapErr {ε' : Type} (f : ε' → ε) : Outcome ε' α → Outcome ε α
  | .ok a => .ok a
  | .err e => .err (f e)
  | .panicked => .panicked

@[simp] theorem mapErr_eq_ok {ε' : Type} {f : ε' → ε} {x : Outcome ε' α} {a : α} :
    x.mapErr f = .ok a ↔ x = .ok a := by
  cases x <;> simp [mapErr]

end Outcome

/-! ### Uuids -/

/-- `[u8; 16]`. -/
abbrev UuidBytes := Vector UInt8 16

/-- A key identifier. -/
structure Uuid where
  bytes : UuidBytes
  deriving DecidableEq

namespace Uuid

/-- `Uuid::as_bytes`. -/
def asBytes (u : Uuid) : UuidBytes := u.bytes

/-- `Uuid::from_bytes`. -/
def fromBytes (b : UuidBytes) : Uuid := ⟨b⟩

/-- `Uuid::to_bytes_le`: the fields of four, two and two bytes little-endian, the rest as it is. -/
def toBytesLe (u : Uuid) : UuidBytes :=
  let b := u.bytes
  #v[b[3], b[2], b[1], b[0], b[5], b[4], b[7], b[6],
    b[8], b[9], b[10], b[11], b[12], b[13], b[14], b[15]]

@[simp] theorem fromBytes_asBytes (u : Uuid) : fromBytes u.asBytes = u := rfl

theorem toBytesLe_injective : Function.Injective toBytesLe := by
  intro u u' h
  have hb : ∀ i (hi : i < 16), u.toBytesLe[i] = u'.toBytesLe[i] := fun i hi => by rw [h]
  obtain ⟨b⟩ := u
  obtain ⟨b'⟩ := u'
  congr 1
  refine Vector.ext fun i hi => ?_
  -- where the byte `i` stands after the permutation
  interval_cases i
  · exact hb 3 (by decide)
  · exact hb 2 (by decide)
  · exact hb 1 (by decide)
  · exact hb 0 (by decide)
  · exact hb 5 (by decide)
  · exact hb 4 (by decide)
  · exact hb 7 (by decide)
  · exact hb 6 (by decide)
  · exact hb 8 (by decide)
  · exact hb 9 (by decide)
  · exact hb 10 (by decide)
  · exact hb 11 (by decide)
  · exact hb 12 (by decide)
  · exact hb 13 (by decide)
  · exact hb 14 (by decide)
  · exact hb 15 (by decide)

/-- `Uuid::to_string`: the hyphenated form. -/
def toText (u : Uuid) : Text :=
  let bs := u.asBytes.toList
  hexText (bs.take 4) ++ '-' :: hexText ((bs.drop 4).take 2) ++
    '-' :: hexText ((bs.drop 6).take 2) ++ '-' :: hexText ((bs.drop 8).take 2) ++
    '-' :: hexText (bs.drop 10)

theorem mem_toText {u : Uuid} {c : Char} (h : c ∈ u.toText) : c = '-' ∨ c ∈ digits := by
  simp only [toText, List.mem_append, List.mem_cons] at h
  rcases h with (((h | h | h) | h | h) | h | h) | h | h
  all_goals first | exact Or.inl h | exact Or.inr (mem_hexText h)

/-- `Uuid::from_u128`: the sixteen bytes of the number, the highest first. -/
def fromU128 (n : ℕ) : Uuid := ⟨Vector.ofFn fun i => UInt8.ofNat (n / 256 ^ (15 - i.val))⟩

theorem eq_of_fromU128_eq {n m : ℕ} (hn : n < 2 ^ 128) (hm : m < 2 ^ 128)
    (h : fromU128 n = fromU128 m) : n = m := by
  have hbyte : ∀ k < 16, n / 256 ^ k % 256 = m / 256 ^ k % 256 := by
    intro k hk
    have hv : (fromU128 n).bytes[15 - k] = (fromU128 m).bytes[15 - k] := by rw [h]
    have hnat := congrArg UInt8.toNat hv
    simpa [fromU128, show 15 - (15 - k) = k by omega] using hnat
  have hmod : ∀ k ≤ 16, n % 256 ^ k = m % 256 ^ k := by
    intro k
    induction k with
    | zero => simp [Nat.mod_one]
    | succ k ih =>
      intro hk
      rw [Nat.mod_pow_succ, Nat.mod_pow_succ, ih (by omega), hbyte k (by omega)]
  have h16 := hmod 16 le_rfl
  rwa [Nat.mod_eq_of_lt (by omega), Nat.mod_eq_of_lt (by omega)] at h16

end Uuid

/-- A key of the QKD device with its identifier. -/
structure Etsi014Key where
  id : Uuid
  key : Key
  deriving DecidableEq

end Daisyway.Prim
