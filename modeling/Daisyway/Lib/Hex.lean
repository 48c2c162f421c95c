import Mathlib.Data.List.Basic

/-! # Hexadecimal texts

`hexText` writes bytes with two lower-case digits each and `unhex` reads such a text back; any other
character counts as the value 16, and an odd character at the end is dropped. -/

namespace Daisyway.Lib.Hex

def digits : List Char := "0123456789abcdef".toList

/-- The digit of a value below 16. -/
def hexDigit (n : ℕ) : Char := digits.getD n '0'

def hexValue (c : Char) : ℕ := digits.idxOf c

def hexByte (b : UInt8) : List Char := [hexDigit (b.toNat / 16), hexDigit (b.toNat % 16)]

def hexText (bs : List UInt8) : List Char := bs.flatMap hexByte

def unhex : List Char → List UInt8
  | a :: b :: rest => UInt8.ofNat (hexValue a * 16 + hexValue b) :: unhex rest
  | _ => []

theorem hexValue_hexDigit {n : ℕ} (h : n < 16) : hexValue (hexDigit n) = n := by
  have hall : ∀ m ∈ List.range 16, hexValue (hexDigit m) = m := by decide
  exact hall n (List.mem_range.mpr h)

theorem hexDigit_mem {n : ℕ} (h : n < 16) : hexDigit n ∈ digits := by
  have hall : ∀ m ∈ List.range 16, hexDigit m ∈ digits := by decide
  exact hall n (List.mem_range.mpr h)

theorem hexText_append (bs cs : List UInt8) : hexText (bs ++ cs) = hexText bs ++ hexText cs :=
  List.flatMap_append

/-- A hexadecimal text consists of digits. -/
theorem mem_hexText {c : Char} {bs : List UInt8} (h : c ∈ hexText bs) : c ∈ digits := by
  obtain ⟨b, -, hc⟩ := List.mem_flatMap.mp h
  have hb := b.toNat_lt
  simp only [hexByte, List.mem_cons, List.not_mem_nil, or_false] at hc
  rcases hc with rfl | rfl
  · exact hexDigit_mem (by omega)
  · exact hexDigit_mem (by omega)

/-- **Reading a hexadecimal text back.** -/
theorem unhex_hexText : ∀ bs : List UInt8, unhex (hexText bs) = bs
  | [] => rfl
  | b :: bs => by
    have hb := b.toNat_lt
    have hhigh := hexValue_hexDigit (show b.toNat / 16 < 16 by omega)
    have hlow := hexValue_hexDigit (show b.toNat % 16 < 16 by omega)
    have hsum : b.toNat / 16 * 16 + b.toNat % 16 = b.toNat := by omega
    show UInt8.ofNat _ :: unhex (hexText bs) = _
    rw [hhigh, hlow, hsum, UInt8.ofNat_toNat, unhex_hexText bs]

end Daisyway.Lib.Hex
