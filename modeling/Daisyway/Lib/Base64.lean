import Mathlib.Data.List.Count

/-! # Base64

The padded standard alphabet of RFC 4648. `encode` is the canonical encoding; `decode src n` accepts
exactly the canonical encodings of at most `n` bytes: it reads the six-bit values of `src`, drops
the bytes the padding stands for, and compares the encoding of the result with `src`. That it reads
back what `encode` wrote (`ungroupAll_encode`) makes it a strict decoder (`decode_strict`); a
program that uses a strict decoder is verified against `StrictDecoder` alone. -/

namespace Daisyway.Lib.Base64

/-- The character of a six-bit value. -/
def encode6 (n : ℕ) : UInt8 :=
  if n < 26 then UInt8.ofNat (65 + n)
  else if n < 52 then UInt8.ofNat (71 + n)
  else if n < 62 then UInt8.ofNat (n - 4)
  else if n = 62 then 43
  else 47

/-- The six-bit value of a character, `0` for any other byte. -/
def decode6 (c : UInt8) : ℕ :=
  let n := c.toNat
  if 65 ≤ n ∧ n ≤ 90 then n - 65
  else if 97 ≤ n ∧ n ≤ 122 then n - 71
  else if 48 ≤ n ∧ n ≤ 57 then n + 4
  else if n = 43 then 62
  else if n = 47 then 63
  else 0

/-- The padding character. -/
def pad : UInt8 := 61

/-- The four characters of the 24-bit number `n`. -/
def group (n : ℕ) : List UInt8 :=
  [encode6 (n / 262144), encode6 (n / 4096 % 64), encode6 (n / 64 % 64), encode6 (n % 64)]

/-- **The canonical padded encoding.** -/
def encode : List UInt8 → List UInt8
  | [] => []
  | [a] => (group (a.toNat * 65536)).take 2 ++ [pad, pad]
  | [a, b] => (group (a.toNat * 65536 + b.toNat * 256)).take 3 ++ [pad]
  | a :: b :: c :: rest => group (a.toNat * 65536 + b.toNat * 256 + c.toNat) ++ encode rest

/-- The three bytes of four characters. -/
def ungroup (c1 c2 c3 c4 : UInt8) : List UInt8 :=
  let n := decode6 c1 * 262144 + decode6 c2 * 4096 + decode6 c3 * 64 + decode6 c4
  [UInt8.ofNat (n / 65536), UInt8.ofNat (n / 256 % 256), UInt8.ofNat (n % 256)]

/-- The bytes of all complete groups of four characters. -/
def ungroupAll : List UInt8 → List UInt8
  | c1 :: c2 :: c3 :: c4 :: rest => ungroup c1 c2 c3 c4 ++ ungroupAll rest
  | _ => []

inductive DecodeError where
  | invalidEncoding
  | invalidLength
  deriving DecidableEq

/-- **The strict decoder** into a buffer of `n` bytes. -/
def decode (src : List UInt8) (n : ℕ) : Except DecodeError (List UInt8) :=
  let all := ungroupAll src
  let bs := all.take (all.length - src.count pad)
  if encode bs = src then if bs.length ≤ n then .ok bs else .error .invalidLength
  else .error .invalidEncoding

/-- The length of the encoding of `n` bytes. -/
def encodedLen (n : ℕ) : ℕ := 4 * ((n + 2) / 3)

/-! ### Reading an encoding back -/

theorem decode6_encode6 {n : ℕ} (h : n < 64) : decode6 (encode6 n) = n := by
  have hall : ∀ m ∈ List.range 64, decode6 (encode6 m) = m := by decide
  exact hall n (List.mem_range.mpr h)

theorem encode6_ne_pad {n : ℕ} (h : n < 64) : encode6 n ≠ pad := by
  have hall : ∀ m ∈ List.range 64, encode6 m ≠ pad := by decide
  exact hall n (List.mem_range.mpr h)

/-- The number of padding characters after `n` bytes. -/
def padLength (n : ℕ) : ℕ := (3 - n % 3) % 3

theorem length_encode : ∀ bs : List UInt8, (encode bs).length = encodedLen bs.length
  | [] => rfl
  | [_] => by simp [encode, group, encodedLen]
  | [_, _] => by simp [encode, group, encodedLen]
  | _ :: _ :: _ :: rest => by
    have ih := length_encode rest
    simp only [encode, List.length_append, List.length_cons, group, List.length_nil, ih]
    unfold encodedLen
    omega

theorem count_pad_encode : ∀ bs : List UInt8, (encode bs).count pad = padLength bs.length
  | [] => rfl
  | [a] => by
    have ha := a.toNat_lt
    have h1 := encode6_ne_pad (show a.toNat * 65536 / 262144 < 64 by omega)
    have h2 := encode6_ne_pad (show a.toNat * 65536 / 4096 % 64 < 64 by omega)
    simp [encode, group, h1, h2, padLength]
  | [a, b] => by
    have ha := a.toNat_lt
    have hb := b.toNat_lt
    have h1 := encode6_ne_pad (show (a.toNat * 65536 + b.toNat * 256) / 262144 < 64 by omega)
    have h2 := encode6_ne_pad (show (a.toNat * 65536 + b.toNat * 256) / 4096 % 64 < 64 by omega)
    have h3 := encode6_ne_pad (show (a.toNat * 65536 + b.toNat * 256) / 64 % 64 < 64 by omega)
    simp [encode, group, h1, h2, h3, padLength]
  | a :: b :: c :: rest => by
    have ih := count_pad_encode rest
    have ha := a.toNat_lt
    have hb := b.toNat_lt
    have hc := c.toNat_lt
    generalize hn : a.toNat * 65536 + b.toNat * 256 + c.toNat = n
    have h1 := encode6_ne_pad (show n / 262144 < 64 by omega)
    have h2 := encode6_ne_pad (show n / 4096 % 64 < 64 by omega)
    have h3 := encode6_ne_pad (show n / 64 % 64 < 64 by omega)
    have h4 := encode6_ne_pad (show n % 64 < 64 by omega)
    have hlen : padLength (a :: b :: c :: rest).length = padLength rest.length := by
      simp only [padLength, List.length_cons]
      omega
    rw [hlen, ← ih]
    simp [encode, hn, group, h1, h2, h3, h4]

theorem mem_group {c : UInt8} {n : ℕ} (h : c ∈ group n) : ∃ m, c = encode6 m := by
  simp only [group, List.mem_cons, List.not_mem_nil, or_false] at h
  rcases h with h | h | h | h
  · exact ⟨_, h⟩
  · exact ⟨_, h⟩
  · exact ⟨_, h⟩
  · exact ⟨_, h⟩

/-- An encoding consists of characters of the alphabet and padding. -/
theorem mem_encode {c : UInt8} : ∀ {bs : List UInt8}, c ∈ encode bs → c = pad ∨ ∃ m, c = encode6 m
  | [], h => by simp [encode] at h
  | [a], h => by
    rcases List.mem_append.mp h with h | h
    · exact Or.inr (mem_group (List.mem_of_mem_take h))
    · left; simpa using h
  | [a, b], h => by
    rcases List.mem_append.mp h with h | h
    · exact Or.inr (mem_group (List.mem_of_mem_take h))
    · left; simpa using h
  | a :: b :: c :: rest, h => by
    rcases List.mem_append.mp h with h | h
    · exact Or.inr (mem_group h)
    · exact mem_encode h

theorem le_encode6 (n : ℕ) : 43 ≤ encode6 n := by
  have hall : ∀ m ∈ List.range 64, 43 ≤ encode6 m := by decide
  by_cases hn : n < 64
  · exact hall n (List.mem_range.mpr hn)
  · unfold encode6
    rw [if_neg (by omega), if_neg (by omega), if_neg (by omega), if_neg (by omega)]
    decide

/-- An encoding has no control characters, blanks or quotes in it. -/
theorem le_of_mem_encode {c : UInt8} {bs : List UInt8} (h : c ∈ encode bs) : 43 ≤ c := by
  rcases mem_encode h with rfl | ⟨m, rfl⟩
  · decide
  · exact le_encode6 m

/-- The three bytes of a 24-bit number, read back from its four six-bit values. -/
theorem ungroup_eq {n : ℕ} {c1 c2 c3 c4 a b c : UInt8}
    (hn : n = a.toNat * 65536 + b.toNat * 256 + c.toNat) (h1 : decode6 c1 = n / 262144)
    (h2 : decode6 c2 = n / 4096 % 64) (h3 : decode6 c3 = n / 64 % 64) (h4 : decode6 c4 = n % 64) :
    ungroup c1 c2 c3 c4 = [a, b, c] := by
  have ha := a.toNat_lt
  have hb := b.toNat_lt
  have hc := c.toNat_lt
  have hsum : decode6 c1 * 262144 + decode6 c2 * 4096 + decode6 c3 * 64 + decode6 c4 = n := by
    rw [h1, h2, h3, h4]
    omega
  have e1 : n / 65536 = a.toNat := by omega
  have e2 : n / 256 % 256 = b.toNat := by omega
  have e3 : n % 256 = c.toNat := by omega
  unfold ungroup
  simp only [hsum, e1, e2, e3, UInt8.ofNat_toNat]

/-- Reading the groups back gives the bytes, and a zero for each padding character. -/
theorem ungroupAll_encode : ∀ bs : List UInt8,
    ungroupAll (encode bs) = bs ++ List.replicate (padLength bs.length) 0
  | [] => rfl
  | [a] => by
    have ha := a.toNat_lt
    have h1 := decode6_encode6 (show a.toNat * 65536 / 262144 < 64 by omega)
    have h2 := decode6_encode6 (show a.toNat * 65536 / 4096 % 64 < 64 by omega)
    have h3 : decode6 pad = a.toNat * 65536 / 64 % 64 := by
      rw [show decode6 pad = 0 by decide]
      omega
    have h4 : decode6 pad = a.toNat * 65536 % 64 := by
      rw [show decode6 pad = 0 by decide]
      omega
    have hn : a.toNat * 65536 = a.toNat * 65536 + (0 : UInt8).toNat * 256 + (0 : UInt8).toNat := by
      simp
    have hg := ungroup_eq hn h1 h2 h3 h4
    simp only [encode, group, List.take_succ_cons, List.take_zero, List.cons_append,
      List.nil_append, ungroupAll, hg, List.append_nil]
    rfl
  | [a, b] => by
    have ha := a.toNat_lt
    have hb := b.toNat_lt
    generalize hn : a.toNat * 65536 + b.toNat * 256 = n
    have h1 := decode6_encode6 (show n / 262144 < 64 by omega)
    have h2 := decode6_encode6 (show n / 4096 % 64 < 64 by omega)
    have h3 := decode6_encode6 (show n / 64 % 64 < 64 by omega)
    have h4 : decode6 pad = n % 64 := by
      rw [show decode6 pad = 0 by decide]
      omega
    have hn' : n = a.toNat * 65536 + b.toNat * 256 + (0 : UInt8).toNat := by simp [hn]
    have hg := ungroup_eq hn' h1 h2 h3 h4
    simp only [encode, hn, group, List.take_succ_cons, List.take_zero, List.cons_append,
      List.nil_append, ungroupAll, hg, List.append_nil]
    rfl
  | a :: b :: c :: rest => by
    have ih := ungroupAll_encode rest
    have ha := a.toNat_lt
    have hb := b.toNat_lt
    have hc := c.toNat_lt
    generalize hn : a.toNat * 65536 + b.toNat * 256 + c.toNat = n
    have h1 := decode6_encode6 (show n / 262144 < 64 by omega)
    have h2 := decode6_encode6 (show n / 4096 % 64 < 64 by omega)
    have h3 := decode6_encode6 (show n / 64 % 64 < 64 by omega)
    have h4 := decode6_encode6 (show n % 64 < 64 by omega)
    have hg := ungroup_eq hn.symm h1 h2 h3 h4
    have hlen : padLength (a :: b :: c :: rest).length = padLength rest.length := by
      simp only [padLength, List.length_cons]
      omega
    rw [hlen]
    simp only [encode, hn, group, List.cons_append, List.nil_append, ungroupAll, hg, ih]

/-- Whole groups at the front of an encoding encode the front of the bytes. -/
theorem take_encode : ∀ (m : ℕ) (bs : List UInt8),
    3 * m ≤ bs.length → (encode bs).take (4 * m) = encode (bs.take (3 * m))
  | 0, _, _ => rfl
  | m + 1, a :: b :: c :: rest, h => by
    have hm : 3 * m ≤ rest.length := by
      simp only [List.length_cons] at h
      omega
    have ih := take_encode m rest hm
    rw [show 4 * (m + 1) = 4 * m + 4 by omega, show 3 * (m + 1) = 3 * m + 3 by omega]
    simp only [encode, group, List.cons_append, List.nil_append, List.take_succ_cons, ih]
  | m + 1, [], h => by simp at h
  | m + 1, [_], h => by simp at h; omega
  | m + 1, [_, _], h => by simp at h; omega

/-- **The decoder accepts exactly the canonical encodings of at most `n` bytes.** -/
theorem decode_eq_ok_iff {src bs : List UInt8} {n : ℕ} :
    decode src n = .ok bs ↔ src = encode bs ∧ bs.length ≤ n := by
  have htake : ∀ bs : List UInt8, (ungroupAll (encode bs)).take
      ((ungroupAll (encode bs)).length - (encode bs).count pad) = bs := by
    intro bs
    rw [count_pad_encode, ungroupAll_encode, List.length_append, List.length_replicate,
      Nat.add_sub_cancel, List.take_left]
  unfold decode
  constructor
  · intro h
    dsimp only at h
    split_ifs at h with he hl
    obtain rfl := Except.ok.inj h
    exact ⟨he.symm, hl⟩
  · rintro ⟨rfl, hl⟩
    simp only [htake, hl, if_true]

/-! ### Strict decoders -/

/-- A decoder that accepts the canonical encodings of what fits into its buffer, and no more. -/
def StrictDecoder (decode : List UInt8 → ℕ → Except DecodeError (List UInt8)) : Prop :=
  ∀ src n bs, decode src n = .ok bs ↔ src = encode bs ∧ bs.length ≤ n

theorem decode_strict : StrictDecoder decode := fun _ _ _ => decode_eq_ok_iff

/-- Distinct byte strings have distinct encodings. -/
theorem encode_injective : Function.Injective encode := by
  intro bs bs' h
  have h1 : decode (encode bs) (bs.length + bs'.length) = .ok bs :=
    decode_eq_ok_iff.mpr ⟨rfl, Nat.le_add_right _ _⟩
  have h2 : decode (encode bs') (bs.length + bs'.length) = .ok bs' :=
    decode_eq_ok_iff.mpr ⟨rfl, Nat.le_add_left _ _⟩
  rw [h, h2] at h1
  exact (Except.ok.inj h1).symm

end Daisyway.Lib.Base64
