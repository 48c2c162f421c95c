import Daisyway.Prim
import Daisyway.Lib.Base64

/-! # The ETSI 014 client

What the key management entity (KME) answers to a request is the environment's choice: `KmeAnswer`
holds the outcome of every operation of the HTTP client on the response. `fetchKeyInternal` is what
the client makes of it. The conversion of a response key asserts that the encoded length of the key
text is not 32 and unwraps the result of decoding it, so it can panic; `fetch_panicked_iff` says on
which answers it does, and `converts_exactly_iff` on which responses the conversion is what it is
meant to be.

The Base64 decoder is a parameter: `decode src n` decodes `src` into a buffer of `n` bytes and
returns the front of the buffer that was written. -/

namespace Daisyway.Etsi014

open Daisyway.Prim
open Daisyway.Lib.Base64 (DecodeError StrictDecoder encode encodedLen length_encode
  encode_injective decode_strict)

/-- A Base64 decoder: the text and the size of the destination. -/
abbrev Base64Decode := Bytes → ℕ → Except DecodeError Bytes

/-! ### Requests -/

structure Etsi014Connection where
  url : Text
  remoteSaeId : Text
  deriving DecidableEq

namespace Etsi014Connection

/-- The URL `fetch_any_key` gets. -/
def anyKeyUri (conn : Etsi014Connection) : Text :=
  conn.url ++ "/api/v1/keys/".toList ++ conn.remoteSaeId ++
    "/enc_keys?number=1&key_length=256".toList

/-- The URL `fetch_specific_key` gets. -/
def specificKeyUri (conn : Etsi014Connection) (id : Uuid) : Text :=
  conn.url ++ "/api/v1/keys/".toList ++ conn.remoteSaeId ++ "/dec_keys?key_ID=".toList ++ id.toText

end Etsi014Connection

/-! ### Responses -/

/-- One entry of a response; the key is the text of the JSON string. -/
structure ResponseKey where
  id : Uuid
  key : Bytes
  deriving DecidableEq

structure ResponseKeys where
  keys : List ResponseKey
  deriving DecidableEq

/-- What the KME answers to a request. `text` and `json` are the outcomes of reading the body as a
text and as a `ResponseKeys` value; `none` is an error. -/
inductive KmeAnswer where
  | sendFailed
  | response (status : ℕ) (text : Option Bytes) (json : Option ResponseKeys)
  deriving DecidableEq

inductive FetchError where
  /-- The request could not be sent. -/
  | send
  /-- The body could not be read. -/
  | text
  /-- ETSI 014 URL returned another status than success. -/
  | status (code : ℕ) (text : Bytes)
  /-- The body is no `ResponseKeys` value. -/
  | json
  /-- Expected exactly one key, but got `n` keys. -/
  | keyCount (n : ℕ)
  /-- The decoded key has not 32 bytes. -/
  | keyLength (n : ℕ)
  deriving DecidableEq

section Convert
variable (decode : Base64Decode)

/-- `TryFrom<ResponseKey> for Etsi014Key`. -/
def ofResponseKey (value : ResponseKey) : Outcome FetchError Etsi014Key :=
  -- `assert!(Base64::encoded_len(key.as_bytes()) != Key::LEN)`
  if encodedLen value.key.length = keyLength then .panicked
  else
    -- `Base64::decode(..).unwrap()`
    match decode value.key keyLength with
    | .error _ => .panicked
    | .ok decoded =>
      if decoded.length = keyLength then .ok ⟨value.id, fill keyLength decoded⟩
      else .err (.keyLength decoded.length)

/-- `TryFrom<ResponseKeys> for Etsi014Key`. -/
def ofResponseKeys (value : ResponseKeys) : Outcome FetchError Etsi014Key :=
  match value.keys with
  | [k] => ofResponseKey decode k
  | ks => .err (.keyCount ks.length)

/-- `StatusCode::is_success`. -/
def isSuccess (status : ℕ) : Bool := 200 ≤ status ∧ status < 300

def fetchKeyInternal : KmeAnswer → Outcome FetchError Etsi014Key
  | .sendFailed => .err .send
  | .response status text json =>
    if isSuccess status then
      match json with
      | none => .err .json
      | some keys => ofResponseKeys decode keys
    else
      match text with
      | none => .err .text
      | some t => .err (.status status t)

/-! ### When the conversion panics -/

/-- The key text makes the conversion panic: it has between 22 and 24 bytes, or it does not decode
into 32 bytes. -/
def BadKeyText (key : Bytes) : Prop :=
  (22 ≤ key.length ∧ key.length ≤ 24) ∨ ∃ e, decode key keyLength = .error e

/-- The answer is a success with exactly one entry, and its key text is bad. -/
def BadAnswer (answer : KmeAnswer) : Prop :=
  ∃ status text k, answer = .response status text (some ⟨[k]⟩) ∧ isSuccess status = true ∧
    BadKeyText decode k.key

variable {decode}

theorem encodedLen_eq_keyLength {n : ℕ} : encodedLen n = keyLength ↔ 22 ≤ n ∧ n ≤ 24 := by
  unfold encodedLen keyLength
  omega

theorem ofResponseKey_panicked {value : ResponseKey} :
    ofResponseKey decode value = .panicked ↔ BadKeyText decode value.key := by
  unfold ofResponseKey BadKeyText
  rw [← encodedLen_eq_keyLength]
  split_ifs with hlen
  · exact ⟨fun _ => Or.inl hlen, fun _ => rfl⟩
  · cases decode value.key keyLength with
    | error e => simp
    | ok decoded => simp only [hlen, false_or]; split_ifs <;> simp

/-- **Where a fetch panics.** -/
theorem fetch_panicked_iff {answer : KmeAnswer} :
    fetchKeyInternal decode answer = .panicked ↔ BadAnswer decode answer := by
  unfold BadAnswer
  rcases answer with _ | ⟨status, text, json⟩
  · simp [fetchKeyInternal]
  · simp only [fetchKeyInternal, KmeAnswer.response.injEq]
    by_cases hs : isSuccess status = true
    · rw [if_pos hs]
      rcases json with _ | ⟨keys⟩
      · simp
      · rcases keys with _ | ⟨k, _ | ⟨k', ks⟩⟩
        · simp [ofResponseKeys]
        · simp only [ofResponseKeys, ofResponseKey_panicked]
          constructor
          · intro h; exact ⟨status, text, k, ⟨rfl, rfl, rfl⟩, hs, h⟩
          · rintro ⟨_, _, k', ⟨-, -, hk⟩, -, h⟩
            simp only [Option.some.injEq, ResponseKeys.mk.injEq, List.cons.injEq, and_true] at hk
            rwa [hk]
        · simp [ofResponseKeys]
    · rw [if_neg hs]
      constructor
      · intro h; cases text <;> simp at h
      · rintro ⟨_, _, _, ⟨rfl, -, -⟩, h, -⟩; exact absurd h hs

/-! ### What the conversion accepts -/

theorem ofResponseKeys_singleton (k : ResponseKey) :
    ofResponseKeys decode ⟨[k]⟩ = ofResponseKey decode k := rfl

theorem ofResponseKeys_count {value : ResponseKeys} (h : ∀ k, value.keys ≠ [k]) :
    ofResponseKeys decode value = .err (.keyCount value.keys.length) := by
  unfold ofResponseKeys
  split
  · next k hk => exact absurd hk (h k)
  · rfl

/-- With a strict decoder, a text makes the conversion panic unless it is the encoding of at most 32
bytes and has not 24 characters. -/
theorem badKeyText_iff (hd : StrictDecoder decode) (key : Bytes) :
    BadKeyText decode key ↔ ¬ ∃ bs, key = encode bs ∧ bs.length ≤ keyLength ∧ key.length ≠ 24 := by
  unfold BadKeyText
  constructor
  · rintro h ⟨bs, rfl, hlen, h24⟩
    have hdec := (hd (encode bs) keyLength bs).mpr ⟨rfl, hlen⟩
    rcases h with h | ⟨e, he⟩
    · rw [length_encode] at h h24
      unfold encodedLen at h h24
      omega
    · rw [hdec] at he
      exact absurd he (by simp)
  · intro h
    cases hdec : decode key keyLength with
    | error e => exact Or.inr ⟨e, rfl⟩
    | ok bs =>
      obtain ⟨hk, hlen⟩ := (hd _ _ _).mp hdec
      left
      by_cases h24 : key.length = 24
      · omega
      · exact absurd ⟨bs, hk, hlen, h24⟩ h

/-- Where the conversion of an entry does not panic, it accepts the encodings of 32 bytes. -/
theorem ofResponseKey_ok (hd : StrictDecoder decode) {value : ResponseKey} {key : Etsi014Key}
    (hbad : ¬ BadKeyText decode value.key) :
    ofResponseKey decode value = .ok key ↔
      key.id = value.id ∧ value.key = encode key.key.toList := by
  unfold BadKeyText at hbad
  rw [← encodedLen_eq_keyLength, not_or] at hbad
  obtain ⟨hassert, hdec⟩ := hbad
  have hkl : key.key.toList.length = keyLength := by simp [keyLength]
  unfold ofResponseKey
  rw [if_neg hassert]
  cases hb : decode value.key keyLength with
  | error e => exact absurd ⟨e, hb⟩ hdec
  | ok bs =>
    obtain ⟨hk, -⟩ := (hd _ _ _).mp hb
    dsimp only
    constructor
    · intro h
      split_ifs at h with hlen
      obtain rfl := Outcome.ok.inj h
      exact ⟨rfl, hk.trans (congrArg encode (toList_fill hlen).symm)⟩
    · rintro ⟨hid, htext⟩
      have hbs : bs = key.key.toList := encode_injective (hk.symm.trans htext)
      have hfill : fill keyLength bs = key.key := by
        rw [hbs]
        exact Vector.toList_inj.mp (toList_fill hkl)
      rw [if_pos (by rw [hbs]; exact hkl), hfill, ← hid]

end Convert

/-- The conversion is exact: it does not panic, and it gives a key exactly if there is one entry,
with the id of the key and the canonical encoding of its 32 bytes. -/
def ConvertsExactly (decode : Base64Decode) (value : ResponseKeys) : Prop :=
  ofResponseKeys decode value ≠ .panicked ∧
  ∀ key, ofResponseKeys decode value = .ok key ↔
    ∃ k, value.keys = [k] ∧ key.id = k.id ∧ k.key = encode key.key.toList

/-- **Where the conversion of a response is exact.** -/
theorem converts_exactly_iff (decode : Base64Decode) (hd : StrictDecoder decode)
    (value : ResponseKeys) :
    ConvertsExactly decode value ↔
      ∀ k, value.keys = [k] →
        ∃ bs, k.key = encode bs ∧ bs.length ≤ 32 ∧ k.key.length ≠ 24 := by
  by_cases hone : ∃ k, value.keys = [k]
  · obtain ⟨k, hk⟩ := hone
    obtain rfl : value = ⟨[k]⟩ := by rw [← hk]
    have hcond : (∀ k', [k] = [k'] → ∃ bs, k'.key = encode bs ∧ bs.length ≤ 32 ∧
        k'.key.length ≠ 24) ↔ ¬ BadKeyText decode k.key := by
      rw [badKeyText_iff hd, not_not]
      constructor
      · intro h
        exact h k rfl
      · intro h k' hk'
        obtain rfl := (List.cons.inj hk').1
        exact h
    rw [hcond]
    unfold ConvertsExactly
    rw [ofResponseKeys_singleton]
    constructor
    · intro h hbad
      exact h.1 (ofResponseKey_panicked.mpr hbad)
    · intro hbad
      refine ⟨fun h => hbad (ofResponseKey_panicked.mp h), fun key => ?_⟩
      rw [ofResponseKey_ok hd hbad]
      constructor
      · rintro ⟨hid, htext⟩
        exact ⟨k, rfl, hid, htext⟩
      · rintro ⟨k', hk', hid, htext⟩
        obtain rfl := (List.cons.inj hk').1
        exact ⟨hid, htext⟩
  · rw [not_exists] at hone
    refine ⟨fun _ k hk => absurd hk (hone k), fun _ => ?_⟩
    unfold ConvertsExactly
    rw [ofResponseKeys_count hone]
    refine ⟨by simp, fun key => ?_⟩
    constructor
    · intro h
      exact absurd h (by simp)
    · rintro ⟨k, hk, -⟩
      exact absurd hk (hone k)

/-- A response with one entry: the encoding of `n` bytes `1`. -/
def sampleResponse (n : ℕ) : ResponseKeys := ⟨[⟨⟨zeroed 16⟩, encode (List.replicate n 1)⟩]⟩

/-- The encoding of 16 bytes fails the assertion. -/
theorem short_key_not_exact : ¬ ConvertsExactly Lib.Base64.decode (sampleResponse 16) := by
  rintro ⟨h, -⟩
  exact h (by decide)

theorem converts_exactly_iff_sample : ConvertsExactly Lib.Base64.decode (sampleResponse 32) := by
  refine (converts_exactly_iff _ decode_strict _).mpr fun k hk => ?_
  obtain rfl := (List.cons.inj hk).1
  exact ⟨List.replicate 32 1, rfl, by decide, by decide⟩

end Daisyway.Etsi014
