import Daisyway.Etsi014
import Daisyway.Util.ReadExt

/-! # Keys as texts

`base64ToKey` decodes a configured key into a zeroed array and ignores how many bytes were decoded,
so it accepts the encodings of all keys of at most 32 bytes and fills up with zeros
(`base64ToKey_ok`). `loadBase64KeyFile` reads the first 46 bytes of a file and drops a trailing
newline. The bound is between the 45 bytes of an encoded key with its newline and the next lengths
an encoding can have, so that reading no further makes no difference (`load_key_file_exact`).
`OutfileOskHandler` writes the encoding of the key. -/

namespace Daisyway.Util.Keys

open Daisyway.Prim Daisyway.Util.ReadExt
open Daisyway.Etsi014 (Base64Decode)
open Daisyway.Lib.Base64 (DecodeError StrictDecoder encode encodedLen length_encode
  le_of_mem_encode)

/-- The size of a buffer for the encoding of a key. -/
def keyLengthB64 : ℕ := keyLength * 4 / 3 + 4

section
variable (decode : Base64Decode)

def base64ToKey (encodedKey : Bytes) : Except DecodeError Key :=
  match decode encodedKey keyLength with
  | .error e => .error e
  | .ok decoded => .ok (fill keyLength decoded)

inductive LoadError (ε : Type) where
  /-- The file could not be opened or read. -/
  | io (e : ε)
  /-- The text is no encoded key. -/
  | base64 (e : DecodeError)
  deriving DecidableEq

/-- The text without its last byte, if that is a newline. -/
def trimNewline (s : Bytes) : Bytes := if s.getLast? = some 10 then s.dropLast else s

/-- `file` is the outcome of opening the file: an error, or what the reads from it will give. -/
def loadBase64KeyFile {ε : Type} (file : Except ε (List (ReadOutcome ε))) :
    Outcome (LoadError ε) Key :=
  match file with
  | .error e => .err (.io e)
  | .ok reads =>
    match readToEndUpTo reads (List.replicate keyLengthB64 0) with
    | (.panicked, _) => .panicked
    | (.err e, _) => .err (.io e)
    | (.ok len, buf) =>
      -- `&psk_b64[..psk_b64_len]`
      if buf.length < len then .panicked
      else
        match base64ToKey decode (trimNewline (buf.take len)) with
        | .error e => .err (.base64 e)
        | .ok key => .ok key

end

/-- The text `OutfileOskHandler` writes for a key; `none` if it does not fit into the buffer of the
encoder, which is unwrapped. -/
def outfileText (key : Key) : Option Bytes :=
  if encodedLen key.toList.length ≤ keyLengthB64 then some (encode key.toList) else none

/-! ### What is accepted -/

section
variable {decode : Base64Decode}

/-- The accepted texts are the encodings of at most 32 bytes; what is missing is zero. -/
theorem base64ToKey_ok (hd : StrictDecoder decode) {s : Bytes} {k : Key} :
    base64ToKey decode s = .ok k ↔
      ∃ bs, s = encode bs ∧ bs.length ≤ keyLength ∧ k = fill keyLength bs := by
  unfold base64ToKey
  constructor
  · intro h
    cases hdec : decode s keyLength with
    | error e => rw [hdec] at h; exact absurd h (by simp)
    | ok bs =>
      rw [hdec] at h
      obtain ⟨hs, hlen⟩ := (hd _ _ _).mp hdec
      exact ⟨bs, hs, hlen, (Except.ok.inj h).symm⟩
  · rintro ⟨bs, hs, hlen, rfl⟩
    rw [(hd s keyLength bs).mpr ⟨hs, hlen⟩]

/-- The buffer of the encoder is large enough. -/
theorem outfileText_eq (k : Key) : outfileText k = some (encode k.toList) := by
  have hlen : k.toList.length = 32 := by simp
  unfold outfileText
  rw [hlen, if_pos (by decide)]

theorem base64ToKey_encode (hd : StrictDecoder decode) (k : Key) :
    base64ToKey decode (encode k.toList) = .ok k := by
  have hlen : k.toList.length = keyLength := by simp [keyLength]
  refine (base64ToKey_ok hd).mpr ⟨k.toList, rfl, hlen.le, ?_⟩
  exact Vector.toList_inj.mp (toList_fill hlen).symm

/-- An accepted text has at most 44 bytes, in groups of four. -/
theorem length_of_base64ToKey (hd : StrictDecoder decode) {s : Bytes} {k : Key}
    (h : base64ToKey decode s = .ok k) : s.length ≤ 44 ∧ s.length % 4 = 0 := by
  obtain ⟨bs, rfl, hlen, -⟩ := (base64ToKey_ok hd).mp h
  rw [length_encode]
  unfold encodedLen
  unfold keyLength at hlen
  omega

/-! ### Key files -/

theorem length_trimNewline (s : Bytes) :
    (trimNewline s).length = s.length ∨ (trimNewline s).length = s.length - 1 := by
  unfold trimNewline
  split_ifs
  · right; exact List.length_dropLast
  · left; rfl

theorem trimNewline_concat (s : Bytes) : trimNewline (s ++ [10]) = s := by
  simp [trimNewline]

theorem trimNewline_encode (bs : Bytes) : trimNewline (encode bs) = encode bs := by
  unfold trimNewline
  rw [if_neg]
  intro h
  have hle := le_of_mem_encode (List.mem_of_getLast? h)
  exact absurd hle (by decide)

/-- A file without a read error in its first 46 bytes: these are decoded. -/
theorem load_eq {ε : Type} {reads : List (ReadOutcome ε)} (hfit : Fits keyLengthB64 reads)
    (hend : endError reads = none ∨ keyLengthB64 ≤ (stream reads).length) :
    loadBase64KeyFile decode (.ok reads) =
      match base64ToKey decode (trimNewline ((stream reads).take keyLengthB64)) with
      | .error e => .err (.base64 e)
      | .ok key => .ok key := by
  have hlen : (List.replicate keyLengthB64 (0 : UInt8)).length = keyLengthB64 :=
    List.length_replicate
  have hfit' : Fits (List.replicate keyLengthB64 (0 : UInt8)).length reads := by rwa [hlen]
  have hread := readToEndUpTo_eq hfit' (by rwa [hlen])
  rw [hlen] at hread
  have htake : ((stream reads).take keyLengthB64 ++
      (List.replicate keyLengthB64 0).drop (stream reads).length).take
        (min keyLengthB64 (stream reads).length) = (stream reads).take keyLengthB64 := by
    apply List.take_left'
    rw [List.length_take]
  have hbuf : ¬ ((stream reads).take keyLengthB64 ++
      (List.replicate keyLengthB64 (0 : UInt8)).drop (stream reads).length).length <
        min keyLengthB64 (stream reads).length := by
    rw [List.length_append, List.length_take]
    omega
  simp only [loadBase64KeyFile, hread, if_neg hbuf, htake]

/-- A file with a read error in its first 46 bytes is not loaded. -/
theorem load_error {ε : Type} {reads : List (ReadOutcome ε)} (hfit : Fits keyLengthB64 reads)
    {e : ε} (hend : endError reads = some e) (hlt : (stream reads).length < keyLengthB64) :
    loadBase64KeyFile decode (.ok reads) = .err (.io e) := by
  have hlen : (List.replicate keyLengthB64 (0 : UInt8)).length = keyLengthB64 :=
    List.length_replicate
  have hread : (readToEndUpTo reads (List.replicate keyLengthB64 0)).1 = .err e :=
    readToEndUpTo_error (by rwa [hlen]) hend (by rwa [hlen])
  unfold loadBase64KeyFile
  dsimp only
  split
  · next hp => rw [hp] at hread; cases hread
  · next e' _ hp => rw [hp] at hread; cases hread; rfl
  · next hp => rw [hp] at hread; cases hread

theorem load_ok_iff {ε : Type} {reads : List (ReadOutcome ε)} (hfit : Fits keyLengthB64 reads)
    (hend : endError reads = none ∨ keyLengthB64 ≤ (stream reads).length) {k : Key} :
    loadBase64KeyFile decode (.ok reads) = .ok k ↔
      base64ToKey decode (trimNewline ((stream reads).take keyLengthB64)) = .ok k := by
  rw [load_eq hfit hend]
  cases base64ToKey decode (trimNewline ((stream reads).take keyLengthB64)) <;> simp

/-- Cutting a text off after 46 bytes makes no difference: where the cut changes it, neither the
text nor its front is accepted. -/
theorem trimNewline_take_ok_iff (hd : StrictDecoder decode) (c : Bytes) (k : Key) :
    base64ToKey decode (trimNewline (c.take keyLengthB64)) = .ok k ↔
      base64ToKey decode (trimNewline c) = .ok k := by
  by_cases hc : c.length ≤ keyLengthB64
  · rw [List.take_of_length_le hc]
  · have hb : keyLengthB64 = 46 := rfl
    have hfront : (c.take keyLengthB64).length = 46 := by
      rw [List.length_take]
      omega
    constructor
    · intro h
      have h1 := length_of_base64ToKey hd h
      have h2 := length_trimNewline (c.take keyLengthB64)
      omega
    · intro h
      have h1 := length_of_base64ToKey hd h
      have h2 := length_trimNewline c
      omega

/-- A loaded key is what the whole content of the file decodes to. -/
theorem base64ToKey_of_load {ε : Type} (hd : StrictDecoder decode) {reads : List (ReadOutcome ε)}
    (hfit : Fits keyLengthB64 reads) {k : Key} (h : loadBase64KeyFile decode (.ok reads) = .ok k) :
    base64ToKey decode (trimNewline (stream reads)) = .ok k := by
  have hend : endError reads = none ∨ keyLengthB64 ≤ (stream reads).length := by
    by_contra hne
    rw [not_or] at hne
    obtain ⟨e, he⟩ := Option.ne_none_iff_exists'.mp hne.1
    rw [load_error hfit he (by omega)] at h
    exact absurd h (by simp)
  exact (trimNewline_take_ok_iff hd (stream reads) k).mp ((load_ok_iff hfit hend).mp h)

/-- **Reading the front of a key file is reading the whole file.** For every content and every way
it is split into reads: a key is loaded exactly if the whole content, without one trailing newline,
is accepted as that key, and then nothing was left unread; what `OutfileOskHandler` writes loads
back, with and without a newline. -/
theorem load_key_file_exact {ε : Type} (decode : Base64Decode) (hd : StrictDecoder decode)
    (reads : List (ReadOutcome ε)) (hfit : Fits keyLengthB64 reads) (hend : endError reads = none)
    (k : Key) :
    (loadBase64KeyFile decode (.ok reads) = .ok k ↔
      base64ToKey decode (trimNewline (stream reads)) = .ok k) ∧
    (loadBase64KeyFile decode (.ok reads) = .ok k → (stream reads).length ≤ keyLengthB64) ∧
    (∃ text, outfileText k = some text ∧
      (stream reads = text ∨ stream reads = text ++ [10] →
        loadBase64KeyFile decode (.ok reads) = .ok k)) := by
  have hiff : loadBase64KeyFile decode (.ok reads) = .ok k ↔
      base64ToKey decode (trimNewline (stream reads)) = .ok k := by
    rw [load_ok_iff hfit (Or.inl hend)]
    exact trimNewline_take_ok_iff hd (stream reads) k
  refine ⟨hiff, ?_, ?_⟩
  · intro h
    have h1 := length_of_base64ToKey hd (hiff.mp h)
    have h2 := length_trimNewline (stream reads)
    have hb : keyLengthB64 = 46 := rfl
    omega
  · refine ⟨encode k.toList, outfileText_eq k, fun hstream => ?_⟩
    rw [hiff]
    rcases hstream with h | h
    · rw [h, trimNewline_encode]
      exact base64ToKey_encode hd k
    · rw [h, trimNewline_concat]
      exact base64ToKey_encode hd k

end

/-- The encoding of 32 bytes `7` and a newline, in two reads with an interruption between them. -/
def sampleKeyFile : List (ReadOutcome Unit) :=
  [.ok (encode (List.replicate 32 7)), .interrupted, .ok [10]]

theorem load_key_file_exact_sample :
    Fits keyLengthB64 sampleKeyFile ∧ endError sampleKeyFile = none ∧
      loadBase64KeyFile Lib.Base64.decode (.ok sampleKeyFile) = .ok (Vector.replicate 32 7) := by
  have hfit : Fits keyLengthB64 sampleKeyFile := by
    simp [sampleKeyFile, Fits, encode, Lib.Base64.group, keyLengthB64, keyLength]
  have hend : endError sampleKeyFile = none := by decide
  obtain ⟨hiff, -, -⟩ := load_key_file_exact Lib.Base64.decode Lib.Base64.decode_strict
    sampleKeyFile hfit hend (Vector.replicate 32 7)
  exact ⟨hfit, hend, hiff.mpr (by decide)⟩

end Daisyway.Util.Keys
