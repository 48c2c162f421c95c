import Daisyway.Lib.Search
import Daisyway.Lib.Base64
import Daisyway.Prim

/-! # The requests of the simulator

The simulator is a KME for tests: a request for a new key (`enc_keys`) takes the next value of a
counter as the id of the key, a request for a known key (`dec_keys`) names the id in its query, and
the key is the id written twice. Which of the two a request is, is decided by searching its path
for the two words, and the id is whatever follows the first `key_ID=` of the query.

So paths and queries are accepted that are no requests of ETSI 014, and some that are one are
refused or taken for the other. `handled_exactly_iff` says on which requests the simulator does what
it is meant to do.

`Uuid::parse_str` and the rendering of the response are parameters. -/

namespace Daisyway.Simulator.Requests

open Daisyway.Prim Daisyway.Lib.Search Daisyway.Lib.Hex
open Daisyway.Lib.Base64 (encode)

/-! ### The handler -/

structure Response where
  status : ℕ
  headers : List (String × String)
  body : Bytes
  deriving DecidableEq

structure Codec where
  /-- `Uuid::parse_str`. -/
  parseUuid : Text → Option Uuid
  /-- The response body, `{"keys": [{"key": .., "key_ID": ..}]}`, as a string. -/
  keysJson : Bytes → Text → Bytes

def keysPath : Text := "/api/v1/keys/".toList

def decKeys : Text := "dec_keys".toList

def encKeys : Text := "enc_keys".toList

def keyIdName : Text := "key_ID=".toList

def notFound : Response := ⟨404, [], []⟩

def badRequest (msg : String) : Response := ⟨400, [], msg.toUTF8.toList⟩

section
variable (codec : Codec)

/-- The answer with the key of the id. The buffer of the encoder has 128 bytes, so that the 44 of
the encoded key always fit. -/
def keyResponse (keyId : Uuid) : Response :=
  let keyInput := keyId.asBytes.toList ++ keyId.asBytes.toList
  let body := codec.keysJson (encode keyInput) keyId.toText
  ⟨200, [("Content-Type", "application/json"), ("Content-Length", toString body.length)], body⟩

/-- `handle_keys` with the counter before and after. -/
def handleKeys (path : Text) (query : Option Text) (counter : UInt64) : Response × UInt64 :=
  if ¬ decKeys <:+: path ∧ ¬ encKeys <:+: path then
    (badRequest "Only one of /dec_keys or /enc_keys is allowed", counter)
  else if decKeys <:+: path then
    match query with
    | some q =>
      match find keyIdName q with
      | some (_, rest) =>
        match codec.parseUuid rest with
        | some id => (keyResponse codec id, counter)
        | none => (badRequest "Invalid key_ID format", counter)
      | none => (badRequest "Invalid key_ID format", counter)
    | none => (badRequest "key_ID parameter is required", counter)
  else
    -- `fetch_add` wraps around
    (keyResponse codec (Uuid.fromU128 counter.toNat), counter + 1)

def handleRequest (path : Text) (query : Option Text) (counter : UInt64) : Response × UInt64 :=
  if keysPath <+: path then handleKeys codec path query counter else (notFound, counter)

/-- The id the simulator finds in the query: the text after the first `key_ID=`. -/
def foundId (query : Option Text) : Option Uuid :=
  query.bind fun q => (find keyIdName q).bind fun (_, rest) => codec.parseUuid rest

theorem badRequest_status (msg : String) : (badRequest msg).status ≠ 200 :=
  show 400 ≠ 200 by decide

variable (query : Option Text) (counter : UInt64) {path : Text}

/-- The simulator answers with a key, or refuses the request. -/
theorem handleRequest_status (path : Text) :
    (handleRequest codec path query counter).1.status = 200 ∨
      400 ≤ (handleRequest codec path query counter).1.status := by
  have hkey : ∀ id, (keyResponse codec id).status = 200 := fun _ => rfl
  have hbad : ∀ msg, (badRequest msg).status = 400 := fun _ => rfl
  have hnone : notFound.status = 404 := rfl
  unfold handleRequest handleKeys
  repeat' split
  all_goals simp [hkey, hbad, hnone]

/-- A path without the prefix, or with neither word in it, is refused. -/
theorem handleRequest_other (h : ¬ keysPath <+: path ∨ ¬ decKeys <:+: path ∧ ¬ encKeys <:+: path) :
    (handleRequest codec path query counter).1.status ≠ 200 ∧
      (handleRequest codec path query counter).2 = counter := by
  unfold handleRequest handleKeys
  by_cases hp : keysPath <+: path
  · rw [if_pos hp, if_pos (h.resolve_left (not_not.mpr hp))]
    exact ⟨badRequest_status _, rfl⟩
  · rw [if_neg hp]
    exact ⟨show 404 ≠ 200 by decide, rfl⟩

/-- Where the path has the prefix and the word `dec_keys`, the id found in the query decides. -/
theorem handleRequest_dec (hp : keysPath <+: path) (hd : decKeys <:+: path) :
    (handleRequest codec path query counter).2 = counter ∧
      ((∃ id, foundId codec query = some id ∧
          (handleRequest codec path query counter).1 = keyResponse codec id) ∨
        foundId codec query = none ∧ (handleRequest codec path query counter).1.status ≠ 200) := by
  unfold handleRequest handleKeys foundId
  rw [if_pos hp, if_neg (fun h => h.1 hd), if_pos hd]
  cases query with
  | none => exact ⟨rfl, Or.inr ⟨rfl, badRequest_status _⟩⟩
  | some q =>
    cases hf : find keyIdName q with
    | none => simp [hf, badRequest_status]
    | some r =>
      cases hu : codec.parseUuid r.2 with
      | none => simp [hf, hu, badRequest_status]
      | some id => simp [hf, hu]

/-- Where the path has the prefix and only the word `enc_keys`, a new key is given out. -/
theorem handleRequest_enc (hp : keysPath <+: path) (hd : ¬ decKeys <:+: path)
    (he : encKeys <:+: path) : handleRequest codec path query counter =
      (keyResponse codec (Uuid.fromU128 counter.toNat), counter + 1) := by
  unfold handleRequest handleKeys
  rw [if_pos hp, if_neg (fun h => h.2 he), if_neg hd]

end

/-! ### The requests of ETSI 014 -/

/-- The path of an operation: its segment follows that of the SAE. -/
def Endpoint (operation path : Text) : Prop :=
  ∃ sae : Text, sae ≠ [] ∧ '/' ∉ sae ∧ path = keysPath ++ sae ++ '/' :: operation

/-- What stands between the prefix and the segment of the operation. -/
def saeOf (operation path : Text) : Text :=
  (path.drop keysPath.length).take (path.length - keysPath.length - (operation.length + 1))

theorem endpoint_iff {operation path : Text} : Endpoint operation path ↔
    saeOf operation path ≠ [] ∧ '/' ∉ saeOf operation path ∧
      path = keysPath ++ saeOf operation path ++ '/' :: operation := by
  constructor
  · rintro ⟨sae, hne, hslash, rfl⟩
    have hsae : saeOf operation (keysPath ++ sae ++ '/' :: operation) = sae := by
      have hlen : (keysPath ++ sae ++ '/' :: operation).length - keysPath.length -
          (operation.length + 1) = sae.length := by
        simp only [List.length_append, List.length_cons]
        omega
      unfold saeOf
      rw [hlen, List.append_assoc, List.drop_left, List.take_left]
    rw [hsae]
    exact ⟨hne, hslash, rfl⟩
  · rintro ⟨hne, hslash, hpath⟩
    exact ⟨_, hne, hslash, hpath⟩

instance (operation path : Text) : Decidable (Endpoint operation path) :=
  decidable_of_iff _ endpoint_iff.symm

/-- The query has the parameter `key_ID` with this value. -/
def HasKeyId (q value : Text) : Prop := keyIdName ++ value ∈ q.splitOn '&'

section
variable (codec : Codec) (path : Text) (query : Option Text) (counter : UInt64)

/-- The request asks for the key of the id. -/
def AsksFor (id : Uuid) : Prop :=
  Endpoint decKeys path ∧ ∃ q value, query = some q ∧ HasKeyId q value ∧
    codec.parseUuid value = some id

/-- The simulator does what it is meant to do with the request. -/
structure HandledExactly : Prop where
  /-- It answers with a key exactly if the request is one of ETSI 014. -/
  accepts : (∃ id, (handleRequest codec path query counter).1 = keyResponse codec id) ↔
    Endpoint encKeys path ∨ ∃ id, AsksFor codec path query id
  /-- A request for a new key takes the counter and advances it. -/
  enc : Endpoint encKeys path → handleRequest codec path query counter =
    (keyResponse codec (Uuid.fromU128 counter.toNat), counter + 1)
  /-- A request for a known key is answered with the key of an id it asks for. -/
  dec : (∃ id, AsksFor codec path query id) → ∃ id, AsksFor codec path query id ∧
    handleRequest codec path query counter = (keyResponse codec id, counter)
  /-- No other request advances the counter. -/
  counts : ¬ Endpoint encKeys path → (handleRequest codec path query counter).2 = counter

/-- The first `key_ID=` of the query stands between these texts. -/
def FirstKeyId (q before rest : Text) : Prop :=
  q = before ++ keyIdName ++ rest ∧ ∀ a b, q = a ++ keyIdName ++ b → before.length ≤ a.length

/-- The parameter `key_ID` comes last: where the first `key_ID=` has an id as the rest of the query
after it, it begins a parameter, and a parameter `key_ID` that is an id is the first `key_ID=`, with
nothing after it. -/
structure KeyIdLast (q : Text) : Prop where
  begins : ∀ before rest, FirstKeyId q before rest →
    (codec.parseUuid rest).isSome = true → before = [] ∨ ∃ b, before = b ++ ['&']
  first : ∀ value, HasKeyId q value → (codec.parseUuid value).isSome = true →
    ∃ before, FirstKeyId q before value

/-- The requests that are handled as they are meant to be. -/
structure Regular : Prop where
  /-- The SAE of a request for a new key does not contain `dec_keys`. -/
  enc : Endpoint encKeys path → ¬ decKeys <:+: path
  dec : Endpoint decKeys path → ∀ q, query = some q → KeyIdLast codec q
  /-- Any other path below the prefix has the word `dec_keys` if it has the word `enc_keys`, and
  with the word `dec_keys` the rest of the query after the first `key_ID=` is no id. -/
  other : keysPath <+: path → ¬ Endpoint encKeys path → ¬ Endpoint decKeys path →
    (encKeys <:+: path → decKeys <:+: path) ∧
      (decKeys <:+: path → ∀ q before rest, query = some q → FirstKeyId q before rest →
        codec.parseUuid rest = none)

end

/-- What `Uuid::parse_str` accepts consists of hexadecimal digits and the characters of the prefixes
and brackets it knows, and has no separator of a query. -/
def PlainIds (parseUuid : Text → Option Uuid) : Prop :=
  ∀ text, (parseUuid text).isSome = true → '&' ∉ text ∧ '=' ∉ text

section
variable {codec : Codec} {path : Text} {query : Option Text} {counter : UInt64}

theorem Endpoint.below {operation : Text} (h : Endpoint operation path) : keysPath <+: path := by
  obtain ⟨sae, -, -, rfl⟩ := h
  exact ⟨sae ++ '/' :: operation, by rw [List.append_assoc]⟩

theorem Endpoint.names {operation : Text} (h : Endpoint operation path) : operation <:+: path := by
  obtain ⟨sae, -, -, rfl⟩ := h
  exact ⟨keysPath ++ sae ++ ['/'], [], by simp⟩

/-- No path is that of both operations. -/
theorem Endpoint.not_both (he : Endpoint encKeys path) : ¬ Endpoint decKeys path := by
  rintro ⟨sae', -, -, h'⟩
  obtain ⟨sae, -, -, rfl⟩ := he
  have hlen : ('/' :: encKeys).length = ('/' :: decKeys).length := by decide
  have hends := (List.append_inj' h' hlen).2
  exact absurd hends (by decide)

/-- Where the rest of the query after the first `key_ID=` is an id, it is the only value of a
parameter `key_ID`, and that is the last one. -/
theorem eq_of_hasKeyId (hplain : PlainIds codec.parseUuid) {q before rest value : Text}
    (hfirst : FirstKeyId q before rest)
    (hid : (codec.parseUuid rest).isSome = true) (hhas : HasKeyId q value) :
    rest = value ∧ (before = [] ∨ ∃ b, before = b ++ ['&']) := by
  obtain ⟨hamp, heq⟩ := hplain rest hid
  obtain ⟨hq, hfirst⟩ := hfirst
  obtain ⟨-, a, b, hq', ha, hb⟩ := mem_splitOn_iff.mp hhas
  have hsame : before ++ keyIdName ++ rest = a ++ keyIdName ++ (value ++ b) := by
    rw [← hq, hq']
    simp only [List.append_assoc]
  have hle := hfirst a (value ++ b) (hq.trans hsame)
  have hlen : before.length = a.length := by
    by_contra hne
    have hlt : before.length < a.length := by omega
    have hin : keyIdName <:+: rest := occurs_in_rest (by decide) hsame hlt
    exact heq (hin.subset (by decide))
  rw [List.append_assoc, List.append_assoc] at hsame
  obtain ⟨rfl, hrest⟩ := List.append_inj hsame hlen
  have hrest : rest = value ++ b := List.append_cancel_left hrest
  rcases hb with rfl | ⟨b', rfl⟩
  · exact ⟨by rw [hrest, List.append_nil], ha⟩
  · exact absurd (by rw [hrest]; simp) hamp

theorem foundId_eq_some {q : Text} {id : Uuid} : foundId codec (some q) = some id ↔
    ∃ before rest, FirstKeyId q before rest ∧ codec.parseUuid rest = some id := by
  unfold FirstKeyId
  simp only [← find_eq_some_iff]
  simp [foundId, Option.bind_eq_some_iff]

theorem foundId_eq_none : foundId codec query = none ↔
    ∀ q before rest, query = some q → FirstKeyId q before rest → codec.parseUuid rest = none := by
  rw [Option.eq_none_iff_forall_ne_some]
  constructor
  · rintro h q before rest rfl hfirst
    refine Option.eq_none_iff_forall_ne_some.mpr fun id hid => ?_
    exact h id (foundId_eq_some.mpr ⟨before, rest, hfirst, hid⟩)
  · intro h id hid
    cases query with
    | none => cases hid
    | some q =>
      obtain ⟨before, rest, hfirst, hrest⟩ := foundId_eq_some.mp hid
      rw [h q before rest rfl hfirst] at hrest
      cases hrest

/-- If the parameter `key_ID` comes last, the simulator finds its value. -/
theorem KeyIdLast.foundId_iff (hplain : PlainIds codec.parseUuid) {q : Text}
    (h : KeyIdLast codec q) {id : Uuid} : foundId codec (some q) = some id ↔
      ∃ value, HasKeyId q value ∧ codec.parseUuid value = some id := by
  rw [foundId_eq_some]
  constructor
  · rintro ⟨before, rest, hfirst, hrest⟩
    have hsome : (codec.parseUuid rest).isSome = true := by rw [hrest]; rfl
    refine ⟨rest, mem_splitOn_iff.mpr ⟨?_, before, [], ?_, ?_, Or.inl rfl⟩, hrest⟩
    · have hkey : '&' ∉ keyIdName := by decide
      simp [hkey, (hplain rest hsome).1]
    · rw [hfirst.1]
      simp
    · exact h.begins before rest hfirst hsome
  · rintro ⟨value, hhas, hvalue⟩
    obtain ⟨before, hfirst⟩ := h.first value hhas (by rw [hvalue]; rfl)
    exact ⟨before, value, hfirst, hvalue⟩

/-- If the simulator finds an id exactly where there is one, the parameter `key_ID` comes last. -/
theorem keyIdLast_of_foundId (hplain : PlainIds codec.parseUuid) {q : Text}
    (h : (∃ id, foundId codec (some q) = some id) ↔
      ∃ id value, HasKeyId q value ∧ codec.parseUuid value = some id) : KeyIdLast codec q := by
  constructor
  · intro before rest hfirst hsome
    obtain ⟨id, hrest⟩ := Option.isSome_iff_exists.mp hsome
    obtain ⟨_, value, hhas, -⟩ := h.mp ⟨id, foundId_eq_some.mpr ⟨before, rest, hfirst, hrest⟩⟩
    exact (eq_of_hasKeyId hplain hfirst hsome hhas).2
  · intro value hhas hsome
    obtain ⟨id, hvalue⟩ := Option.isSome_iff_exists.mp hsome
    obtain ⟨id', hid'⟩ := h.mpr ⟨id, value, hhas, hvalue⟩
    obtain ⟨before, rest, hfirst, hrest⟩ := foundId_eq_some.mp hid'
    obtain ⟨rfl, -⟩ := eq_of_hasKeyId hplain hfirst (by rw [hrest]; rfl) hhas
    exact ⟨before, hfirst⟩

/-! ### The three kinds of paths -/

/-- A refusal is no key. -/
theorem not_key_of_status {r : Response} (h : r.status ≠ 200) :
    ¬ ∃ id, r = keyResponse codec id := by
  rintro ⟨id, rfl⟩
  exact h rfl

theorem asksFor_iff (hdec : Endpoint decKeys path) {q : Text} {id : Uuid} :
    AsksFor codec path (some q) id ↔
      ∃ value, HasKeyId q value ∧ codec.parseUuid value = some id := by
  constructor
  · rintro ⟨-, q', value, hq, hhas, hid⟩
    obtain rfl := Option.some.inj hq
    exact ⟨value, hhas, hid⟩
  · rintro ⟨value, hhas, hid⟩
    exact ⟨hdec, q, value, rfl, hhas, hid⟩

/-- The path of a request for a new key. -/
theorem handled_enc_iff (henc : Endpoint encKeys path) :
    HandledExactly codec path query counter ↔ Regular codec path query := by
  have hnot := henc.not_both
  constructor
  · intro h
    refine ⟨fun _ hd => ?_, fun hdec => absurd hdec hnot, fun _ hne => absurd henc hne⟩
    have hcounter := (handleRequest_dec codec query counter henc.below hd).1
    rw [h.enc henc] at hcounter
    simp at hcounter
  · intro h
    have hr := handleRequest_enc codec query counter henc.below
      (h.enc henc) henc.names
    exact ⟨⟨fun _ => Or.inl henc, fun _ => ⟨_, by rw [hr]⟩⟩, fun _ => hr,
      fun ⟨_, hask⟩ => absurd hask.1 hnot, fun hne => absurd henc hne⟩

/-- The path of a request for a known key. -/
theorem handled_dec_iff (hplain : PlainIds codec.parseUuid) (hdec : Endpoint decKeys path) :
    HandledExactly codec path query counter ↔ Regular codec path query := by
  have hnot : ¬ Endpoint encKeys path := fun henc => henc.not_both hdec
  obtain ⟨hcounter, hcases⟩ := handleRequest_dec codec query counter hdec.below hdec.names
  have hkey : (∃ id, (handleRequest codec path query counter).1 = keyResponse codec id) ↔
      ∃ id, foundId codec query = some id := by
    rcases hcases with ⟨id, hid, hr⟩ | ⟨hnone, hs⟩
    · exact ⟨fun _ => ⟨id, hid⟩, fun _ => ⟨id, hr⟩⟩
    · simp [hnone, not_key_of_status hs]
  constructor
  · intro h
    refine ⟨fun henc => absurd henc hnot, fun _ q hq => ?_, fun _ _ hne => absurd hdec hne⟩
    subst hq
    refine keyIdLast_of_foundId hplain ?_
    rw [← hkey, h.accepts, or_iff_right hnot]
    exact exists_congr fun id => asksFor_iff hdec
  · intro h
    have hfound : ∀ id, foundId codec query = some id ↔ AsksFor codec path query id := by
      intro id
      cases query with
      | none => simp [foundId, AsksFor]
      | some q => rw [asksFor_iff hdec, (h.dec hdec q rfl).foundId_iff hplain]
    refine ⟨?_, fun henc => absurd henc hnot, ?_, fun _ => hcounter⟩
    · rw [hkey, or_iff_right hnot]
      exact exists_congr hfound
    · rintro ⟨id, hask⟩
      rcases hcases with ⟨id', hid, hr⟩ | ⟨hnone, -⟩
      · exact ⟨id', (hfound id').mp hid, Prod.ext hr hcounter⟩
      · rw [(hfound id).mpr hask] at hnone
        cases hnone

/-- Any other path. -/
theorem handled_other_iff (henc : ¬ Endpoint encKeys path) (hdec : ¬ Endpoint decKeys path) :
    HandledExactly codec path query counter ↔ Regular codec path query := by
  have hnone : ¬ (Endpoint encKeys path ∨ ∃ id, AsksFor codec path query id) := by
    rintro (h | ⟨id, h⟩)
    · exact henc h
    · exact hdec h.1
  constructor
  · intro h
    refine ⟨fun h' => absurd h' henc, fun h' => absurd h' hdec, fun hp _ _ => ⟨fun he => ?_, ?_⟩⟩
    · by_contra hd
      have hr := handleRequest_enc codec query counter hp hd he
      exact hnone (h.accepts.mp ⟨_, by rw [hr]⟩)
    · intro hd
      rcases (handleRequest_dec codec query counter hp hd).2
        with ⟨id, -, hr⟩ | ⟨hf, -⟩
      · exact absurd (h.accepts.mp ⟨id, hr⟩) hnone
      · exact foundId_eq_none.mp hf
  · intro h
    have hrefused : (handleRequest codec path query counter).1.status ≠ 200 ∧
        (handleRequest codec path query counter).2 = counter := by
      by_cases hp : keysPath <+: path
      · obtain ⟨hwords, hfound⟩ := h.other hp henc hdec
        by_cases hd : decKeys <:+: path
        · obtain ⟨hcounter, ⟨id, hid, -⟩ | ⟨-, hs⟩⟩ := handleRequest_dec codec query counter hp hd
          · rw [foundId_eq_none.mpr (hfound hd)] at hid
            cases hid
          · exact ⟨hs, hcounter⟩
        · exact handleRequest_other codec query counter (Or.inr ⟨hd, fun he => hd (hwords he)⟩)
      · exact handleRequest_other codec query counter (Or.inl hp)
    refine ⟨?_, fun h' => absurd h' henc, fun ⟨_, hask⟩ => absurd hask.1 hdec, fun _ => hrefused.2⟩
    exact iff_of_false (not_key_of_status hrefused.1) hnone

end

/-- **Where a request is handled exactly.** For every path, query and value of the counter, the
simulator does what it is meant to do if and only if the request is regular. -/
theorem handled_exactly_iff (codec : Codec) (hplain : PlainIds codec.parseUuid) (path : Text)
    (query : Option Text) (counter : UInt64) :
    HandledExactly codec path query counter ↔ Regular codec path query := by
  by_cases henc : Endpoint encKeys path
  · exact handled_enc_iff henc
  · by_cases hdec : Endpoint decKeys path
    · exact handled_dec_iff hplain hdec
    · exact handled_other_iff henc hdec

/-! ### Sample requests -/

/-- A parser of the hyphenated form. -/
def parseHyphenated (text : Text) : Option Uuid :=
  let u : Uuid := ⟨fill 16 (unhex (text.filter (· ≠ '-')))⟩
  if u.toText = text then some u else none

theorem parseHyphenated_plain : PlainIds parseHyphenated := by
  intro text h
  obtain ⟨u, rfl⟩ : ∃ u : Uuid, u.toText = text := by
    by_contra hne
    rw [parseHyphenated, if_neg fun htext => hne ⟨_, htext⟩] at h
    cases h
  have hplain : ∀ c, c ∉ '-' :: digits → c ∉ u.toText := fun c hc htext =>
    hc (List.mem_cons.mpr (Uuid.mem_toText htext))
  exact ⟨hplain '&' (by decide), hplain '=' (by decide)⟩

/-- A text of ASCII characters. -/
def ascii (text : Text) : Bytes := text.map fun c => UInt8.ofNat c.toNat

def jsonHead : Bytes := ascii "\x7b\"keys\":[\x7b\"key\":\"".toList

def jsonMiddle : Bytes := ascii "\",\"key_ID\":\"".toList

def jsonTail : Bytes := ascii "\"\x7d]\x7d".toList

/-- The rendering of texts that need no escapes. -/
def plainKeysJson (key : Bytes) (keyId : Text) : Bytes :=
  jsonHead ++ key ++ jsonMiddle ++ ascii keyId ++ jsonTail

def sampleCodec : Codec := ⟨parseHyphenated, plainKeysJson⟩

theorem sampleCodec_plain : PlainIds sampleCodec.parseUuid := by
  simp only [sampleCodec]
  exact parseHyphenated_plain

/-- A path with both words. -/
def bothWordsPath : Text := "/api/v1/keys/SAE_002/enc_keys/dec_keys".toList

def sampleQuery : Text := "key_ID=00000000-0000-0000-0000-000000000001".toList

/-- A path that names both operations is served, although only one of them is allowed. -/
theorem both_words_accepted : ¬ HandledExactly sampleCodec bothWordsPath (some sampleQuery) 1 := by
  intro h
  have haccepted : (handleRequest sampleCodec bothWordsPath (some sampleQuery) 1).1 =
      keyResponse sampleCodec (Uuid.fromU128 1) := by
    decide +kernel
  rcases h.accepts.mp ⟨_, haccepted⟩ with henc | ⟨_, hdec, -⟩
  · exact absurd henc (by decide +kernel)
  · exact absurd hdec (by decide +kernel)

/-- The path of a request for a known key. -/
def samplePath : Text := "/api/v1/keys/SAE_002/dec_keys".toList

/-- The query consists of the parameter `key_ID`. -/
theorem sampleQuery_keyIdLast : KeyIdLast sampleCodec sampleQuery := by
  have hfields : sampleQuery.splitOn '&' = [sampleQuery] := by decide +kernel
  have hquery : sampleQuery = [] ++ keyIdName ++ sampleQuery.drop 7 := by decide +kernel
  constructor
  · intro before rest hfirst _
    have hle := hfirst.2 [] (sampleQuery.drop 7) hquery
    exact Or.inl (List.eq_nil_of_length_eq_zero (Nat.le_zero.mp hle))
  · intro value hhas _
    unfold HasKeyId at hhas
    rw [hfields, List.mem_singleton] at hhas
    exact ⟨[], hhas.symm, fun _ _ _ => Nat.zero_le _⟩

theorem handled_exactly_iff_sample :
    AsksFor sampleCodec samplePath (some sampleQuery) (Uuid.fromU128 1) ∧
      HandledExactly sampleCodec samplePath (some sampleQuery) 1 := by
  have hdec : Endpoint decKeys samplePath := by decide +kernel
  have hvalue : keyIdName ++ sampleQuery.drop 7 ∈ sampleQuery.splitOn '&' := by decide +kernel
  have hasks : AsksFor sampleCodec samplePath (some sampleQuery) (Uuid.fromU128 1) :=
    ⟨hdec, sampleQuery, sampleQuery.drop 7, rfl, hvalue, by decide +kernel⟩
  refine ⟨hasks, (handled_exactly_iff sampleCodec sampleCodec_plain samplePath (some sampleQuery)
    1).mpr ?_⟩
  constructor
  · intro henc
    exact absurd hdec henc.not_both
  · rintro _ q ⟨⟩
    exact sampleQuery_keyIdLast
  · intro _ _ hne
    exact absurd hdec hne

end Daisyway.Simulator.Requests
