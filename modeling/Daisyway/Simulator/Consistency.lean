import Mathlib.Data.List.Perm.Basic
import Daisyway.Lib.Run
import Daisyway.Etsi014
import Daisyway.Simulator.Requests

/-! # The simulator as a KME

Any number of clients with the simulator: a call sends its request, the simulator handles it and
answers, and the answer is delivered to the client later, in any order. Among the calls are those of
the daemons, `fetch_any_key` and `fetch_specific_key`, and arbitrary other requests. The only state
the simulator has is its counter, and it is read and advanced in one atomic operation, so every
interleaving is an order in which the requests are handled.

Every `fetch_any_key` returns a key with an id that no other one returns, and `fetch_specific_key`
for that id returns the same key to everybody. The id need not be unknown: the ids are the values of
a counter, and a request for a known key is answered whether the id it names was given out or not.
-/

namespace Daisyway.Simulator.Consistency

open Daisyway.Prim Daisyway.Etsi014 Daisyway.Lib.Run Daisyway.Lib.Search Daisyway.Lib.Hex
open Daisyway.Simulator.Requests
open Daisyway.Lib.Base64 (encode encodedLen length_encode le_of_mem_encode)

/-! ### The clients -/

/-- What the clients and the simulator rest on. -/
structure Stack where
  codec : Codec
  /-- `Base64::decode`. -/
  decode : Base64Decode
  /-- The entries of a response body, each with its `key` and its `key_ID`. -/
  parseKeys : Bytes → Option (List (Bytes × Text))
  /-- The path and the query the simulator gets when the HTTP client requests a URL. -/
  target : Text → Text × Option Text

/-- The round trips of ids, JSON and Base64. -/
structure Stack.Lawful (X : Stack) : Prop where
  uuid : ∀ u : Uuid, X.codec.parseUuid u.toText = some u
  json : ∀ (bs : Bytes) (u : Uuid), X.parseKeys (X.codec.keysJson (encode bs) u.toText) =
    some [(encode bs, u.toText)]
  base64 : ∀ (bs : Bytes) (n : ℕ), bs.length ≤ n → X.decode (encode bs) n = .ok bs

/-- The characters that stand for themselves in a segment of a path. -/
def isSegmentChar (c : Char) : Bool := c.isAlphanum || "-._~!$&'()*+,;=:@%".toList.contains c

/-- The segments that stand for a directory. -/
def dotSegments : List Text :=
  [".", "..", "%2e", ".%2e", "%2e.", "%2e%2e"].map String.toList

/-- A single segment of a path. -/
structure IsSegment (s : Text) : Prop where
  nonempty : s ≠ []
  chars : s.all isSegmentChar = true
  no_dots : s.map Char.toLower ∉ dotSegments

instance (s : Text) : Decidable (IsSegment s) :=
  decidable_of_iff (s ≠ [] ∧ s.all isSegmentChar = true ∧ s.map Char.toLower ∉ dotSegments)
    ⟨fun h => ⟨h.1, h.2.1, h.2.2⟩, fun h => ⟨h.nonempty, h.chars, h.no_dots⟩⟩

/-- A path of segments. -/
def PlainPath (path : Text) : Prop :=
  ∃ segments : List Text, segments ≠ [] ∧ (∀ s ∈ segments, IsSegment s) ∧
    path = segments.flatMap ('/' :: ·)

def isQueryChar (c : Char) : Bool := c.isAlphanum || "-._~&=".toList.contains c

def PlainQuery (query : Text) : Prop := query.all isQueryChar = true

instance (query : Text) : Decidable (PlainQuery query) :=
  inferInstanceAs (Decidable (query.all isQueryChar = true))

/-- The URL is the origin of the simulator: below it, plain paths and queries are sent as they are.
-/
def Reaches (X : Stack) (url : Text) : Prop :=
  ∀ path query, PlainPath path → PlainQuery query →
    X.target (url ++ path ++ '?' :: query) = (path, some query)

/-- A client of the simulator. -/
structure GoodConnection (X : Stack) (conn : Etsi014Connection) : Prop where
  reaches : Reaches X conn.url
  segment : IsSegment conn.remoteSaeId
  noDecKeys : ¬ decKeys <:+: conn.remoteSaeId

/-- `response.json()`: each `key_ID` has to be an id. -/
def readKeys (X : Stack) (body : Bytes) : Option ResponseKeys :=
  (X.parseKeys body).bind fun entries =>
    (entries.mapM fun (key, keyId) => (X.codec.parseUuid keyId).map (ResponseKey.mk · key)).map
      ResponseKeys.mk

/-- What a client makes of the answer of the simulator. -/
def fetched (X : Stack) (r : Response) : Outcome FetchError Etsi014Key :=
  fetchKeyInternal X.decode (.response r.status (some r.body) (readKeys X r.body))

/-! ### The system -/

inductive Call where
  /-- `fetch_any_key`. -/
  | any (conn : Etsi014Connection)
  /-- `fetch_specific_key`. -/
  | specific (conn : Etsi014Connection) (id : Uuid)
  /-- Any other request. -/
  | other (path : Text) (query : Option Text)
  deriving DecidableEq

def Call.target (X : Stack) : Call → Text × Option Text
  | .any conn => X.target conn.anyKeyUri
  | .specific conn id => X.target (conn.specificKeyUri id)
  | .other path query => (path, query)

/-- The call of a daemon goes to the simulator. -/
def Call.Good (X : Stack) : Call → Prop
  | .any conn => GoodConnection X conn
  | .specific conn _ => GoodConnection X conn
  | .other _ _ => True

/-- The simulator handles the request of the call. -/
def Call.handle (X : Stack) (call : Call) (counter : UInt64) : Response × UInt64 :=
  handleRequest X.codec (call.target X).1 (call.target X).2 counter

/-- The request is one that takes a value of the counter. -/
def Call.isEnc (X : Stack) (call : Call) : Bool :=
  keysPath <+: (call.target X).1 ∧ ¬ decKeys <:+: (call.target X).1 ∧ encKeys <:+: (call.target X).1

/-- The id a request for a known key names. -/
def Call.names (X : Stack) (call : Call) : Option Uuid :=
  if keysPath <+: (call.target X).1 ∧ decKeys <:+: (call.target X).1 then
    foundId X.codec (call.target X).2
  else none

structure Kme where
  counter : UInt64
  /-- The answers on their way to the clients. -/
  pending : List (Call × Response)
  /-- The calls that have returned, with their answers. -/
  returned : List (Call × Response)
  deriving DecidableEq

namespace Kme

def new : Kme := ⟨1, [], []⟩

inductive Act where
  | handle (call : Call)
  /-- The answer number `i` is delivered. -/
  | deliver (i : ℕ)
  deriving DecidableEq

def step (X : Stack) (s : Kme) : Act → Option Kme
  | .handle call =>
    let (r, counter) := call.handle X s.counter
    some { s with counter, pending := s.pending ++ [(call, r)] }
  | .deliver i =>
    s.pending[i]?.map fun entry =>
      { s with pending := s.pending.eraseIdx i, returned := s.returned ++ [entry] }

theorem step_handle (X : Stack) (s : Kme) (call : Call) :
    s.step X (.handle call) = some { s with
      counter := (call.handle X s.counter).2
      pending := s.pending ++ [(call, (call.handle X s.counter).1)] } := rfl

/-- All calls that were handled. -/
def log (s : Kme) : List (Call × Response) := s.returned ++ s.pending

end Kme

/-- The number of requests that take a value of the counter. -/
def encCount (X : Stack) (acts : List Kme.Act) : ℕ :=
  acts.countP fun
    | .handle call => call.isEnc X
    | .deliver _ => false

/-! ### The calls of the daemons -/

/-- The key of an id: its bytes twice. -/
def keyOf (id : Uuid) : Key := fill 32 (id.asBytes.toList ++ id.asBytes.toList)

theorem toList_keyOf (id : Uuid) : (keyOf id).toList = id.asBytes.toList ++ id.asBytes.toList :=
  toList_fill (by simp)

theorem keyOf_injective : Function.Injective keyOf := by
  intro u u' h
  have hlist := congrArg Vector.toList h
  rw [toList_keyOf, toList_keyOf] at hlist
  have hbytes := (List.append_inj hlist (by simp)).1
  rw [← Uuid.fromBytes_asBytes u, ← Uuid.fromBytes_asBytes u', Vector.toList_inj.mp hbytes]

section
variable {X : Stack} {conn : Etsi014Connection}

/-- **What a client makes of a key of the simulator.** -/
theorem fetched_keyResponse (hX : X.Lawful) (id : Uuid) :
    fetched X (keyResponse X.codec id) = .ok ⟨id, keyOf id⟩ := by
  generalize hbs : id.asBytes.toList ++ id.asBytes.toList = bs
  have hlen : bs.length = keyLength := by simp [← hbs, keyLength]
  have hkeys : readKeys X (keyResponse X.codec id).body = some ⟨[⟨id, encode bs⟩]⟩ := by
    simp [readKeys, keyResponse, hbs, hX.json, hX.uuid]
  have hassert : encodedLen (encode bs).length ≠ keyLength := by
    rw [length_encode, hlen]
    decide
  have hdecode : X.decode (encode bs) keyLength = .ok bs := hX.base64 bs keyLength hlen.le
  have hconvert : ofResponseKey X.decode ⟨id, encode bs⟩ = .ok ⟨id, keyOf id⟩ := by
    simp only [ofResponseKey, if_neg hassert, hdecode, if_pos hlen, keyOf, hbs]
    rfl
  unfold fetched
  rw [hkeys]
  exact hconvert

/-- The segments of the prefix. -/
def apiSegments : List Text := ["api".toList, "v1".toList, "keys".toList]

theorem plainPath_operation (hsae : IsSegment conn.remoteSaeId) {operation : Text}
    (ho : IsSegment operation) : PlainPath (keysPath ++ conn.remoteSaeId ++ '/' :: operation) := by
  have hapi : ∀ s ∈ apiSegments, IsSegment s := by decide +kernel
  have hstart : keysPath = apiSegments.flatMap ('/' :: ·) ++ ['/'] := by decide +kernel
  refine ⟨apiSegments ++ [conn.remoteSaeId, operation], by simp, fun s hs => ?_, ?_⟩
  · rcases List.mem_append.mp hs with hs | hs
    · exact hapi s hs
    · rcases List.mem_cons.mp hs with rfl | hs
      · exact hsae
      · rw [List.mem_singleton.mp hs]
        exact ho
  · rw [hstart, List.flatMap_append]
    generalize apiSegments.flatMap ('/' :: ·) = api
    simp

/-- The query of `fetch_any_key`. -/
def anyKeyQuery : Text := "number=1&key_length=256".toList

theorem target_any (hconn : GoodConnection X conn) : (Call.any conn).target X =
    (keysPath ++ conn.remoteSaeId ++ '/' :: encKeys, some anyKeyQuery) := by
  have hpath : keysPath = "/api/v1/keys/".toList := rfl
  have hends : "/enc_keys?number=1&key_length=256".toList =
      '/' :: encKeys ++ '?' :: anyKeyQuery := by decide +kernel
  have huri : conn.anyKeyUri = conn.url ++ (keysPath ++ conn.remoteSaeId ++ '/' :: encKeys) ++
      '?' :: anyKeyQuery := by
    unfold Etsi014Connection.anyKeyUri
    rw [hends, ← hpath]
    simp only [List.append_assoc, List.cons_append]
  have hquery : PlainQuery anyKeyQuery := by decide +kernel
  show X.target conn.anyKeyUri = _
  rw [huri]
  exact hconn.reaches _ _ (plainPath_operation hconn.segment (by decide +kernel)) hquery

theorem target_specific (hconn : GoodConnection X conn) (id : Uuid) :
    (Call.specific conn id).target X =
      (keysPath ++ conn.remoteSaeId ++ '/' :: decKeys, some (keyIdName ++ id.toText)) := by
  have hpath : keysPath = "/api/v1/keys/".toList := rfl
  have hends : "/dec_keys?key_ID=".toList = '/' :: decKeys ++ '?' :: keyIdName := by decide +kernel
  have huri : conn.specificKeyUri id = conn.url ++
      (keysPath ++ conn.remoteSaeId ++ '/' :: decKeys) ++ '?' :: (keyIdName ++ id.toText) := by
    unfold Etsi014Connection.specificKeyUri
    rw [hends, ← hpath]
    simp only [List.append_assoc, List.cons_append]
  have hquery : PlainQuery (keyIdName ++ id.toText) := by
    have hname : keyIdName.all isQueryChar = true := by decide +kernel
    have hhex : ('-' :: digits).all isQueryChar = true := by decide +kernel
    have hid : id.toText.all isQueryChar = true := List.all_eq_true.mpr fun c hc =>
      List.all_eq_true.mp hhex c (List.mem_cons.mpr (Uuid.mem_toText hc))
    unfold PlainQuery
    rw [List.all_append, hname, hid]
    rfl
  show X.target (conn.specificKeyUri id) = _
  rw [huri]
  exact hconn.reaches _ _ (plainPath_operation hconn.segment (by decide +kernel)) hquery

theorem isEnc_iff {call : Call} : call.isEnc X = true ↔ keysPath <+: (call.target X).1 ∧
    ¬ decKeys <:+: (call.target X).1 ∧ encKeys <:+: (call.target X).1 := by
  simp [Call.isEnc]

/-- A request that takes a value of the counter is answered with the key of that value. -/
theorem handle_enc {call : Call} (h : call.isEnc X = true) (counter : UInt64) :
    call.handle X counter =
      (keyResponse X.codec (Uuid.fromU128 counter.toNat), counter + 1) := by
  obtain ⟨hp, hd, he⟩ := isEnc_iff.mp h
  exact handleRequest_enc _ _ _ hp hd he

/-- Any other request leaves the counter as it is. -/
theorem handle_counter {call : Call} (h : ¬ call.isEnc X = true) (counter : UInt64) :
    (call.handle X counter).2 = counter := by
  rw [isEnc_iff] at h
  unfold Call.handle
  by_cases hp : keysPath <+: (call.target X).1
  · by_cases hd : decKeys <:+: (call.target X).1
    · exact (handleRequest_dec _ _ _ hp hd).1
    · exact (handleRequest_other _ _ _ (Or.inr ⟨hd, fun he => h ⟨hp, hd, he⟩⟩)).2
  · exact (handleRequest_other _ _ _ (Or.inl hp)).2

/-- What is refused gives no key. -/
theorem fetched_refused {r : Response} (h : 400 ≤ r.status) (key : Etsi014Key) :
    fetched X r ≠ .ok key := by
  have hstatus : isSuccess r.status = false := by
    simp only [isSuccess, decide_eq_false_iff_not]
    omega
  unfold fetched fetchKeyInternal
  simp [hstatus]

/-- Any other request gives the key of the id it names, or none. -/
theorem handle_named (hX : X.Lawful) {call : Call} (h : ¬ call.isEnc X = true) {counter : UInt64}
    {key : Etsi014Key} (hkey : fetched X (call.handle X counter).1 = .ok key) :
    call.names X = some key.id ∧ key.key = keyOf key.id := by
  have hstatus : (call.handle X counter).1.status = 200 := by
    refine (handleRequest_status X.codec (call.target X).2 counter (call.target X).1).resolve_right
      fun hrefused => fetched_refused hrefused key hkey
  rw [isEnc_iff] at h
  by_cases hp : keysPath <+: (call.target X).1
  · by_cases hd : decKeys <:+: (call.target X).1
    · unfold Call.names
      rw [if_pos ⟨hp, hd⟩]
      rcases (handleRequest_dec X.codec (call.target X).2 counter hp hd).2 with
        ⟨id, hid, hr⟩ | ⟨-, hrefused⟩
      · have hid' : fetched X (call.handle X counter).1 = .ok ⟨id, keyOf id⟩ :=
          (congrArg (fetched X) hr).trans (fetched_keyResponse hX id)
        obtain rfl := Outcome.ok.inj (hkey.symm.trans hid')
        exact ⟨hid, rfl⟩
      · exact absurd hstatus hrefused
    · exact absurd hstatus (handleRequest_other X.codec (call.target X).2 counter
        (Or.inr ⟨hd, fun he => h ⟨hp, hd, he⟩⟩)).1
  · exact absurd hstatus
      (handleRequest_other X.codec (call.target X).2 counter (Or.inl hp)).1

/-- `fetch_any_key` takes a value of the counter. -/
theorem isEnc_any (hconn : GoodConnection X conn) : (Call.any conn).isEnc X = true := by
  rw [isEnc_iff, target_any hconn]
  have hpath : keysPath ++ conn.remoteSaeId ++ '/' :: encKeys =
      "/api/v1/keys".toList ++ '/' :: (conn.remoteSaeId ++ '/' :: encKeys) := by
    have hstart : keysPath = "/api/v1/keys".toList ++ ['/'] := by decide +kernel
    rw [hstart]
    simp only [List.append_assoc, List.cons_append, List.nil_append]
  refine ⟨⟨conn.remoteSaeId ++ '/' :: encKeys, by rw [List.append_assoc]⟩, fun hd => ?_,
    ⟨keysPath ++ conn.remoteSaeId ++ ['/'], [], by simp⟩⟩
  -- the word stands between two slashes
  have hslash : '/' ∉ decKeys := by decide +kernel
  simp only [hpath] at hd
  rcases infix_append_cons hslash hd with hd | hd
  · exact absurd hd (by decide +kernel)
  · rcases infix_append_cons hslash hd with hd | hd
    · exact hconn.noDecKeys hd
    · exact absurd hd (by decide +kernel)

/-- `fetch_specific_key` is answered with the key of its id. -/
theorem handle_specific (hX : X.Lawful) (hconn : GoodConnection X conn) (id : Uuid)
    (counter : UInt64) :
    ((Call.specific conn id).handle X counter).1 = keyResponse X.codec id := by
  have htarget := target_specific hconn id
  have hp : keysPath <+: keysPath ++ conn.remoteSaeId ++ '/' :: decKeys :=
    ⟨conn.remoteSaeId ++ '/' :: decKeys, by rw [List.append_assoc]⟩
  have hd : decKeys <:+: keysPath ++ conn.remoteSaeId ++ '/' :: decKeys :=
    ⟨keysPath ++ conn.remoteSaeId ++ ['/'], [], by simp⟩
  have hfound : foundId X.codec (some (keyIdName ++ id.toText)) = some id := by
    exact foundId_eq_some.mpr ⟨[], id.toText, ⟨rfl, fun a b _ => Nat.zero_le _⟩, hX.uuid id⟩
  unfold Call.handle
  rw [htarget]
  rcases (handleRequest_dec X.codec (some (keyIdName ++ id.toText)) counter hp hd).2
    with ⟨id', hid, hr⟩ | ⟨hnone, -⟩
  · rw [hfound] at hid
    rw [hr, Option.some.inj hid]
  · rw [hfound] at hnone
    cases hnone

end

/-! ### The invariant -/

/-- Two requests that took a value of the counter have different answers. -/
def Apart (X : Stack) (a b : Call × Response) : Prop :=
  a.1.isEnc X = true → b.1.isEnc X = true → a.2 ≠ b.2

/-- What holds after `k` requests that took a value of the counter. -/
structure Inv (X : Stack) (k : ℕ) (s : Kme) : Prop where
  counter : s.counter.toNat = (1 + k) % 2 ^ 64
  issued : ∀ e ∈ s.log, e.1.isEnc X = true →
    ∃ n ≤ k, e.2 = keyResponse X.codec (Uuid.fromU128 n)
  apart : s.log.Pairwise (Apart X)
  any : ∀ conn r, (Call.any conn, r) ∈ s.log → (Call.any conn).isEnc X = true
  known : ∀ conn id r, (Call.specific conn id, r) ∈ s.log → r = keyResponse X.codec id
  named : ∀ e ∈ s.log, ¬ e.1.isEnc X = true → ∀ key, fetched X e.2 = .ok key →
    e.1.names X = some key.id ∧ key.key = keyOf key.id

section
variable {X : Stack} {k : ℕ} {s s' : Kme}

theorem inv_new : Inv X 0 Kme.new where
  counter := rfl
  issued := by intro e he; cases he
  apart := List.Pairwise.nil
  any := by intro conn r h; cases h
  known := by intro conn id r h; cases h
  named := by intro e he; cases he

theorem keyResponse_injective (hX : X.Lawful) {u u' : Uuid}
    (h : keyResponse X.codec u = keyResponse X.codec u') : u = u' := by
  have hfetched := congrArg (fetched X) h
  rw [fetched_keyResponse hX, fetched_keyResponse hX] at hfetched
  exact (Etsi014Key.mk.inj (Outcome.ok.inj hfetched)).1

theorem log_handle {call : Call} (h : s.step X (.handle call) = some s') :
    s'.counter = (call.handle X s.counter).2 ∧
      s'.log = s.log ++ [(call, (call.handle X s.counter).1)] := by
  rw [Kme.step_handle] at h
  obtain rfl := Option.some.inj h
  exact ⟨rfl, (List.append_assoc _ _ _).symm⟩

theorem mem_log_handle {call : Call} {e : Call × Response}
    (h : s.step X (.handle call) = some s') (he : e ∈ s'.log) :
    e ∈ s.log ∨ e = (call, (call.handle X s.counter).1) := by
  rw [(log_handle h).2] at he
  exact (List.mem_append.mp he).imp_right List.mem_singleton.mp

theorem log_deliver {i : ℕ} (h : s.step X (.deliver i) = some s') :
    s'.counter = s.counter ∧ s'.log.Perm s.log := by
  obtain ⟨e, he, rfl⟩ := Option.map_eq_some_iff.mp h
  obtain ⟨hi, rfl⟩ := List.getElem?_eq_some_iff.mp he
  refine ⟨rfl, ?_⟩
  show (s.returned ++ [s.pending[i]] ++ s.pending.eraseIdx i).Perm (s.returned ++ s.pending)
  rw [List.append_assoc]
  exact (List.getElem_cons_eraseIdx_perm hi).append_left s.returned

/-- The simulator handles a request. -/
theorem inv_handle (hX : X.Lawful) (h : Inv X k s) {call : Call} (hcall : call.Good X)
    (hlt : (k + if call.isEnc X = true then 1 else 0) < 2 ^ 64)
    (hs : s.step X (.handle call) = some s') :
    Inv X (k + if call.isEnc X = true then 1 else 0) s' := by
  obtain ⟨hcounter, hlog⟩ := log_handle hs
  have hvalue : call.isEnc X = true → s.counter.toNat = 1 + k := by
    intro henc
    rw [if_pos henc] at hlt
    rw [h.counter]
    exact Nat.mod_eq_of_lt (by omega)
  have hk : k ≤ k + if call.isEnc X = true then 1 else 0 := Nat.le_add_right _ _
  refine ⟨?_, fun e he henc => ?_, ?_, fun conn r hr => ?_, fun conn id r hr => ?_,
    fun e he henc key hkey => ?_⟩
  · by_cases henc : call.isEnc X = true
    · rw [hcounter, handle_enc henc, UInt64.toNat_add, hvalue henc, if_pos henc]
      rfl
    · rw [hcounter, handle_counter henc, h.counter, if_neg henc]
      rfl
  · rcases mem_log_handle hs he with he | rfl
    · obtain ⟨n, hn, hr⟩ := h.issued e he henc
      exact ⟨n, hn.trans hk, hr⟩
    · refine ⟨1 + k, ?_, ?_⟩
      · rw [if_pos henc]
        omega
      · rw [handle_enc henc, hvalue henc]
  · rw [hlog, List.pairwise_append]
    refine ⟨h.apart, List.pairwise_singleton _ _, fun a ha b hb haenc hbenc heq => ?_⟩
    obtain rfl := List.mem_singleton.mp hb
    obtain ⟨n, hn, hr⟩ := h.issued a ha haenc
    rw [hr, handle_enc hbenc, hvalue hbenc] at heq
    -- the value of the counter is above those given out before
    have hnum := Uuid.eq_of_fromU128_eq (by omega) (by omega) (keyResponse_injective hX heq)
    omega
  · rcases mem_log_handle hs hr with hr | hr
    · exact h.any conn r hr
    · obtain ⟨rfl, -⟩ := Prod.mk.inj hr
      exact isEnc_any hcall
  · rcases mem_log_handle hs hr with hr | hr
    · exact h.known conn id r hr
    · obtain ⟨rfl, rfl⟩ := Prod.mk.inj hr
      exact handle_specific hX hcall id _
  · rcases mem_log_handle hs he with he | rfl
    · exact h.named e he henc key hkey
    · exact handle_named hX henc hkey

/-- An answer is delivered. -/
theorem inv_deliver (h : Inv X k s) {i : ℕ} (hs : s.step X (.deliver i) = some s') :
    Inv X k s' := by
  obtain ⟨hcounter, hperm⟩ := log_deliver hs
  refine ⟨by rw [hcounter, h.counter], fun e he => h.issued e (hperm.mem_iff.mp he), ?_,
    fun conn r hr => h.any conn r (hperm.mem_iff.mp hr),
    fun conn id r hr => h.known conn id r (hperm.mem_iff.mp hr),
    fun e he => h.named e (hperm.mem_iff.mp he)⟩
  refine (hperm.pairwise_iff ?_).mpr h.apart
  intro a b hab ha hb heq
  exact hab hb ha heq.symm

/-- **The invariant of a run.** -/
theorem run_inv (hX : X.Lawful) {acts : List Kme.Act}
    (hrun : run (Kme.step X) Kme.new acts = some s) :
    (∀ call, Kme.Act.handle call ∈ acts → call.Good X) → encCount X acts < 2 ^ 64 →
      Inv X (encCount X acts) s := by
  refine run_invariant_history (I := fun acts s =>
    (∀ call, Kme.Act.handle call ∈ acts → call.Good X) → encCount X acts < 2 ^ 64 →
      Inv X (encCount X acts) s) (fun _ _ => inv_new) ?_ hrun
  intro as s1 a s2 ih hs hgood hlt
  have hcount : encCount X (as ++ [a]) = encCount X as + encCount X [a] := List.countP_append
  rw [hcount] at hlt ⊢
  have hinv := ih (fun call hcall => hgood call (List.mem_append_left _ hcall)) (by omega)
  cases a with
  | handle call =>
    have hone : encCount X [.handle call] = if call.isEnc X = true then 1 else 0 :=
      List.countP_singleton ..
    rw [hone] at hlt ⊢
    exact inv_handle hX hinv (hgood call (by simp)) hlt hs
  | deliver i => exact inv_deliver hinv hs

/-! ### Requests that do not touch the counter -/

/-- The answers to the calls, handled one after the other. -/
def replies (X : Stack) : UInt64 → List Call → List Response
  | _, [] => []
  | counter, call :: rest => (call.handle X counter).1 :: replies X (call.handle X counter).2 rest

theorem run_handles : ∀ {calls : List Call} {s s' : Kme},
    run (Kme.step X) s (calls.map .handle) = some s' →
      s'.pending = s.pending ++ calls.zip (replies X s.counter calls)
  | [], s, s', h => by
    obtain rfl := Option.some.inj h
    exact (List.append_nil _).symm
  | call :: rest, s, s', h => by
    rw [List.map_cons, run_cons, Kme.step_handle, Option.bind_some] at h
    rw [run_handles h]
    exact List.append_assoc _ _ _

/-- The request is refused, or it is one for a known key. -/
def Harmless (X : Stack) (counter : UInt64) (call : Call) : Prop :=
  (call.handle X counter).1.status ≠ 200 ∨ decKeys <:+: (call.target X).1

theorem Harmless.counter {call : Call} (h : Harmless X s.counter call) :
    (call.handle X s.counter).2 = s.counter := by
  refine handle_counter (fun henc => ?_) _
  rcases h with hs | hd
  · rw [handle_enc henc] at hs
    exact hs rfl
  · exact (isEnc_iff.mp henc).2.1 hd

end

/-! ### The main result -/

/-- What the clients can rely on, for all calls that were handled. -/
structure Consistent (X : Stack) (s : Kme) : Prop where
  /-- `fetch_any_key` gives a new key. -/
  any : ∀ conn r, (Call.any conn, r) ∈ s.log →
    (Call.any conn).isEnc X = true ∧ ∃ key, fetched X r = .ok key
  /-- No two new keys have the same id or the same bytes. -/
  fresh : s.log.Pairwise fun a b => a.1.isEnc X = true → b.1.isEnc X = true →
    ∃ key key', fetched X a.2 = .ok key ∧ fetched X b.2 = .ok key' ∧
      key.id ≠ key'.id ∧ key.key ≠ key'.key
  /-- A new key has the id or the bytes of a key that another call returns only if that call has
  named the id. -/
  named : ∀ call r key call' r' key', (call, r) ∈ s.log → call.isEnc X = true →
    fetched X r = .ok key → (call', r') ∈ s.log → ¬ call'.isEnc X = true →
    fetched X r' = .ok key' → key'.id = key.id ∨ key'.key = key.key →
      call'.names X = some key.id
  /-- `fetch_specific_key` for the id of a new key gives that key. -/
  known : ∀ call r key conn r', (call, r) ∈ s.log → call.isEnc X = true →
    fetched X r = .ok key → (Call.specific conn key.id, r') ∈ s.log → fetched X r' = .ok key
  /-- With a refused request or one for a known key before them, later calls get the answers they
  get without it. -/
  untouched : ∀ (call : Call) (later : List Call) (s1 s2 : Kme), Harmless X s.counter call →
    run (Kme.step X) s (later.map .handle) = some s1 →
    run (Kme.step X) s (.handle call :: later.map .handle) = some s2 →
      ∃ r answers, s1.pending = s.pending ++ answers ∧
        s2.pending = s.pending ++ (call, r) :: answers

section
variable {X : Stack} {s : Kme}

/-- An answer with a new key is read as that key. -/
theorem Inv.issued_key {k : ℕ} (hX : X.Lawful) (h : Inv X k s) {e : Call × Response}
    (he : e ∈ s.log) (henc : e.1.isEnc X = true) :
    ∃ id, e.2 = keyResponse X.codec id ∧ fetched X e.2 = .ok ⟨id, keyOf id⟩ := by
  obtain ⟨n, -, hr⟩ := h.issued e he henc
  refine ⟨Uuid.fromU128 n, hr, ?_⟩
  rw [hr]
  exact fetched_keyResponse hX _

theorem Inv.eq_of_issued {k : ℕ} (hX : X.Lawful) (h : Inv X k s) {e : Call × Response}
    (he : e ∈ s.log) (henc : e.1.isEnc X = true) {key : Etsi014Key}
    (hkey : fetched X e.2 = .ok key) : key = ⟨key.id, keyOf key.id⟩ := by
  obtain ⟨id, -, hfetched⟩ := h.issued_key hX he henc
  obtain rfl := Outcome.ok.inj (hkey.symm.trans hfetched)
  rfl

/-- **The simulator is a consistent KME.** In every run with calls of any clients in any order and
fewer than `2 ^ 64` requests for new keys. -/
theorem kme_consistent (X : Stack) (hX : X.Lawful) (acts : List Kme.Act)
    (hrun : run (Kme.step X) Kme.new acts = some s)
    (hgood : ∀ call, Kme.Act.handle call ∈ acts → call.Good X)
    (hlt : encCount X acts < 2 ^ 64) : Consistent X s := by
  have hinv := run_inv hX hrun hgood hlt
  refine ⟨fun conn r hr => ?_, ?_,
    fun call r key call' r' key' hr henc hkey hr' henc' hkey' he => ?_,
    fun call r key conn r' hr henc hkey hr' => ?_, fun call later s1 s2 hharmless h1 h2 => ?_⟩
  · have henc := hinv.any conn r hr
    obtain ⟨id, -, hkey⟩ := hinv.issued_key hX hr henc
    exact ⟨henc, ⟨id, keyOf id⟩, hkey⟩
  · refine hinv.apart.imp_of_mem fun {a b} ha hb hapart haenc hbenc => ?_
    obtain ⟨id, ha', hkey⟩ := hinv.issued_key hX ha haenc
    obtain ⟨id', hb', hkey'⟩ := hinv.issued_key hX hb hbenc
    have hne : id ≠ id' := by
      rintro rfl
      exact hapart haenc hbenc (ha'.trans hb'.symm)
    exact ⟨_, _, hkey, hkey', hne, fun hkeys => hne (keyOf_injective hkeys)⟩
  · obtain ⟨hnames, hbytes⟩ := hinv.named _ hr' henc' key' hkey'
    have hnew := hinv.eq_of_issued hX hr henc hkey
    have hid : key'.id = key.id := by
      refine he.elim id fun hk => keyOf_injective ?_
      rw [← hbytes, hk, hnew]
    rw [hnames, hid]
  · rw [hinv.known conn key.id r' hr', fetched_keyResponse hX,
      ← hinv.eq_of_issued hX hr henc hkey]
  · rw [run_cons, Kme.step_handle, Option.bind_some] at h2
    refine ⟨(call.handle X s.counter).1, later.zip (replies X s.counter later), run_handles h1, ?_⟩
    rw [run_handles h2]
    simp only [hharmless.counter, List.append_assoc, List.singleton_append]

end

/-! ### A sample run -/

theorem parseHyphenated_toText (u : Uuid) : parseHyphenated u.toText = some u := by
  have hdigits : ∀ bs : Bytes, (hexText bs).filter (· ≠ '-') = hexText bs := by
    have hne : '-' ∉ digits := by decide +kernel
    intro bs
    rw [List.filter_eq_self]
    intro c hc
    have hc' : c ≠ '-' := by
      rintro rfl
      exact hne (mem_hexText hc)
    simpa using hc'
  have hfilter : u.toText.filter (· ≠ '-') = hexText u.asBytes.toList := by
    generalize hbs : u.asBytes.toList = bs
    have hsplit : bs.take 4 ++ ((bs.drop 4).take 2 ++ ((bs.drop 6).take 2 ++
        ((bs.drop 8).take 2 ++ bs.drop 10))) = bs := by
      have h8 : (bs.drop 8).take 2 ++ bs.drop 10 = bs.drop 8 := by
        rw [show 10 = 8 + 2 from rfl, ← List.drop_drop, List.take_append_drop]
      have h6 : (bs.drop 6).take 2 ++ bs.drop 8 = bs.drop 6 := by
        rw [show 8 = 6 + 2 from rfl, ← List.drop_drop, List.take_append_drop]
      have h4 : (bs.drop 4).take 2 ++ bs.drop 6 = bs.drop 4 := by
        rw [show 6 = 4 + 2 from rfl, ← List.drop_drop, List.take_append_drop]
      rw [h8, h6, h4, List.take_append_drop]
    have hhyphen : ∀ l : Text, ('-' :: l).filter (· ≠ '-') = l.filter (· ≠ '-') := by
      intro l
      rfl
    unfold Uuid.toText
    rw [hbs]
    simp only [List.filter_append, hhyphen, hdigits, List.append_assoc, ← hexText_append, hsplit]
  have hread : fill 16 (unhex (u.toText.filter (· ≠ '-'))) = u.bytes := by
    rw [hfilter, unhex_hexText]
    exact Vector.toList_inj.mp (toList_fill (by simp [Uuid.asBytes]))
  unfold parseHyphenated
  simp only [hread, if_true]

/-- The entries of a body that `plainKeysJson` has rendered. -/
def plainParseKeys (body : Bytes) : Option (List (Bytes × Text)) :=
  let isText (b : UInt8) : Bool := b ≠ 34
  let rest := body.drop jsonHead.length
  let key := rest.takeWhile isText
  let rest := (rest.dropWhile isText).drop jsonMiddle.length
  let keyId := (rest.takeWhile isText).map fun b => Char.ofNat b.toNat
  if plainKeysJson key keyId = body then some [(key, keyId)] else none

theorem plainParseKeys_render {key : Bytes} {keyId : Text} (hkey : ∀ b ∈ key, b ≠ 34)
    (hid : ∀ c ∈ keyId, UInt8.ofNat c.toNat ≠ 34 ∧ Char.ofNat (UInt8.ofNat c.toNat).toNat = c) :
    plainParseKeys (plainKeysJson key keyId) = some [(key, keyId)] := by
  have hmiddle : jsonMiddle = 34 :: jsonMiddle.tail := by decide +kernel
  have htail : jsonTail = 34 :: jsonTail.tail := by decide +kernel
  have hquote : (fun b : UInt8 => decide (b ≠ 34)) 34 = false := rfl
  have hascii : ∀ b ∈ ascii keyId, (fun b : UInt8 => decide (b ≠ 34)) b = true := by
    intro b hb
    obtain ⟨c, hc, rfl⟩ := List.mem_map.mp hb
    simpa using (hid c hc).1
  have hback : (ascii keyId).map (fun b => Char.ofNat b.toNat) = keyId := by
    unfold ascii
    rw [List.map_map]
    conv_rhs => rw [← List.map_id keyId]
    exact List.map_congr_left fun c hc => (hid c hc).2
  have hkey' : ∀ b ∈ key, (fun b : UInt8 => decide (b ≠ 34)) b = true := by simpa using hkey
  obtain ⟨h1, h2⟩ := cut_at hkey' hquote (jsonMiddle.tail ++ (ascii keyId ++ jsonTail))
  obtain ⟨h3, -⟩ := cut_at hascii hquote jsonTail.tail
  have hbody : plainKeysJson key keyId =
      jsonHead ++ (key ++ (jsonMiddle ++ (ascii keyId ++ jsonTail))) := by
    simp only [plainKeysJson, List.append_assoc]
  rw [← List.cons_append, ← hmiddle] at h1 h2
  rw [← htail] at h3
  unfold plainParseKeys
  simp only [hbody, List.drop_left, h1, h2, h3, hback, if_true]

/-- The target of a URL of a scheme with eight characters. -/
def plainTarget (uri : Text) : Text × Option Text :=
  let rest := (uri.drop 8).dropWhile (· ≠ '/')
  (rest.takeWhile (· ≠ '?'), (rest.dropWhile (· ≠ '?')).tail?)

def sampleStack : Stack := ⟨sampleCodec, Lib.Base64.decode, plainParseKeys, plainTarget⟩

theorem sampleStack_lawful : sampleStack.Lawful where
  uuid u := by
    simp only [sampleStack, sampleCodec]
    exact parseHyphenated_toText u
  json bs u := by
    simp only [sampleStack, sampleCodec]
    refine plainParseKeys_render (fun b hb => ?_) fun c hc => ?_
    · rintro rfl
      exact absurd (le_of_mem_encode hb) (by decide)
    · have hall : ('-' :: digits).all (fun c => UInt8.ofNat c.toNat ≠ 34 ∧
          Char.ofNat (UInt8.ofNat c.toNat).toNat = c) = true := by decide +kernel
      have hchar := List.all_eq_true.mp hall c (List.mem_cons.mpr (Uuid.mem_toText hc))
      simpa using hchar
  base64 bs n hn := Lib.Base64.decode_eq_ok_iff.mpr ⟨rfl, hn⟩

def sampleUrl : Text := "https://kme".toList

theorem mem_plainPath {path : Text} (h : PlainPath path) {c : Char} (hc : c ∈ path) : c ≠ '?' := by
  obtain ⟨segments, -, hsegments, rfl⟩ := h
  obtain ⟨s, hs, hc⟩ := List.mem_flatMap.mp hc
  rintro rfl
  rcases List.mem_cons.mp hc with hc | hc
  · exact absurd hc (by decide)
  · have hchar := List.all_eq_true.mp (hsegments s hs).chars '?' hc
    exact absurd hchar (by decide +kernel)

theorem sampleUrl_reaches : Reaches sampleStack sampleUrl := by
  intro path query hpath hquery
  have hmark : ∀ c ∈ path, decide (c ≠ '?') = true := by
    intro c hc
    simpa using mem_plainPath hpath hc
  obtain ⟨rest, rfl⟩ : ∃ rest, path = '/' :: rest := by
    obtain ⟨segments, hne, -, rfl⟩ := hpath
    obtain ⟨s, segments, rfl⟩ := List.exists_cons_of_ne_nil hne
    exact ⟨_, rfl⟩
  have hhost : sampleUrl = "https://".toList ++ "kme".toList := by decide +kernel
  have hname : "kme".toList.all (fun c => decide (c ≠ '/')) = true := by decide +kernel
  obtain ⟨-, hslash⟩ := cut_at (p := fun c => decide (c ≠ '/')) (q := '/')
    (List.all_eq_true.mp hname) rfl (rest ++ '?' :: query)
  obtain ⟨h1, h2⟩ := cut_at (p := fun c => decide (c ≠ '?')) (q := '?') hmark rfl query
  have hdrop : (sampleUrl ++ '/' :: rest ++ '?' :: query).drop 8 =
      "kme".toList ++ '/' :: (rest ++ '?' :: query) := by
    rw [hhost, List.append_assoc, List.append_assoc]
    exact List.drop_left' (by decide)
  rw [List.cons_append] at h1 h2
  simp only [sampleStack, plainTarget, hdrop, hslash, h1, h2, List.tail?_cons]

/-- Two clients of the simulator. -/
def ada : Etsi014Connection := ⟨sampleUrl, "SAE_002".toList⟩

def bob : Etsi014Connection := ⟨sampleUrl, "sae_ada".toList⟩

theorem ada_good : GoodConnection sampleStack ada :=
  ⟨sampleUrl_reaches, by decide +kernel, by decide +kernel⟩

theorem bob_good : GoodConnection sampleStack bob :=
  ⟨sampleUrl_reaches, by decide +kernel, by decide +kernel⟩

/-- Two new keys, the second one returned first; a refused request; and a known key. -/
def sampleActs : List Kme.Act :=
  [.handle (.any ada), .handle (.other "/status".toList none), .handle (.any bob), .deliver 2,
    .deliver 0, .handle (.specific bob (Uuid.fromU128 1)), .deliver 1]

theorem sampleActs_good : ∀ call, Kme.Act.handle call ∈ sampleActs → call.Good sampleStack := by
  intro call hcall
  simp only [sampleActs, List.mem_cons, Kme.Act.handle.injEq, reduceCtorEq, List.not_mem_nil,
    or_false, false_or] at hcall
  rcases hcall with rfl | rfl | rfl | rfl
  · exact ada_good
  · trivial
  · exact bob_good
  · exact bob_good

theorem kme_consistent_sample :
    ∃ s, run (Kme.step sampleStack) Kme.new sampleActs = some s ∧
      s.returned.map Prod.fst = [.any bob, .any ada, .specific bob (Uuid.fromU128 1)] ∧
      Consistent sampleStack s := by
  have h : ((run (Kme.step sampleStack) Kme.new sampleActs).map fun s =>
      s.returned.map Prod.fst) =
        some [.any bob, .any ada, .specific bob (Uuid.fromU128 1)] := by
    decide +kernel
  obtain ⟨s, hrun, hreturned⟩ := Option.map_eq_some_iff.mp h
  have hcount : encCount sampleStack sampleActs < 2 ^ 64 := by decide +kernel
  exact ⟨s, hrun, hreturned,
    kme_consistent sampleStack sampleStack_lawful sampleActs hrun sampleActs_good hcount⟩

/-- Each `fetch_any_key` returns an id and a key that nobody was returned before. -/
def NewToAll (X : Stack) (s : Kme) : Prop :=
  s.returned.Pairwise fun a b => ∀ conn key key', b.1 = .any conn → fetched X a.2 = .ok key →
    fetched X b.2 = .ok key' → key.id ≠ key'.id ∧ key.key ≠ key'.key

/-- A client asks for the key with the id 1 before that id is given out. -/
def namedFirst : List Kme.Act :=
  [.handle (.specific bob (Uuid.fromU128 1)), .deliver 0, .handle (.any ada), .deliver 0]

/-- The key is returned before it is new. -/
theorem named_before_new :
    ∃ s, run (Kme.step sampleStack) Kme.new namedFirst = some s ∧
      (∀ call, Kme.Act.handle call ∈ namedFirst → call.Good sampleStack) ∧
      encCount sampleStack namedFirst < 2 ^ 64 ∧ ¬ NewToAll sampleStack s := by
  have h : ((run (Kme.step sampleStack) Kme.new namedFirst).map Kme.returned) =
      some [(.specific bob (Uuid.fromU128 1), keyResponse sampleStack.codec (Uuid.fromU128 1)),
        (.any ada, keyResponse sampleStack.codec (Uuid.fromU128 1))] := by
    decide +kernel
  obtain ⟨s, hrun, hreturned⟩ := Option.map_eq_some_iff.mp h
  refine ⟨s, hrun, fun call hcall => ?_, by decide +kernel, fun hnew => ?_⟩
  · simp only [namedFirst, List.mem_cons, Kme.Act.handle.injEq, reduceCtorEq, List.not_mem_nil,
      or_false, false_or] at hcall
    rcases hcall with rfl | rfl
    · exact bob_good
    · exact ada_good
  · unfold NewToAll at hnew
    rw [hreturned] at hnew
    have hkey := fetched_keyResponse sampleStack_lawful (Uuid.fromU128 1)
    have hpair := List.rel_of_pairwise_cons hnew List.mem_cons_self
    exact (hpair ada _ _ rfl hkey hkey).1 rfl

end Daisyway.Simulator.Consistency
