import Daisyway.Crypto.Basics
import Daisyway.Etsi014

/-! # The two sides of the protocol

`DaisywayServerProtocol` and `DaisywayClientProtocol` as state machines: a state is the await the
event loop is suspended in, together with the local variables that are live there, and an action is
what that await returns. The server fetches a key, writes the 48 bytes of a rekey request, reads the
one byte of the acknowledgement and hands the derived key to its OSK handler; the client reads the
request, fetches the key with the id it names, writes the acknowledgement and hands over its key.

Between the await that completes a negotiation and the call of `set_fresh_osk` there is no other
await, so both are one step. Each side keeps its history: the rounds it completed, the keys its
negotiations returned, and its calls of `set_fresh_osk` with the number of the round. -/

namespace Daisyway.Crypto.Protocol

open Daisyway.Prim Daisyway.Crypto.Hash Daisyway.Crypto.Basics Daisyway.Etsi014

/-- The third-party functions the protocol uses. -/
structure Externals where
  shake256 : Shake
  base64Decode : Base64Decode

/-- A round of one side: the request that was sent or received, and the QKD key it fetched. -/
structure Round where
  req : RekeyReq
  qkd : Etsi014Key
  deriving DecidableEq

/-- The key a side derives in a round. -/
def Round.key (E : Externals) (params : DaisywayProtocolParameters) (r : Round) : Key :=
  deriveDaisywayKey E.shake256 params r.req.nonce r.qkd

/-! ### The server -/

inductive ServerError where
  | fetch (e : FetchError)
  | write
  | read
  | ack (message : String)
  | osk
  deriving DecidableEq

/-- The context the source adds to the error. -/
def ServerError.context : ServerError → String
  | .fetch _ => "Failed to fetch a QKD key."
  | .write => "Could not send QKD key and nonce to server"
  | .read | .ack _ => "Failed to receive rekey acknowledgement message"
  | .osk => ""

/-- Where the server's event loop is suspended. -/
inductive ServerPc where
  /-- In `fetch_any_key`. -/
  | fetch
  /-- In `write_all` of the request, with the bytes `left` to write. -/
  | write (round : Round) (left : Bytes)
  /-- In `read_exact` of the acknowledgement. -/
  | readAck (round : Round)
  /-- In `set_fresh_osk`. -/
  | setOsk (key : Key)
  /-- In `sleep`. -/
  | sleep
  /-- The event loop has returned the error. -/
  | failed (e : ServerError)
  /-- The event loop has panicked. -/
  | panicked
  deriving DecidableEq

structure ServerProtocol where
  pc : ServerPc
  /-- The rounds in which `negotiate_key` returned a key. -/
  rounds : List Round
  /-- The keys it returned. -/
  keys : List Key
  /-- The calls of `set_fresh_osk`, each with the number of its round. -/
  oskCalls : List (ℕ × Key)
  deriving DecidableEq

namespace ServerProtocol

def new : ServerProtocol := ⟨.fetch, [], [], []⟩

/-- What the await of the server's event loop returns. -/
inductive Act where
  /-- The KME has answered; `nonce` is the random value drawn for the request. -/
  | fetched (answer : KmeAnswer) (nonce : Nonce)
  /-- The stream has taken `n` bytes. -/
  | wrote (n : ℕ)
  | writeFailed
  | read (b : UInt8)
  /-- An error or the end of the stream. -/
  | readFailed
  | oskSet (ok : Bool)
  | slept
  deriving DecidableEq

variable (E : Externals) (params : DaisywayProtocolParameters)

/-- `negotiate_key` returns and `set_fresh_osk` is called. -/
def complete (p : ServerProtocol) (r : Round) : ServerProtocol where
  pc := .setOsk (r.key E params)
  rounds := p.rounds ++ [r]
  keys := p.keys ++ [r.key E params]
  oskCalls := p.oskCalls ++ [(p.rounds.length, r.key E params)]

/-- One step of the event loop. -/
def step (p : ServerProtocol) (a : Act) : Option ServerProtocol :=
  match p.pc, a with
  | .fetch, .fetched answer nonce =>
    match fetchKeyInternal E.base64Decode answer with
    | .ok key =>
      let rekeyReq := RekeyReq.new key.id.asBytes nonce
      some { p with pc := .write ⟨rekeyReq, key⟩ rekeyReq.asBytes }
    | .err e => some { p with pc := .failed (.fetch e) }
    | .panicked => some { p with pc := .panicked }
  | .write r left, .wrote n =>
    if 0 < n ∧ n ≤ left.length then
      if n = left.length then some { p with pc := .readAck r }
      else some { p with pc := .write r (left.drop n) }
    else none
  | .write _ _, .writeFailed => some { p with pc := .failed .write }
  | .readAck r, .read b =>
    match (RekeyAck.mk b).validate with
    | .ok () => some (p.complete E params r)
    | .error e => some { p with pc := .failed (.ack e) }
  | .readAck _, .readFailed => some { p with pc := .failed .read }
  | .setOsk _, .oskSet ok => some { p with pc := if ok then .sleep else .failed .osk }
  | .sleep, .slept => some { p with pc := .fetch }
  | _, _ => none

/-- The bytes an action puts on the stream. -/
def written (p : ServerProtocol) : Act → Bytes
  | .wrote n =>
    match p.pc with
    | .write _ left => left.take n
    | _ => []
  | _ => []

/-- The bytes an action takes off the stream. -/
def taken : Act → Bytes
  | .read b => [b]
  | _ => []

/-- What a step of the server can do. -/
inductive Trans (p : ServerProtocol) : Act → ServerProtocol → Prop
  | fetchOk {answer : KmeAnswer} {nonce : Nonce} {key : Etsi014Key} (hpc : p.pc = .fetch)
      (hf : fetchKeyInternal E.base64Decode answer = .ok key) :
      Trans p (.fetched answer nonce) { p with
        pc := .write ⟨RekeyReq.new key.id.asBytes nonce, key⟩
          (RekeyReq.new key.id.asBytes nonce).asBytes }
  | fetchErr {answer : KmeAnswer} {nonce : Nonce} {e : FetchError} (hpc : p.pc = .fetch)
      (hf : fetchKeyInternal E.base64Decode answer = .err e) :
      Trans p (.fetched answer nonce) { p with pc := .failed (.fetch e) }
  | fetchPanic {answer : KmeAnswer} {nonce : Nonce} (hpc : p.pc = .fetch)
      (hf : fetchKeyInternal E.base64Decode answer = .panicked) :
      Trans p (.fetched answer nonce) { p with pc := .panicked }
  | wroteSome {r : Round} {left : Bytes} {n : ℕ} (hpc : p.pc = .write r left) (hn : 0 < n)
      (hlt : n < left.length) : Trans p (.wrote n) { p with pc := .write r (left.drop n) }
  | wroteAll {r : Round} {left : Bytes} (hpc : p.pc = .write r left) (hn : 0 < left.length) :
      Trans p (.wrote left.length) { p with pc := .readAck r }
  | writeErr {r : Round} {left : Bytes} (hpc : p.pc = .write r left) :
      Trans p .writeFailed { p with pc := .failed .write }
  | readOk {r : Round} (hpc : p.pc = .readAck r) :
      Trans p (.read rekeyAck.dummyData) (p.complete E params r)
  | readBad {r : Round} {b : UInt8} {e : String} (hpc : p.pc = .readAck r)
      (hv : (RekeyAck.mk b).validate = .error e) :
      Trans p (.read b) { p with pc := .failed (.ack e) }
  | readErr {r : Round} (hpc : p.pc = .readAck r) :
      Trans p .readFailed { p with pc := .failed .read }
  | oskOk {key : Key} (hpc : p.pc = .setOsk key) : Trans p (.oskSet true) { p with pc := .sleep }
  | oskErr {key : Key} (hpc : p.pc = .setOsk key) :
      Trans p (.oskSet false) { p with pc := .failed .osk }
  | slept (hpc : p.pc = .sleep) : Trans p .slept { p with pc := .fetch }

variable {E params}

theorem step_trans {p p' : ServerProtocol} {a : Act} (h : p.step E params a = some p') :
    Trans E params p a p' := by
  unfold step at h
  split at h
  · next answer nonce hpc =>
    split at h <;> cases h
    · next hf => exact .fetchOk hpc hf
    · next hf => exact .fetchErr hpc hf
    · next hf => exact .fetchPanic hpc hf
  · next r left n hpc =>
    split_ifs at h with hn hl <;> cases h
    · subst hl; exact .wroteAll hpc hn.1
    · exact .wroteSome hpc hn.1 (by omega)
  · next hpc => cases h; exact .writeErr hpc
  · next r b hpc =>
    split at h <;> cases h
    · next hv =>
      obtain rfl : b = rekeyAck.dummyData :=
        congrArg RekeyAck.dummyData (RekeyAck.validate_ok_iff.mp hv)
      exact .readOk hpc
    · next hv => exact .readBad hpc hv
  · next hpc => cases h; exact .readErr hpc
  · next key ok hpc =>
    cases h
    cases ok
    · exact .oskErr hpc
    · exact .oskOk hpc
  · next hpc => cases h; exact .slept hpc
  · cases h

end ServerProtocol

/-! ### The client -/

inductive ClientError where
  | read
  | fetch (e : FetchError)
  | write
  | osk
  deriving DecidableEq

/-- The context the source adds to the error. -/
def ClientError.context : ClientError → String
  | .read => "Failed to read rekey request message"
  | .fetch _ => "Failed to fetch key from QKD device"
  | .write => "Failed to send rekey acknowledgement message"
  | .osk => ""

/-- Where the client's event loop is suspended. -/
inductive ClientPc where
  /-- In `read_exact` of the request, having read `got`. -/
  | read (got : Bytes)
  /-- In `fetch_specific_key` of the id of the request. -/
  | fetch (req : RekeyReq)
  /-- In `write_all` of the acknowledgement. -/
  | writeAck (round : Round)
  /-- In `set_fresh_osk`. -/
  | setOsk (key : Key)
  /-- The event loop has returned the error. -/
  | failed (e : ClientError)
  /-- The event loop has panicked. -/
  | panicked
  deriving DecidableEq

structure ClientProtocol where
  pc : ClientPc
  /-- The rounds in which `wait_for_key_negotiation` returned a key. -/
  rounds : List Round
  /-- The keys it returned. -/
  keys : List Key
  /-- The calls of `set_fresh_osk`, each with the number of its round. -/
  oskCalls : List (ℕ × Key)
  deriving DecidableEq

namespace ClientProtocol

def new : ClientProtocol := ⟨.read [], [], [], []⟩

/-- What the await of the client's event loop returns. -/
inductive Act where
  | read (chunk : Bytes)
  /-- An error or the end of the stream. -/
  | readFailed
  | fetched (answer : KmeAnswer)
  /-- The stream has taken the byte of the acknowledgement. -/
  | wroteAck
  | writeFailed
  | oskSet (ok : Bool)
  deriving DecidableEq

variable (E : Externals) (params : DaisywayProtocolParameters)

/-- `wait_for_key_negotiation` returns and `set_fresh_osk` is called. -/
def complete (p : ClientProtocol) (r : Round) : ClientProtocol where
  pc := .setOsk (r.key E params)
  rounds := p.rounds ++ [r]
  keys := p.keys ++ [r.key E params]
  oskCalls := p.oskCalls ++ [(p.rounds.length, r.key E params)]

/-- One step of the event loop. -/
def step (p : ClientProtocol) (a : Act) : Option ClientProtocol :=
  match p.pc, a with
  | .read got, .read chunk =>
    if 0 < chunk.length ∧ got.length + chunk.length ≤ RekeyReq.size then
      if got.length + chunk.length = RekeyReq.size then
        some { p with pc := .fetch (RekeyReq.ofBytes (got ++ chunk)) }
      else some { p with pc := .read (got ++ chunk) }
    else none
  | .read _, .readFailed => some { p with pc := .failed .read }
  | .fetch req, .fetched answer =>
    match fetchKeyInternal E.base64Decode answer with
    | .ok key => some { p with pc := .writeAck ⟨req, key⟩ }
    | .err e => some { p with pc := .failed (.fetch e) }
    | .panicked => some { p with pc := .panicked }
  | .writeAck r, .wroteAck => some (p.complete E params r)
  | .writeAck _, .writeFailed => some { p with pc := .failed .write }
  | .setOsk _, .oskSet ok => some { p with pc := if ok then .read [] else .failed .osk }
  | _, _ => none

/-- What a step of the client can do. -/
inductive Trans (p : ClientProtocol) : Act → ClientProtocol → Prop
  | readSome {got chunk : Bytes} (hpc : p.pc = .read got)
      (hlt : got.length + chunk.length < RekeyReq.size) :
      Trans p (.read chunk) { p with pc := .read (got ++ chunk) }
  | readAll {got chunk : Bytes} (hpc : p.pc = .read got)
      (hlen : (got ++ chunk).length = RekeyReq.size) :
      Trans p (.read chunk) { p with pc := .fetch (RekeyReq.ofBytes (got ++ chunk)) }
  | readErr {got : Bytes} (hpc : p.pc = .read got) :
      Trans p .readFailed { p with pc := .failed .read }
  | fetchOk {req : RekeyReq} {answer : KmeAnswer} {key : Etsi014Key} (hpc : p.pc = .fetch req)
      (hf : fetchKeyInternal E.base64Decode answer = .ok key) :
      Trans p (.fetched answer) { p with pc := .writeAck ⟨req, key⟩ }
  | fetchErr {req : RekeyReq} {answer : KmeAnswer} {e : FetchError} (hpc : p.pc = .fetch req)
      (hf : fetchKeyInternal E.base64Decode answer = .err e) :
      Trans p (.fetched answer) { p with pc := .failed (.fetch e) }
  | fetchPanic {req : RekeyReq} {answer : KmeAnswer} (hpc : p.pc = .fetch req)
      (hf : fetchKeyInternal E.base64Decode answer = .panicked) :
      Trans p (.fetched answer) { p with pc := .panicked }
  | wroteAck {r : Round} (hpc : p.pc = .writeAck r) : Trans p .wroteAck (p.complete E params r)
  | writeErr {r : Round} (hpc : p.pc = .writeAck r) :
      Trans p .writeFailed { p with pc := .failed .write }
  | oskOk {key : Key} (hpc : p.pc = .setOsk key) : Trans p (.oskSet true) { p with pc := .read [] }
  | oskErr {key : Key} (hpc : p.pc = .setOsk key) :
      Trans p (.oskSet false) { p with pc := .failed .osk }

variable {E params} in
theorem step_trans {p p' : ClientProtocol} {a : Act} (h : p.step E params a = some p') :
    Trans E params p a p' := by
  unfold step at h
  split at h
  · next got chunk hpc =>
    split_ifs at h with hn hl <;> cases h
    · exact .readAll hpc (by simpa using hl)
    · exact .readSome hpc (by omega)
  · next hpc => cases h; exact .readErr hpc
  · next req answer hpc =>
    split at h <;> cases h
    · next hf => exact .fetchOk hpc hf
    · next hf => exact .fetchErr hpc hf
    · next hf => exact .fetchPanic hpc hf
  · next hpc => cases h; exact .wroteAck hpc
  · next hpc => cases h; exact .writeErr hpc
  · next key ok hpc =>
    cases h
    cases ok
    · exact .oskErr hpc
    · exact .oskOk hpc
  · cases h

/-- The id the client asks its KME for, where it is suspended in `fetch_specific_key`. -/
def requested (p : ClientProtocol) : Option Uuid :=
  match p.pc with
  | .fetch req => some (Uuid.fromBytes req.qkdKeyId)
  | _ => none

/-- The bytes an action puts on the stream. -/
def written : Act → Bytes
  | .wroteAck => rekeyAck.asBytes
  | _ => []

/-- The bytes an action takes off the stream. -/
def taken : Act → Bytes
  | .read chunk => chunk
  | _ => []

end ClientProtocol

end Daisyway.Crypto.Protocol
