import Daisyway.Crypto.Kdf
import Daisyway.Crypto.Protocol
import Daisyway.Lib.Keccak
import Daisyway.Lib.Run
import Daisyway.Lib.Stream

/-! # One connection

A link is the server's protocol, the client's protocol and the two directions of the stream between
them. Every interleaving of their steps is a run: bytes are written and read in chunks of any size,
either direction can be cut at any byte, every read, write and KME request can fail at any time.

The invariant speaks about each side on its own. What the server has written is the requests of its
completed rounds and a front of the current one, and it has read one acknowledgement for each
completed round (`ServerInv`); what the client has read is the requests of its completed rounds and
the front of one more, and it has written one acknowledgement for each (`ClientInv`). That the two
sides are in lockstep follows from the pipes being in order and from framing (`lockstep`). -/

namespace Daisyway.Crypto.Lockstep

open Daisyway.Prim Daisyway.Crypto.Basics Daisyway.Crypto.Kdf Daisyway.Crypto.Protocol
open Daisyway.Etsi014 Daisyway.Lib.Run Daisyway.Lib.Stream

/-! ### The model -/

/-- The KMEs of the two ends: the answers they may give to a request for any key and to a request
for the key with a given id. -/
structure Kme where
  any : KmeAnswer → Bool
  specific : Uuid → KmeAnswer → Bool

/-- What a run is about: the third-party functions, the KMEs and the parameters of the two ends. -/
structure Config where
  ext : Externals
  kme : Kme
  server : DaisywayProtocolParameters
  client : DaisywayProtocolParameters

/-- A TCP connection with the client's end of it. -/
structure Conn where
  client : ClientProtocol
  /-- From the server to the client. -/
  requests : Pipe UInt8
  /-- From the client to the server. -/
  acks : Pipe UInt8
  deriving DecidableEq

def Conn.new : Conn := ⟨ClientProtocol.new, Pipe.empty, Pipe.empty⟩

/-- A connection with both of its ends. -/
structure Link where
  server : ServerProtocol
  conn : Conn
  deriving DecidableEq

def Link.new : Link := ⟨ServerProtocol.new, Conn.new⟩

/-- The server's KME may give the answer in the action, if there is one. -/
def Kme.allowsServer (kme : Kme) : ServerProtocol.Act → Bool
  | .fetched answer _ => kme.any answer
  | _ => true

/-- The client's KME may give the answer in the action, if there is one, to the request made. -/
def Kme.allowsClient (kme : Kme) (p : ClientProtocol) : ClientProtocol.Act → Bool
  | .fetched answer => p.requested.any fun id => kme.specific id answer
  | _ => true

/-- The effect of a step of the server on the stream. -/
def Conn.serverIo (c : Conn) (p : ServerProtocol) (a : ServerProtocol.Act) : Option Conn :=
  (c.acks.pull (ServerProtocol.taken a)).map fun acks =>
    { c with requests := c.requests.push (p.written a), acks }

/-- A step of the client. -/
def Conn.clientStep (cfg : Config) (c : Conn) (a : ClientProtocol.Act) : Option Conn :=
  if cfg.kme.allowsClient c.client a then
    (c.client.step cfg.ext cfg.client a).bind fun client =>
      (c.requests.pull (ClientProtocol.taken a)).map fun requests =>
        ⟨client, requests, c.acks.push (ClientProtocol.written a)⟩
  else none

/-- A step of the server. -/
def Link.serverStep (cfg : Config) (l : Link) (a : ServerProtocol.Act) : Option Link :=
  if cfg.kme.allowsServer a then
    (l.server.step cfg.ext cfg.server a).bind fun server =>
      (l.conn.serverIo l.server a).map fun conn => ⟨server, conn⟩
  else none

/-- The steps of a link; a cut names how many bytes in flight still arrive. -/
inductive Act where
  | server (a : ServerProtocol.Act)
  | client (a : ClientProtocol.Act)
  | cutRequests (n : ℕ)
  | cutAcks (n : ℕ)
  deriving DecidableEq

/-- One step of the link. -/
def Link.step (cfg : Config) (l : Link) : Act → Option Link
  | .server a => l.serverStep cfg a
  | .client a => (l.conn.clientStep cfg a).map fun conn => { l with conn }
  | .cutRequests n => some { l with conn := { l.conn with requests := l.conn.requests.cutAt n } }
  | .cutAcks n => some { l with conn := { l.conn with acks := l.conn.acks.cutAt n } }

/-! ### The invariant of the server -/

/-- The bytes of the requests of the rounds. -/
def reqBytes (rounds : List Round) : Bytes := (rounds.map Round.req).flatMap RekeyReq.asBytes

theorem reqBytes_concat (rounds : List Round) (r : Round) :
    reqBytes (rounds ++ [r]) = reqBytes rounds ++ r.req.asBytes := by
  simp [reqBytes]

/-- The bytes of the acknowledgements of `n` rounds. -/
def ackBytes (n : ℕ) : Bytes := List.replicate n rekeyAck.dummyData

theorem ackBytes_succ (n : ℕ) : ackBytes (n + 1) = ackBytes n ++ [rekeyAck.dummyData] :=
  List.replicate_succ'

/-- The server fetched the key of the round from its KME, and the request names its id. -/
def ServerRound (cfg : Config) (r : Round) : Prop :=
  r.req.qkdKeyId = r.qkd.id.asBytes ∧
    ∃ answer, cfg.kme.any answer = true ∧ fetchKeyInternal cfg.ext.base64Decode answer = .ok r.qkd

/-- `part` is what the server has written of the request of the current round. -/
def ServerPart (cfg : Config) : ServerPc → Bytes → Prop
  | .write r left, part => ServerRound cfg r ∧ part ++ left = r.req.asBytes ∧ 0 < left.length
  | .readAck r, part => ServerRound cfg r ∧ part = r.req.asBytes
  | .failed .write, part => part.length < RekeyReq.size ∧ ∃ r : RekeyReq, part <+: r.asBytes
  | .failed .read, part | .failed (.ack _), part => ∃ r : RekeyReq, part = r.asBytes
  | _, part => part = []

/-- The invariant of the server: `sent` is all it has written, `acks` all it has read. -/
structure ServerInv (cfg : Config) (p : ServerProtocol) (sent acks : Bytes) : Prop where
  keys_eq : p.keys = p.rounds.map (Round.key cfg.ext cfg.server)
  osk_lt : ∀ c ∈ p.oskCalls, c.1 < p.rounds.length
  rounds_ok : ∀ r ∈ p.rounds, ServerRound cfg r
  sent_eq : ∃ part, sent = reqBytes p.rounds ++ part ∧ ServerPart cfg p.pc part
  acks_eq : (∀ e, p.pc ≠ .failed (.ack e)) → acks = ackBytes p.rounds.length
  acks_ge : ackBytes p.rounds.length <+: acks

theorem ServerInv.new (cfg : Config) : ServerInv cfg ServerProtocol.new [] [] :=
  ⟨rfl, by simp [ServerProtocol.new], by simp [ServerProtocol.new], ⟨[], rfl, rfl⟩, fun _ => rfl,
    List.prefix_rfl⟩

/-- A step that completes no round keeps the invariant if it keeps account of the bytes. -/
theorem ServerInv.setPc {cfg : Config} {p : ServerProtocol} {sent acks : Bytes}
    (h : ServerInv cfg p sent acks) {pc : ServerPc} {sent' : Bytes}
    (hp : ∀ part, sent = reqBytes p.rounds ++ part → ServerPart cfg p.pc part →
      ∃ part', sent' = reqBytes p.rounds ++ part' ∧ ServerPart cfg pc part')
    (ha : (∀ e, pc ≠ .failed (.ack e)) → ∀ e, p.pc ≠ .failed (.ack e)) :
    ServerInv cfg { p with pc } sent' acks := by
  obtain ⟨part, hs, hpart⟩ := h.sent_eq
  exact ⟨h.keys_eq, h.osk_lt, h.rounds_ok, hp part hs hpart, fun he => h.acks_eq (ha he), h.acks_ge⟩

/-- A step that writes nothing and keeps what is known of the current request. -/
theorem ServerInv.idle {cfg : Config} {p : ServerProtocol} {sent acks : Bytes}
    (h : ServerInv cfg p sent acks) {pc : ServerPc}
    (hp : ∀ part, ServerPart cfg p.pc part = ServerPart cfg pc part)
    (ha : (∀ e, pc ≠ .failed (.ack e)) → ∀ e, p.pc ≠ .failed (.ack e)) :
    ServerInv cfg { p with pc } sent acks :=
  h.setPc (fun part he hpart => ⟨part, he, hp part ▸ hpart⟩) ha

/-- A step that completes a round. -/
theorem ServerInv.complete {cfg : Config} {p : ServerProtocol} {sent acks : Bytes}
    (h : ServerInv cfg p sent acks) {r : Round} (hpc : p.pc = .readAck r) :
    ServerInv cfg (p.complete cfg.ext cfg.server r) sent (acks ++ [rekeyAck.dummyData]) := by
  obtain ⟨part, he, hpart⟩ := h.sent_eq
  rw [hpc] at hpart
  have hacks := h.acks_eq fun e => by simp [hpc]
  have hlen : (p.rounds ++ [r]).length = p.rounds.length + 1 := by simp
  refine ⟨?_, ?_, ?_, ⟨[], ?_, rfl⟩, fun _ => ?_, ?_⟩
  · simp [ServerProtocol.complete, h.keys_eq]
  · intro c hc
    rcases List.mem_append.mp hc with hc | hc
    · have := h.osk_lt c hc
      simp only [ServerProtocol.complete, hlen]
      omega
    · obtain rfl := List.mem_singleton.mp hc
      simp [ServerProtocol.complete]
  · intro r' hr'
    rcases List.mem_append.mp hr' with hr' | hr'
    · exact h.rounds_ok r' hr'
    · obtain rfl := List.mem_singleton.mp hr'
      exact hpart.1
  · rw [ServerProtocol.complete, reqBytes_concat, List.append_nil, he, hpart.2]
  · rw [ServerProtocol.complete, hlen, ackBytes_succ, hacks]
  · rw [ServerProtocol.complete, hlen, ackBytes_succ, hacks]

/-- **A step of the server keeps its invariant.** -/
theorem server_step_inv {cfg : Config} {p p' : ServerProtocol} {a : ServerProtocol.Act}
    {sent acks : Bytes} (h : ServerInv cfg p sent acks) (hk : cfg.kme.allowsServer a = true)
    (hs : p.step cfg.ext cfg.server a = some p') :
    ServerInv cfg p' (sent ++ p.written a) (acks ++ ServerProtocol.taken a) := by
  cases ServerProtocol.step_trans hs with
  | fetchOk hpc hf =>
    simp only [ServerProtocol.written, ServerProtocol.taken, List.append_nil]
    refine h.setPc (fun part he hpart => ?_) (fun _ e => by simp [hpc])
    rw [hpc] at hpart
    obtain rfl : part = [] := hpart
    exact ⟨[], he, ⟨rfl, _, hk, hf⟩, rfl, by simp [RekeyReq.size]⟩
  | fetchErr hpc hf =>
    simp only [ServerProtocol.written, ServerProtocol.taken, List.append_nil]
    exact h.idle (fun part => by rw [hpc]; rfl) (fun _ e => by simp [hpc])
  | fetchPanic hpc hf =>
    simp only [ServerProtocol.written, ServerProtocol.taken, List.append_nil]
    exact h.idle (fun part => by rw [hpc]; rfl) (fun _ e => by simp [hpc])
  | @wroteSome r left n hpc hn hlt =>
    simp only [ServerProtocol.written, ServerProtocol.taken, List.append_nil, hpc]
    refine h.setPc (fun part he hpart => ?_) (fun _ e => by simp [hpc])
    rw [hpc] at hpart
    obtain ⟨hr, hpart, -⟩ := hpart
    refine ⟨part ++ left.take n, by rw [he, List.append_assoc], hr, ?_, by simpa using hlt⟩
    rw [List.append_assoc, List.take_append_drop, hpart]
  | @wroteAll r left hpc hn =>
    simp only [ServerProtocol.written, ServerProtocol.taken, List.append_nil, hpc, List.take_length]
    refine h.setPc (fun part he hpart => ?_) (fun _ e => by simp [hpc])
    rw [hpc] at hpart
    exact ⟨part ++ left, by rw [he, List.append_assoc], hpart.1, hpart.2.1⟩
  | @writeErr r left hpc =>
    simp only [ServerProtocol.written, ServerProtocol.taken, List.append_nil]
    refine h.setPc (fun part he hpart => ⟨part, he, ?_, r.req, ?_⟩) (fun _ e => by simp [hpc])
    · rw [hpc] at hpart
      have := congrArg List.length hpart.2.1
      rw [List.length_append, RekeyReq.length_asBytes] at this
      have := hpart.2.2
      omega
    · rw [hpc] at hpart
      exact ⟨left, hpart.2.1⟩
  | @readOk r hpc =>
    simp only [ServerProtocol.written, ServerProtocol.taken, List.append_nil]
    exact h.complete hpc
  | @readBad r b e hpc hv =>
    simp only [ServerProtocol.written, ServerProtocol.taken, List.append_nil]
    obtain ⟨part, he, hpart⟩ := h.sent_eq
    rw [hpc] at hpart
    exact ⟨h.keys_eq, h.osk_lt, h.rounds_ok, ⟨part, he, r.req, hpart.2⟩,
      fun hne => absurd rfl (hne e), h.acks_ge.trans (List.prefix_append _ _)⟩
  | @readErr r hpc =>
    simp only [ServerProtocol.written, ServerProtocol.taken, List.append_nil]
    refine h.setPc (fun part he hpart => ⟨part, he, r.req, ?_⟩) (fun _ e => by simp [hpc])
    rw [hpc] at hpart
    exact hpart.2
  | oskOk hpc =>
    simp only [ServerProtocol.written, ServerProtocol.taken, List.append_nil]
    exact h.idle (fun part => by rw [hpc]; rfl) (fun _ e => by simp [hpc])
  | oskErr hpc =>
    simp only [ServerProtocol.written, ServerProtocol.taken, List.append_nil]
    exact h.idle (fun part => by rw [hpc]; rfl) (fun _ e => by simp [hpc])
  | slept hpc =>
    simp only [ServerProtocol.written, ServerProtocol.taken, List.append_nil]
    exact h.idle (fun part => by rw [hpc]; rfl) (fun _ e => by simp [hpc])

/-! ### The invariant of the client -/

/-- The client's KME answered its request for the id of the round's request with the round's key. -/
def ClientRound (cfg : Config) (r : Round) : Prop :=
  ∃ answer, cfg.kme.specific (Uuid.fromBytes r.req.qkdKeyId) answer = true ∧
    fetchKeyInternal cfg.ext.base64Decode answer = .ok r.qkd

/-- `part` is what the client has read of the request of the current round. -/
def ClientPart (cfg : Config) : ClientPc → Bytes → Prop
  | .read got, part => part = got
  | .fetch req, part => part = req.asBytes
  | .writeAck r, part => ClientRound cfg r ∧ part = r.req.asBytes
  | .setOsk _, part => part = []
  | .failed _, _ | .panicked, _ => True

/-- The invariant of the client: `received` is all it has read, `acks` all it has written. -/
structure ClientInv (cfg : Config) (p : ClientProtocol) (received acks : Bytes) : Prop where
  keys_eq : p.keys = p.rounds.map (Round.key cfg.ext cfg.client)
  osk_lt : ∀ c ∈ p.oskCalls, c.1 < p.rounds.length
  rounds_ok : ∀ r ∈ p.rounds, ClientRound cfg r
  received_eq : ∃ part, received = reqBytes p.rounds ++ part ∧ ClientPart cfg p.pc part
  acks_eq : acks = ackBytes p.rounds.length

theorem ClientInv.new (cfg : Config) : ClientInv cfg ClientProtocol.new [] [] :=
  ⟨rfl, by simp [ClientProtocol.new], by simp [ClientProtocol.new], ⟨[], rfl, rfl⟩, rfl⟩

/-- A step that completes no round keeps the invariant if it keeps account of the bytes. -/
theorem ClientInv.setPc {cfg : Config} {p : ClientProtocol} {received acks : Bytes}
    (h : ClientInv cfg p received acks) {pc : ClientPc} {received' : Bytes}
    (hp : ∀ part, received = reqBytes p.rounds ++ part → ClientPart cfg p.pc part →
      ∃ part', received' = reqBytes p.rounds ++ part' ∧ ClientPart cfg pc part') :
    ClientInv cfg { p with pc } received' acks := by
  obtain ⟨part, hr, hpart⟩ := h.received_eq
  exact ⟨h.keys_eq, h.osk_lt, h.rounds_ok, hp part hr hpart, h.acks_eq⟩

/-- A step that reads nothing. -/
theorem ClientInv.idle {cfg : Config} {p : ClientProtocol} {received acks : Bytes}
    (h : ClientInv cfg p received acks) {pc : ClientPc}
    (hp : ∀ part, ClientPart cfg p.pc part → ClientPart cfg pc part) :
    ClientInv cfg { p with pc } received acks :=
  h.setPc fun part he hpart => ⟨part, he, hp part hpart⟩

/-- A step that completes a round. -/
theorem ClientInv.complete {cfg : Config} {p : ClientProtocol} {received acks : Bytes}
    (h : ClientInv cfg p received acks) {r : Round} (hpc : p.pc = .writeAck r) :
    ClientInv cfg (p.complete cfg.ext cfg.client r) received (acks ++ rekeyAck.asBytes) := by
  obtain ⟨part, he, hpart⟩ := h.received_eq
  rw [hpc] at hpart
  have hlen : (p.rounds ++ [r]).length = p.rounds.length + 1 := by simp
  refine ⟨?_, ?_, ?_, ⟨[], ?_, rfl⟩, ?_⟩
  · simp [ClientProtocol.complete, h.keys_eq]
  · intro c hc
    rcases List.mem_append.mp hc with hc | hc
    · have := h.osk_lt c hc
      simp only [ClientProtocol.complete, hlen]
      omega
    · obtain rfl := List.mem_singleton.mp hc
      simp [ClientProtocol.complete]
  · intro r' hr'
    rcases List.mem_append.mp hr' with hr' | hr'
    · exact h.rounds_ok r' hr'
    · obtain rfl := List.mem_singleton.mp hr'
      exact hpart.1
  · rw [ClientProtocol.complete, reqBytes_concat, List.append_nil, he, hpart.2]
  · rw [ClientProtocol.complete, hlen, ackBytes_succ, h.acks_eq]
    rfl

/-- **A step of the client keeps its invariant.** -/
theorem client_step_inv {cfg : Config} {p p' : ClientProtocol} {a : ClientProtocol.Act}
    {received acks : Bytes} (h : ClientInv cfg p received acks)
    (hk : cfg.kme.allowsClient p a = true) (hs : p.step cfg.ext cfg.client a = some p') :
    ClientInv cfg p' (received ++ ClientProtocol.taken a) (acks ++ ClientProtocol.written a) := by
  cases ClientProtocol.step_trans hs with
  | @readSome got chunk hpc hlt =>
    simp only [ClientProtocol.written, ClientProtocol.taken, List.append_nil]
    refine h.setPc fun part he hpart => ?_
    rw [hpc] at hpart
    obtain rfl : part = got := hpart
    exact ⟨part ++ chunk, by rw [he, List.append_assoc], rfl⟩
  | @readAll got chunk hpc hlen =>
    simp only [ClientProtocol.written, ClientProtocol.taken, List.append_nil]
    refine h.setPc fun part he hpart => ?_
    rw [hpc] at hpart
    obtain rfl : part = got := hpart
    exact ⟨part ++ chunk, by rw [he, List.append_assoc], (RekeyReq.asBytes_ofBytes hlen).symm⟩
  | readErr hpc | fetchErr hpc hf | fetchPanic hpc hf | writeErr hpc | oskErr hpc =>
    simp only [ClientProtocol.written, ClientProtocol.taken, List.append_nil]
    exact h.idle fun _ _ => trivial
  | @fetchOk req answer key hpc hf =>
    simp only [ClientProtocol.written, ClientProtocol.taken, List.append_nil]
    refine h.idle fun part hpart => ⟨⟨answer, ?_, hf⟩, ?_⟩
    · simpa [Kme.allowsClient, ClientProtocol.requested, hpc] using hk
    · rwa [hpc] at hpart
  | @wroteAck r hpc =>
    simp only [ClientProtocol.written, ClientProtocol.taken, List.append_nil]
    exact h.complete hpc
  | oskOk hpc =>
    simp only [ClientProtocol.written, ClientProtocol.taken, List.append_nil]
    refine h.idle fun part hpart => ?_
    rwa [hpc] at hpart

/-! ### Both ends -/

/-- The invariant of a link. -/
structure LinkInv (cfg : Config) (p : ServerProtocol) (c : Conn) : Prop where
  server : ServerInv cfg p c.requests.sent c.acks.received
  client : ClientInv cfg c.client c.requests.received c.acks.sent

theorem LinkInv.new (cfg : Config) : LinkInv cfg ServerProtocol.new Conn.new :=
  ⟨ServerInv.new cfg, ClientInv.new cfg⟩

theorem LinkInv.serverIo {cfg : Config} {p p' : ServerProtocol} {c c' : Conn}
    {a : ServerProtocol.Act} (h : LinkInv cfg p c) (hk : cfg.kme.allowsServer a = true)
    (hs : p.step cfg.ext cfg.server a = some p') (hio : c.serverIo p a = some c') :
    LinkInv cfg p' c' := by
  obtain ⟨acks, hpull, rfl⟩ := Option.map_eq_some_iff.mp hio
  obtain ⟨h1, h2⟩ := Pipe.pull_some hpull
  refine ⟨?_, ?_⟩
  · simpa only [Pipe.push_sent, h2] using server_step_inv h.server hk hs
  · simpa only [Pipe.push_received, h1] using h.client

/-- The return of the server's OSK handler touches no stream. -/
theorem LinkInv.oskSet {cfg : Config} {p p' : ServerProtocol} {c : Conn} {ok : Bool}
    (h : LinkInv cfg p c) (hs : p.step cfg.ext cfg.server (.oskSet ok) = some p') :
    LinkInv cfg p' c := by
  have hinv := server_step_inv h.server rfl hs
  simp only [ServerProtocol.written, ServerProtocol.taken, List.append_nil] at hinv
  exact ⟨hinv, h.client⟩

theorem LinkInv.clientStep {cfg : Config} {p : ServerProtocol} {c c' : Conn}
    {a : ClientProtocol.Act} (h : LinkInv cfg p c) (hs : c.clientStep cfg a = some c') :
    LinkInv cfg p c' := by
  unfold Conn.clientStep at hs
  split_ifs at hs with hk
  obtain ⟨client, hc, hs⟩ := Option.bind_eq_some_iff.mp hs
  obtain ⟨requests, hpull, rfl⟩ := Option.map_eq_some_iff.mp hs
  obtain ⟨h1, h2⟩ := Pipe.pull_some hpull
  refine ⟨?_, ?_⟩
  · simpa only [Pipe.push_received, h1] using h.server
  · simpa only [Pipe.push_sent, h2] using client_step_inv h.client hk hc

theorem LinkInv.cutRequests {cfg : Config} {p : ServerProtocol} {c : Conn} (h : LinkInv cfg p c)
    (n : ℕ) : LinkInv cfg p { c with requests := c.requests.cutAt n } :=
  ⟨h.server, h.client⟩

theorem LinkInv.cutAcks {cfg : Config} {p : ServerProtocol} {c : Conn} (h : LinkInv cfg p c)
    (n : ℕ) : LinkInv cfg p { c with acks := c.acks.cutAt n } :=
  ⟨h.server, h.client⟩

theorem step_linkInv {cfg : Config} {l l' : Link} {a : Act} (h : LinkInv cfg l.server l.conn)
    (hs : l.step cfg a = some l') : LinkInv cfg l'.server l'.conn := by
  cases a with
  | server a =>
    simp only [Link.step, Link.serverStep] at hs
    split_ifs at hs with hk
    obtain ⟨server, hp, hs⟩ := Option.bind_eq_some_iff.mp hs
    obtain ⟨conn, hio, rfl⟩ := Option.map_eq_some_iff.mp hs
    exact h.serverIo hk hp hio
  | client a =>
    obtain ⟨conn, hc, rfl⟩ := Option.map_eq_some_iff.mp hs
    exact h.clientStep hc
  | cutRequests n => cases hs; exact h.cutRequests n
  | cutAcks n => cases hs; exact h.cutAcks n

/-- The invariant holds in every state of every run. -/
theorem run_linkInv {cfg : Config} {acts : List Act} {l : Link}
    (h : run (Link.step cfg) Link.new acts = some l) : LinkInv cfg l.server l.conn :=
  run_invariant (I := fun l => LinkInv cfg l.server l.conn) step_linkInv (LinkInv.new cfg) h

/-! ### Lockstep -/

theorem ServerPart.exists_req {cfg : Config} {pc : ServerPc} {part : Bytes}
    (h : ServerPart cfg pc part) : ∃ r : RekeyReq, part <+: r.asBytes := by
  unfold ServerPart at h
  split at h
  · next r left => exact ⟨r.req, left, h.2.1⟩
  · next r => exact ⟨r.req, by rw [h.2]⟩
  · exact h.2
  · obtain ⟨r, rfl⟩ := h; exact ⟨r, List.prefix_rfl⟩
  · obtain ⟨r, rfl⟩ := h; exact ⟨r, List.prefix_rfl⟩
  · subst h; exact ⟨⟨zeroed 16, zeroed 32⟩, List.nil_prefix⟩

section Lockstep
variable {cfg : Config} {p : ServerProtocol} {c : Conn}

/-- What the client has read of complete requests is a front of what the server has written. -/
theorem LinkInv.reqBytes_prefix (h : LinkInv cfg p c) :
    reqBytes c.client.rounds <+: c.requests.sent := by
  obtain ⟨part, hr, -⟩ := h.client.received_eq
  refine List.IsPrefix.trans ?_ c.requests.received_prefix_sent
  rw [hr]
  exact List.prefix_append _ _

/-- The server has completed no round the client has not completed. -/
theorem LinkInv.server_le (h : LinkInv cfg p c) : p.rounds.length ≤ c.client.rounds.length := by
  have hp := h.server.acks_ge.trans c.acks.received_prefix_sent
  rw [h.client.acks_eq] at hp
  simpa [ackBytes] using hp.length_le

/-- **Lockstep**: the requests of the server's rounds are a front of those of the client's rounds,
and the client is at most one round ahead. -/
theorem LinkInv.lockstep (h : LinkInv cfg p c) :
    p.rounds.map Round.req <+: c.client.rounds.map Round.req ∧
      c.client.rounds.length ≤ p.rounds.length + 1 := by
  obtain ⟨part, hs, hpart⟩ := h.server.sent_eq
  obtain ⟨r, hr⟩ := hpart.exists_req
  have hb := h.reqBytes_prefix
  rw [hs] at hb
  have hc : c.client.rounds.map Round.req <+: p.rounds.map Round.req ++ [r] :=
    prefix_concat_of_flatMap_prefix (n := RekeyReq.size) RekeyReq.length_asBytes (by decide)
      RekeyReq.asBytes_injective hr hb
  refine ⟨List.prefix_of_prefix_length_le (List.prefix_append _ [r]) hc ?_, ?_⟩
  · simpa using h.server_le
  · simpa using hc.length_le

/-- Where the server has not written the whole request of its current round, the client is not
ahead. -/
theorem LinkInv.client_le (h : LinkInv cfg p c)
    (hlt : ∀ part, ServerPart cfg p.pc part → part.length < RekeyReq.size) :
    c.client.rounds.length ≤ p.rounds.length := by
  obtain ⟨part, hs, hpart⟩ := h.server.sent_eq
  have hb := h.reqBytes_prefix
  rw [hs] at hb
  have := length_le_of_flatMap_prefix (n := RekeyReq.size) RekeyReq.length_asBytes
    (hlt part hpart) hb
  simpa using this

/-- The round the client completed for a completed round of the server. -/
theorem LinkInv.client_round (h : LinkInv cfg p c) {n : ℕ} {rs : Round}
    (hn : p.rounds[n]? = some rs) :
    ∃ rc, c.client.rounds[n]? = some rc ∧ rc.req = rs.req := by
  obtain ⟨t, ht⟩ := h.lockstep.1
  have hlt : n < (p.rounds.map Round.req).length := by
    simpa using (List.getElem?_eq_some_iff.mp hn).1
  have he : (c.client.rounds.map Round.req)[n]? = some rs.req := by
    rw [← ht, List.getElem?_append_left hlt, List.getElem?_map, hn, Option.map_some]
  rw [List.getElem?_map] at he
  exact Option.map_eq_some_iff.mp he

end Lockstep

/-! ### Equal keys -/

/-- The client's KME returns for a requested id the id and the key the server's KME gave out. -/
def Config.Consistent (cfg : Config) : Prop :=
  ∀ a k a' k', cfg.kme.any a = true → fetchKeyInternal cfg.ext.base64Decode a = .ok k →
    cfg.kme.specific k.id a' = true → fetchKeyInternal cfg.ext.base64Decode a' = .ok k' → k' = k

section Keys
variable {cfg : Config} {p : ServerProtocol} {c : Conn}

/-- With consistent KMEs, rounds with the same request are the same. -/
theorem round_eq_of_consistent (hk : cfg.Consistent) {rs rc : Round} (hs : ServerRound cfg rs)
    (hc : ClientRound cfg rc) (hreq : rs.req = rc.req) : rs = rc := by
  obtain ⟨hid, a, ha, hf⟩ := hs
  obtain ⟨a', ha', hf'⟩ := hc
  rw [← hreq, hid, Uuid.fromBytes_asBytes] at ha'
  obtain ⟨req, qkd⟩ := rs
  obtain ⟨req', qkd'⟩ := rc
  rw [hk a qkd a' qkd' ha hf ha' hf']
  exact congrArg (Round.mk · qkd) hreq

/-- **The keys of the server are a front of the keys of the client.** -/
theorem LinkInv.keys_prefix (h : LinkInv cfg p c) (hm : Mirrored cfg.server cfg.client)
    (hk : cfg.Consistent) : p.keys <+: c.client.keys := by
  have hr : p.rounds <+: c.client.rounds := by
    refine prefix_of_map_prefix (fun rs hrs rc hrc hreq => ?_) h.lockstep.1
    exact round_eq_of_consistent hk (h.server.rounds_ok rs hrs) (h.client.rounds_ok rc hrc) hreq
  have he : Round.key cfg.ext cfg.server = Round.key cfg.ext cfg.client :=
    funext fun r => derive_mirrored hm r.req.nonce r.qkd
  rw [h.server.keys_eq, h.client.keys_eq, he]
  exact hr.map _

theorem LinkInv.keys_length (h : LinkInv cfg p c) :
    p.keys.length = p.rounds.length ∧ c.client.keys.length = c.client.rounds.length := by
  rw [h.server.keys_eq, h.client.keys_eq, List.length_map, List.length_map]
  exact ⟨rfl, rfl⟩

end Keys

/-! ### Failing rounds -/

/-- The steps of a round that can fail, in the order of the protocol. -/
inductive FailPoint where
  | serverFetch
  | serverWrite
  | clientRead
  | clientFetch
  | clientWriteAck
  | serverReadAck
  | serverValidateAck
  deriving DecidableEq

/-- The failure is at or before the client's write of the acknowledgement. -/
def FailPoint.uptoAck : FailPoint → Bool
  | .serverReadAck | .serverValidateAck => false
  | _ => true

/-- The round in which the server failed, and where. -/
def serverFailure (p : ServerProtocol) : Option (ℕ × FailPoint) :=
  match p.pc with
  | .failed (.fetch _) | .panicked => some (p.rounds.length, .serverFetch)
  | .failed .write => some (p.rounds.length, .serverWrite)
  | .failed .read => some (p.rounds.length, .serverReadAck)
  | .failed (.ack _) => some (p.rounds.length, .serverValidateAck)
  | _ => none

/-- The round in which the client failed, and where. -/
def clientFailure (p : ClientProtocol) : Option (ℕ × FailPoint) :=
  match p.pc with
  | .failed .read => some (p.rounds.length, .clientRead)
  | .failed (.fetch _) | .panicked => some (p.rounds.length, .clientFetch)
  | .failed .write => some (p.rounds.length, .clientWriteAck)
  | _ => none

section Failure
variable {cfg : Config} {p : ServerProtocol} {c : Conn} {n : ℕ} {point : FailPoint}

theorem LinkInv.of_serverFailure (h : LinkInv cfg p c) (hf : serverFailure p = some (n, point)) :
    n = p.rounds.length ∧ (point.uptoAck = true → c.client.rounds.length ≤ n) := by
  -- the request of the round was not written as a whole, or the failure is after the write
  unfold serverFailure at hf
  split at hf <;> cases hf
  · next hpc =>
    exact ⟨rfl, fun _ => h.client_le fun part hp => by rw [hpc] at hp; subst hp; decide⟩
  · next hpc =>
    exact ⟨rfl, fun _ => h.client_le fun part hp => by rw [hpc] at hp; subst hp; decide⟩
  · next hpc => exact ⟨rfl, fun _ => h.client_le fun part hp => by rw [hpc] at hp; exact hp.1⟩
  · exact ⟨rfl, by simp [FailPoint.uptoAck]⟩
  · exact ⟨rfl, by simp [FailPoint.uptoAck]⟩

theorem clientFailure_round (hf : clientFailure c.client = some (n, point)) :
    n = c.client.rounds.length := by
  unfold clientFailure at hf
  split at hf <;> cases hf <;> rfl

/-- **A round in which a step failed hands no key over**: not on the server, and not on the client
if the failure is at or before the write of the acknowledgement. -/
theorem LinkInv.failed_round (h : LinkInv cfg p c)
    (hf : serverFailure p = some (n, point) ∨ clientFailure c.client = some (n, point)) :
    (∀ call ∈ p.oskCalls, call.1 ≠ n) ∧
      (point.uptoAck = true → ∀ call ∈ c.client.oskCalls, call.1 ≠ n) := by
  have hle := h.server_le
  rcases hf with hf | hf
  · obtain ⟨rfl, hc⟩ := h.of_serverFailure hf
    refine ⟨fun call hcall => (h.server.osk_lt call hcall).ne, fun hu call hcall => ?_⟩
    have := h.client.osk_lt call hcall
    have := hc hu
    omega
  · obtain rfl := clientFailure_round hf
    refine ⟨fun call hcall => ?_, fun _ call hcall => (h.client.osk_lt call hcall).ne⟩
    have := h.server.osk_lt call hcall
    omega

end Failure

/-- **Lockstep on one connection.** -/
theorem lockstep_on_one_connection {cfg : Config} (hm : Mirrored cfg.server cfg.client)
    (hk : cfg.Consistent) {acts : List Act} {l : Link}
    (h : run (Link.step cfg) Link.new acts = some l) :
    l.server.keys <+: l.conn.client.keys ∧
      l.conn.client.keys.length ≤ l.server.keys.length + 1 ∧
      (∀ (i : ℕ) (k : Key), l.server.keys[i]? = some k → l.conn.client.keys[i]? = some k) ∧
      ∀ n point, serverFailure l.server = some (n, point) ∨
          clientFailure l.conn.client = some (n, point) →
        (∀ call ∈ l.server.oskCalls, call.1 ≠ n) ∧
          (point.uptoAck = true → ∀ call ∈ l.conn.client.oskCalls, call.1 ≠ n) := by
  have hinv := run_linkInv h
  have hpre := hinv.keys_prefix hm hk
  refine ⟨hpre, ?_, fun i k hi => ?_, fun n point hf => hinv.failed_round hf⟩
  · rw [hinv.keys_length.1, hinv.keys_length.2]
    exact hinv.lockstep.2
  · obtain ⟨t, ht⟩ := hpre
    have hlt : i < l.server.keys.length := (List.getElem?_eq_some_iff.mp hi).1
    rw [← ht, List.getElem?_append_left hlt, hi]

/-! ### A sample round -/

def sampleKey (b : UInt8) : Etsi014Key := ⟨⟨Vector.replicate 16 b⟩, Vector.replicate 32 b⟩

/-- The answer of a KME that gives out the key. -/
def sampleAnswer (k : Etsi014Key) : KmeAnswer :=
  .response 200 none (some ⟨[⟨k.id, Lib.Base64.encode k.key.toList⟩]⟩)

def sampleExternals : Externals := ⟨Lib.Keccak.shake256, Lib.Base64.decode⟩

/-- The server's KME gives out the key `given`, the client's KME answers with the key `answered`. -/
def sampleConfig (given answered : Etsi014Key) : Config where
  ext := sampleExternals
  kme := ⟨fun a => a = sampleAnswer given, fun _ a => a = sampleAnswer answered⟩
  server := ⟨zeroed 32, Vector.replicate 32 2, Vector.replicate 32 3⟩
  client := ⟨zeroed 32, Vector.replicate 32 3, Vector.replicate 32 2⟩

theorem sampleConfig_mirrored (given answered : Etsi014Key) :
    Mirrored (sampleConfig given answered).server (sampleConfig given answered).client :=
  ⟨rfl, rfl, rfl⟩

theorem sampleConfig_consistent (given : Etsi014Key) : (sampleConfig given given).Consistent := by
  intro a k a' k' ha hf ha' hf'
  obtain rfl : a = sampleAnswer given := by simpa [sampleConfig] using ha
  obtain rfl : a' = sampleAnswer given := by simpa [sampleConfig] using ha'
  rw [hf] at hf'
  exact (Outcome.ok.inj hf').symm

/-- The server asks for the key `given`, the client gets `answered` and acknowledges. -/
def sampleRound (given answered : Etsi014Key) : List Act :=
  [.server (.fetched (sampleAnswer given) (zeroed 32)), .server (.wrote 48),
    .client (.read (RekeyReq.new given.id.asBytes (zeroed 32)).asBytes),
    .client (.fetched (sampleAnswer answered)), .client .wroteAck,
    .server (.read rekeyAck.dummyData)]

/-- The sample round with one key completes on both sides. -/
theorem lockstep_on_sample_round :
    ∃ l, run (Link.step (sampleConfig (sampleKey 1) (sampleKey 1))) Link.new
        (sampleRound (sampleKey 1) (sampleKey 1)) = some l ∧
      l.server.keys.length = 1 ∧ l.server.keys <+: l.conn.client.keys := by
  have h : ((run (Link.step (sampleConfig (sampleKey 1) (sampleKey 1))) Link.new
      (sampleRound (sampleKey 1) (sampleKey 1))).map fun l => l.server.keys.length) = some 1 := by
    decide +kernel
  obtain ⟨l, hl, hn⟩ := Option.map_eq_some_iff.mp h
  exact ⟨l, hl, hn, (lockstep_on_one_connection (sampleConfig_mirrored _ _)
    (sampleConfig_consistent _) hl).1⟩

end Daisyway.Crypto.Lockstep
