import Daisyway.Crypto.Basics
import Daisyway.Util.Keys

/-! # Set-up from the configuration

`Daisyway::from_config` turns a configuration into the parameters of the protocol, the handler of
the output keys behind its deadman, and a client or a server. What the host gives (the key file,
the client of the QKD device, the peers of a WireGuard interface) is its choice.

A configured key is decoded by `base64ToKey`, which does not look at the decoded length. So a text
is handled as it should be exactly if it is not the encoding of fewer than 32 bytes
(`configured_keys_exact_iff`). -/

namespace Daisyway.Setup

open Daisyway.Prim Daisyway.Crypto.Basics
open Daisyway.Util.ReadExt Daisyway.Util.Keys
open Daisyway.Etsi014 (Base64Decode)
open Daisyway.Lib.Base64 (DecodeError StrictDecoder encode encode_injective)

/-! ### The configuration -/

/-- `DaisywayTcpParticipantConfig`. -/
inductive ParticipantConfig where
  | client (endpoint : Bytes)
  | server (listen : Bytes)
  deriving DecidableEq

/-- `DaisywayConfig` with the outcome of opening the configured key file. -/
structure DaisywayConfig (ε : Type) where
  intervalSecs : Option UInt64
  localPeerId : Bytes
  remotePeerId : Bytes
  interface : Option Bytes
  outfile : Option Bytes
  participant : ParticipantConfig
  pskFile : Option (Except ε (List (ReadOutcome ε)))

/-- The configured interval, or the default. -/
def DaisywayConfig.rekeyInterval {ε : Type} (cfg : DaisywayConfig ε) : UInt64 :=
  cfg.intervalSecs.getD (UInt64.ofNat Crypto.Basics.rekeyInterval)

/-- What the host gives. -/
structure Host (ε : Type) where
  /-- `Etsi014Connection::from_config`. -/
  etsiClient : Except ε Unit
  /-- The public keys of the peers of a WireGuard interface. -/
  wireGuardPeers : Bytes → Except ε (List Key)
  /-- Whether an arithmetic overflow panics; otherwise it wraps. -/
  overflowChecks : Bool

inductive SetupError (ε : Type) where
  /-- Could not load PSK file. -/
  | pskFile (e : LoadError ε)
  /-- Could not decode WireGuard local peer id. -/
  | localPeerId (text : Bytes) (e : DecodeError)
  /-- Could not decode WireGuard remote peer id. -/
  | remotePeerId (text : Bytes) (e : DecodeError)
  /-- The client of the QKD device could not be set up. -/
  | etsi (e : ε)
  /-- You need to specify either the wireguard.interface or outfile.path configuration option. -/
  | noHandler
  /-- You can not specify both the wireguard.interface and outfile.path configuration options. -/
  | twoHandlers
  /-- The WireGuard interface could not be accessed. -/
  | wireGuard (e : ε)
  /-- Could not find WireGuard peer. -/
  | peerNotFound (text : Bytes)
  deriving DecidableEq

/-- The handler of the output keys. -/
inductive OskTarget where
  | outfile (path : Bytes)
  | wireGuard (interface : Bytes) (peerId : Key)
  deriving DecidableEq

/-- `Daisyway`: the parameters of the participant and of its handler. -/
structure Daemon where
  protocolParams : DaisywayProtocolParameters
  target : OskTarget
  /-- The time after which the deadman erases a key, in seconds. -/
  eraseAfter : ℕ
  rekeyInterval : UInt64
  participant : ParticipantConfig
  deriving DecidableEq

section
variable {ε : Type}

/-- `start_deadman`: the seconds after which a key is erased. -/
def startDeadman (overflowChecks : Bool) (rekeyInterval : UInt64) : Outcome ε ℕ :=
  if 2 ^ 64 ≤ rekeyInterval.toNat + 30 ∧ overflowChecks then .panicked
  else .ok ((rekeyInterval.toNat + 30) % 2 ^ 64)

/-- Where the sum is in range, the deadman starts with it. -/
theorem startDeadman_ok_iff {overflowChecks : Bool} {rekeyInterval : UInt64} :
    (startDeadman overflowChecks rekeyInterval : Outcome ε ℕ) = .ok (rekeyInterval.toNat + 30) ↔
      rekeyInterval.toNat + 30 < 2 ^ 64 := by
  unfold startDeadman
  constructor
  · intro h
    by_contra hle
    split_ifs at h
    have hmod := Outcome.ok.inj h
    have hlt := Nat.mod_lt (rekeyInterval.toNat + 30) (show 2 ^ 64 > 0 by decide)
    omega
  · intro hlt
    rw [if_neg (fun h => absurd h.1 (not_le.mpr hlt)), Nat.mod_eq_of_lt hlt]

variable (decode : Base64Decode) (host : Host ε)

/-- `WireGuardOskHandler::setup`. -/
def wireGuardSetup (peerId interface : Bytes) : Outcome (SetupError ε) OskTarget :=
  match base64ToKey decode peerId with
  | .error _ => .panicked
  | .ok key => do
    let peers ← Outcome.ofExcept .wireGuard (host.wireGuardPeers interface)
    if key ∈ peers then .ok (.wireGuard interface key) else .err (.peerNotFound peerId)

/-- The configured PSK, the zero key if there is none. -/
def loadPsk (file : Option (Except ε (List (ReadOutcome ε)))) : Outcome (SetupError ε) Key :=
  match file with
  | none => .ok (zeroed keyLength)
  | some file => (loadBase64KeyFile decode file).mapErr .pskFile

/-- The handler the configuration selects. -/
def oskTarget (cfg : DaisywayConfig ε) : Outcome (SetupError ε) OskTarget :=
  match cfg.interface, cfg.outfile with
  | none, none => .err .noHandler
  | some _, some _ => .err .twoHandlers
  | none, some path => .ok (.outfile path)
  | some interface, none => wireGuardSetup decode host cfg.remotePeerId interface

def fromConfig (cfg : DaisywayConfig ε) : Outcome (SetupError ε) Daemon := do
  let rekeyInterval := cfg.rekeyInterval
  let psk ← loadPsk decode cfg.pskFile
  let localPeerId ← Outcome.ofExcept (.localPeerId cfg.localPeerId)
    (base64ToKey decode cfg.localPeerId)
  let remotePeerId ← Outcome.ofExcept (.remotePeerId cfg.remotePeerId)
    (base64ToKey decode cfg.remotePeerId)
  Outcome.ofExcept .etsi host.etsiClient
  let target ← oskTarget decode host cfg
  let eraseAfter ← startDeadman host.overflowChecks rekeyInterval
  .ok ⟨⟨psk, localPeerId, remotePeerId⟩, target, eraseAfter, rekeyInterval, cfg.participant⟩

/-- The configured text of the PSK: the content of the key file without a trailing newline. -/
def pskText (cfg : DaisywayConfig ε) : Option Bytes :=
  match cfg.pskFile with
  | some (.ok reads) => some (trimNewline (stream reads))
  | _ => none

/-- The texts of the configured keys. -/
def keyTexts (cfg : DaisywayConfig ε) : List Bytes :=
  (pskText cfg).toList ++ [cfg.localPeerId, cfg.remotePeerId]

/-! ### What the set-up takes from the configuration -/

variable {decode host}

theorem loadPsk_ok (hd : StrictDecoder decode) {cfg : DaisywayConfig ε} {psk : Key}
    (hfit : ∀ reads, cfg.pskFile = some (.ok reads) → Fits keyLengthB64 reads)
    (h : loadPsk decode cfg.pskFile = .ok psk) :
    (pskText cfg = none ∧ psk = zeroed keyLength) ∨
      ∃ text, pskText cfg = some text ∧ base64ToKey decode text = .ok psk := by
  unfold pskText
  unfold loadPsk at h
  cases hf : cfg.pskFile with
  | none =>
    rw [hf] at h
    exact Or.inl ⟨rfl, (Outcome.ok.inj h).symm⟩
  | some file =>
    rw [hf] at h
    have hload := Outcome.mapErr_eq_ok.mp h
    rcases file with e | reads
    · exact absurd hload (by simp [loadBase64KeyFile])
    · exact Or.inr ⟨_, rfl, base64ToKey_of_load hd (hfit reads hf) hload⟩

/-- **What a successful set-up has read.** -/
theorem fromConfig_ok (hd : StrictDecoder decode) {cfg : DaisywayConfig ε} {d : Daemon}
    (hfit : ∀ reads, cfg.pskFile = some (.ok reads) → Fits keyLengthB64 reads)
    (h : fromConfig decode host cfg = .ok d) :
    ((pskText cfg = none ∧ d.protocolParams.psk = zeroed keyLength) ∨
      ∃ text, pskText cfg = some text ∧ base64ToKey decode text = .ok d.protocolParams.psk) ∧
    base64ToKey decode cfg.localPeerId = .ok d.protocolParams.localPeerId ∧
    base64ToKey decode cfg.remotePeerId = .ok d.protocolParams.remotePeerId ∧
    d.rekeyInterval = cfg.rekeyInterval ∧
    (startDeadman host.overflowChecks cfg.rekeyInterval : Outcome (SetupError ε) ℕ) =
      .ok d.eraseAfter := by
  unfold fromConfig at h
  obtain ⟨psk, hpsk, h⟩ := Outcome.bind_eq_ok.mp h
  obtain ⟨localPeerId, hlocal, h⟩ := Outcome.bind_eq_ok.mp h
  obtain ⟨remotePeerId, hremote, h⟩ := Outcome.bind_eq_ok.mp h
  obtain ⟨-, -, h⟩ := Outcome.bind_eq_ok.mp h
  obtain ⟨target, -, h⟩ := Outcome.bind_eq_ok.mp h
  obtain ⟨eraseAfter, hdeadman, h⟩ := Outcome.bind_eq_ok.mp h
  obtain rfl := Outcome.ok.inj h
  exact ⟨loadPsk_ok hd hfit hpsk, Outcome.ofExcept_eq_ok.mp hlocal,
    Outcome.ofExcept_eq_ok.mp hremote, rfl, hdeadman⟩

/-- The handler of a daemon is the one its configuration selects. -/
theorem fromConfig_target {cfg : DaisywayConfig ε} {d : Daemon}
    (h : fromConfig decode host cfg = .ok d) : oskTarget decode host cfg = .ok d.target := by
  unfold fromConfig at h
  obtain ⟨_, -, h⟩ := Outcome.bind_eq_ok.mp h
  obtain ⟨_, -, h⟩ := Outcome.bind_eq_ok.mp h
  obtain ⟨_, -, h⟩ := Outcome.bind_eq_ok.mp h
  obtain ⟨_, -, h⟩ := Outcome.bind_eq_ok.mp h
  obtain ⟨target, htarget, h⟩ := Outcome.bind_eq_ok.mp h
  obtain ⟨_, -, h⟩ := Outcome.bind_eq_ok.mp h
  obtain rfl := Outcome.ok.inj h
  exact htarget

/-- A WireGuard handler is for the remote peer, which the interface has. -/
theorem oskTarget_wireGuard {cfg : DaisywayConfig ε} {interface : Bytes} {peerId : Key}
    (h : oskTarget decode host cfg = .ok (.wireGuard interface peerId)) :
    base64ToKey decode cfg.remotePeerId = .ok peerId ∧
      ∃ peers, host.wireGuardPeers interface = .ok peers ∧ peerId ∈ peers := by
  unfold oskTarget at h
  split at h
  · cases h
  · cases h
  · cases h
  · next name _ _ =>
    unfold wireGuardSetup at h
    split at h
    · cases h
    · next key hkey =>
      obtain ⟨peers, hpeers, h⟩ := Outcome.bind_eq_ok.mp h
      split_ifs at h with hmem
      obtain ⟨rfl, rfl⟩ := OskTarget.wireGuard.inj (Outcome.ok.inj h)
      exact ⟨hkey, peers, Outcome.ofExcept_eq_ok.mp hpeers, hmem⟩

end

/-! ### Texts of 32-byte keys -/

/-- The text is accepted exactly as the key it encodes. -/
def AcceptsExactly (decode : Base64Decode) (s : Bytes) : Prop :=
  ∀ k : Key, base64ToKey decode s = .ok k ↔ s = encode k.toList

/-- The text encodes fewer than 32 bytes. -/
def ShortEncoding (s : Bytes) : Prop := ∃ bs, s = encode bs ∧ bs.length < keyLength

/-- The daemon runs with keys that are what the configured texts encode. -/
def RunsWithKeys {ε : Type} (cfg : DaisywayConfig ε) (d : Daemon) : Prop :=
  (∀ text, pskText cfg = some text → text = encode d.protocolParams.psk.toList) ∧
  cfg.localPeerId = encode d.protocolParams.localPeerId.toList ∧
  cfg.remotePeerId = encode d.protocolParams.remotePeerId.toList

theorem not_short_encode (k : Key) : ¬ ShortEncoding (encode k.toList) := by
  rintro ⟨bs, he, hlt⟩
  rw [← encode_injective he] at hlt
  simp [keyLength] at hlt

/-- An accepted text encodes its key, unless it is short. -/
theorem encode_iff_of_accepted {decode : Base64Decode} (hd : StrictDecoder decode) {s : Bytes}
    {k : Key} (h : base64ToKey decode s = .ok k) : s = encode k.toList ↔ ¬ ShortEncoding s := by
  constructor
  · rintro rfl
    exact not_short_encode k
  · intro hs
    obtain ⟨bs, rfl, hle, rfl⟩ := (base64ToKey_ok hd).mp h
    have hlen : bs.length = keyLength := by
      by_contra hne
      exact hs ⟨bs, rfl, by omega⟩
    exact congrArg encode (toList_fill hlen).symm

theorem accepts_exactly_iff {decode : Base64Decode} (hd : StrictDecoder decode) (s : Bytes) :
    AcceptsExactly decode s ↔ ¬ ShortEncoding s := by
  constructor
  · rintro h ⟨bs, hs, hlt⟩
    -- the short text is accepted, so it would be the encoding of its key
    have hok : base64ToKey decode s = .ok (fill keyLength bs) :=
      (base64ToKey_ok hd).mpr ⟨bs, hs, by omega, rfl⟩
    exact (encode_iff_of_accepted hd hok).mp ((h _).mp hok) ⟨bs, hs, hlt⟩
  · intro hs k
    constructor
    · intro h
      exact (encode_iff_of_accepted hd h).mpr hs
    · rintro rfl
      exact base64ToKey_encode hd k

/-- **Where configured keys are what their texts encode.** A text is accepted exactly as the 32-byte
key it encodes if and only if it is not the encoding of fewer bytes; a daemon that was set up runs
with the encoded keys if and only if none of its configured texts is such an encoding. -/
theorem configured_keys_exact_iff (decode : Base64Decode) (hd : StrictDecoder decode) :
    (∀ s, AcceptsExactly decode s ↔ ¬ ShortEncoding s) ∧
    (∀ (ε : Type) (host : Host ε) (cfg : DaisywayConfig ε) (d : Daemon),
      (∀ reads, cfg.pskFile = some (.ok reads) → Fits keyLengthB64 reads) →
      fromConfig decode host cfg = .ok d →
        (RunsWithKeys cfg d ↔ ∀ s ∈ keyTexts cfg, ¬ ShortEncoding s)) := by
  refine ⟨accepts_exactly_iff hd, fun ε host cfg d hfit h => ?_⟩
  obtain ⟨hpsk, hlocal, hremote, -, -⟩ := fromConfig_ok hd hfit h
  unfold RunsWithKeys keyTexts
  rw [encode_iff_of_accepted hd hlocal, encode_iff_of_accepted hd hremote]
  have hpskIff : (∀ text, pskText cfg = some text →
      text = encode d.protocolParams.psk.toList) ↔
        ∀ s ∈ (pskText cfg).toList, ¬ ShortEncoding s := by
    rcases hpsk with ⟨hnone, -⟩ | ⟨text, hsome, hok⟩
    · simp [hnone]
    · simp [hsome, encode_iff_of_accepted hd hok]
  rw [hpskIff, List.forall_mem_append, List.forall_mem_cons, List.forall_mem_singleton]

/-! ### A sample configuration -/

/-- A server with a key file of which nothing can be read, and empty peer ids. -/
def emptyConfig : DaisywayConfig Unit where
  intervalSecs := none
  localPeerId := []
  remotePeerId := []
  interface := none
  outfile := some []
  participant := .server []
  pskFile := some (.ok [])

def sampleHost : Host Unit := ⟨.ok (), fun _ => .ok [], true⟩

/-- An empty text is accepted as the zero key, and a daemon starts with three of them. -/
theorem empty_text_accepted :
    ¬ AcceptsExactly Lib.Base64.decode [] ∧
      ∃ d, fromConfig Lib.Base64.decode sampleHost emptyConfig = .ok d ∧
        ¬ RunsWithKeys emptyConfig d := by
  refine ⟨fun h => ?_, ⟨⟨zeroed 32, zeroed 32, zeroed 32⟩, .outfile [], 150, 120, .server []⟩,
    by decide, fun h => ?_⟩
  · exact absurd ((h (zeroed 32)).mp (by decide)) (by decide)
  · exact absurd h.2.1 (by decide)

/-- The configuration with two peer ids of 32 bytes. -/
def sampleConfig : DaisywayConfig Unit :=
  { emptyConfig with
    localPeerId := encode (List.replicate 32 1)
    remotePeerId := encode (List.replicate 32 2)
    pskFile := none }

theorem configured_keys_exact_iff_sample :
    ¬ AcceptsExactly Lib.Base64.decode [] ∧
      ∃ d, fromConfig Lib.Base64.decode sampleHost sampleConfig = .ok d ∧
        RunsWithKeys sampleConfig d := by
  obtain ⟨htext, hrun⟩ := configured_keys_exact_iff Lib.Base64.decode Lib.Base64.decode_strict
  have hcfg : fromConfig Lib.Base64.decode sampleHost sampleConfig =
      .ok ⟨⟨zeroed 32, Vector.replicate 32 1, Vector.replicate 32 2⟩, .outfile [], 150, 120,
        .server []⟩ := by decide
  refine ⟨fun h => (htext []).mp h ⟨[], rfl, by decide⟩, _, hcfg, ?_⟩
  refine (hrun Unit sampleHost sampleConfig _ (fun _ hf => by cases hf) hcfg).mpr fun s hs => ?_
  rcases List.mem_cons.mp hs with rfl | hs
  · exact not_short_encode (Vector.replicate 32 1)
  · rw [List.mem_singleton.mp hs]
    exact not_short_encode (Vector.replicate 32 2)

end Daisyway.Setup
