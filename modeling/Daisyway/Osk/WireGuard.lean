import Daisyway.Osk.Deadman

/-! # The WireGuard handler

`WireGuardOskHandler` sets the pre-shared key of one peer of one interface: each of its calls is one
`set_device` with that peer, the key, and the flag `UpdateOnly`. The library for the control socket
and the kernel behind it are a parameter (`Kernel`), and what the handler relies on is `Lawful`.
Others may change the interfaces and peers of the host at any time, and nobody but the daemon sets
the key of this peer.

In every run of the worker with this handler the requests are those for the keys of the calls, and
the peer has the key of the last call unless that call has failed (`Installed`). -/

namespace Daisyway.Osk.WireGuard

open Daisyway.Prim Daisyway.Osk.Deadman

/-! ### The control socket -/

inductive WgPeerF where
  | updateOnly
  deriving DecidableEq

/-- A peer of a request. `from_public_key` asks for no change of a peer, and the handler adds
nothing but what stands here. -/
structure SetPeer where
  publicKey : Key
  flags : List WgPeerF
  presharedKey : Option Key
  deriving DecidableEq

/-- What `set_device` is called with. -/
structure SetDevice where
  ifname : Bytes
  peers : List SetPeer
  deriving DecidableEq

/-- The control socket and the kernel behind it; `δ` are the states of the devices of the host. -/
structure Kernel (δ : Type) where
  /-- `get_device`: the public keys of the peers of an interface. -/
  getPeers : δ → Bytes → Option (List Key)
  /-- The pre-shared key of a peer of an interface. -/
  presharedKey : δ → Bytes → Key → Option Key
  /-- `set_device`, with a result that is an error or not, can lead from one state to the other. -/
  setDevice : δ → SetDevice → Bool → δ → Bool

/-! ### The handler -/

structure WireGuardOskHandler where
  interface : Bytes
  peerId : Key
  deriving DecidableEq

/-- The request `set_osk_impl` makes. -/
def WireGuardOskHandler.request (h : WireGuardOskHandler) (key : Key) : SetDevice where
  ifname := h.interface
  peers := [⟨h.peerId, [.updateOnly], some key⟩]

/-- What the handler relies on. -/
structure Kernel.Lawful {δ : Type} (kernel : Kernel δ) : Prop where
  /-- A peer that `get_device` lists has a pre-shared key. -/
  listed : ∀ devices ifname peers peer, kernel.getPeers devices ifname = some peers → peer ∈ peers →
    (kernel.presharedKey devices ifname peer).isSome = true
  /-- A `set_device` that succeeds has set the pre-shared key of a peer that is there. -/
  updated : ∀ (h : WireGuardOskHandler) key before after,
    kernel.setDevice before (h.request key) true after = true →
    (kernel.presharedKey before h.interface h.peerId).isSome = true →
    kernel.presharedKey after h.interface h.peerId = some key

section Handler
variable {δ : Type}

/-- The devices of a host, and the requests the handler has made. -/
structure WireGuardHost (δ : Type) where
  devices : δ
  requests : List SetDevice
  deriving DecidableEq

def WireGuardHost.new (devices : δ) : WireGuardHost δ := ⟨devices, []⟩

inductive DeviceAct (δ : Type) where
  /-- A call of the handler, with what `set_device` returns and the devices after it. -/
  | setOsk (random : Key) (ok : Bool) (devices : δ)
  /-- Someone else changes the devices, but not the pre-shared key of the peer. -/
  | foreign (devices : δ)
  deriving DecidableEq

/-- One operation. The lock of the socket is the worker's own. -/
def WireGuardOskHandler.step (kernel : Kernel δ) (h : WireGuardOskHandler) (pc : WorkerPc)
    (host : WireGuardHost δ) : DeviceAct δ → Option (WireGuardHost δ × Option WorkerAct)
  | .setOsk random ok devices =>
    (pc.brokerCall random).bind fun call =>
      if kernel.setDevice host.devices (h.request call.key) ok devices = true then
        some (⟨devices, host.requests ++ [h.request call.key]⟩,
          some (.broker call.key (wireGuardSetOsk true ok)))
      else none
  | .foreign devices =>
    if kernel.presharedKey devices h.interface h.peerId =
        kernel.presharedKey host.devices h.interface h.peerId then
      some ({ host with devices }, none)
    else none

/-- The key of the peer after the calls. -/
def pskAfter (psk : Key) (calls : List SetOsk) : Key :=
  (calls.getLast?.map SetOsk.key).getD psk

theorem pskAfter_concat (psk : Key) (calls : List SetOsk) (call : SetOsk) :
    pskAfter psk (calls ++ [call]) = call.key := by
  unfold pskAfter
  rw [List.getLast?_concat]
  rfl

/-- The requests are those for the keys of the calls, and the peer has the key of the last call,
unless that call has failed. -/
structure Installed (kernel : Kernel δ) (h : WireGuardOskHandler) (psk : Key) (w : DeadmanWorker)
    (host : WireGuardHost δ) : Prop where
  requests : host.requests = w.calls.map fun call => h.request call.key
  key : w.pc ≠ .failed →
    kernel.presharedKey host.devices h.interface h.peerId = some (pskAfter psk w.calls)

variable {kernel : Kernel δ} {h : WireGuardOskHandler} {psk : Key} {t : Timing}
  {w w' : DeadmanWorker} {host host' : WireGuardHost δ}

theorem installed_new {devices : δ}
    (hpsk : kernel.presharedKey devices h.interface h.peerId = some psk) :
    Installed kernel h psk DeadmanWorker.new (.new devices) :=
  ⟨rfl, fun _ => hpsk⟩

theorem installed_worker {a : WorkerAct} (hi : Installed kernel h psk w host)
    (ha : ∀ random res, a ≠ .broker random res) (hs : w.step t a = some w') :
    Installed kernel h psk w' host := by
  have hpc : w.pc ≠ .failed := fun hf => by
    rw [step_of_stopped (by rw [hf]; rfl)] at hs
    cases hs
  have hcalls := (step_between hs ha).1
  exact ⟨hcalls ▸ hi.requests, fun _ => hcalls ▸ hi.key hpc⟩

theorem installed_operation {a : DeviceAct δ} (hi : Installed kernel h psk w host)
    (hs : h.step kernel w.pc host a = some (host', none)) : Installed kernel h psk w host' := by
  cases a with
  | setOsk random ok devices =>
    obtain ⟨call, -, hs⟩ := Option.bind_eq_some_iff.mp hs
    split_ifs at hs
    cases hs
  | foreign devices =>
    simp only [WireGuardOskHandler.step] at hs
    split_ifs at hs with hsame
    cases hs
    exact ⟨hi.requests, fun hpc => hsame.trans (hi.key hpc)⟩

theorem installed_ends (hk : kernel.Lawful) {a : DeviceAct δ} {ended : WorkerAct}
    (hi : Installed kernel h psk w host)
    (hs : h.step kernel w.pc host a = some (host', some ended)) (hw : w.step t ended = some w') :
    Installed kernel h psk w' host' := by
  cases a with
  | foreign devices =>
    simp only [WireGuardOskHandler.step] at hs
    split_ifs at hs
    cases hs
  | setOsk random ok devices =>
    obtain ⟨call, hb, hs⟩ := Option.bind_eq_some_iff.mp hs
    split_ifs at hs with hset
    cases hs
    obtain rfl := broker_step_eq (brokerCall_key hb) hw
    have hlast := hi.key fun hf => by
      rw [hf] at hb
      cases hb
    refine ⟨?_, fun hpc => ?_⟩
    · rw [hi.requests, List.map_append]
      rfl
    · cases ok with
      | true =>
        rw [pskAfter_concat]
        exact hk.updated h call.key _ _ hset (by rw [hlast]; rfl)
      | false => exact absurd rfl hpc

end Handler

end Daisyway.Osk.WireGuard
