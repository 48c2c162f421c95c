import Daisyway.Net.Brokers
import Daisyway.Net.Convergence
import Daisyway.Osk.WireGuard
import Daisyway.Setup

/-! # From two configurations to one pre-shared key

Two daemons are set up from configurations that name the same two peers the other way round and the
same PSK, and inject their keys into WireGuard. Then they run with mirrored parameters
(`mirrored_of_configs`), each asks its kernel for nothing but new keys of the remote peer, and where
nothing is on its way between the ends the two peers have the same pre-shared key, as long as
neither has erased it (`psks_agree`). -/

namespace Daisyway.Net.WireGuard

open Daisyway.Prim Daisyway.Crypto.Basics Daisyway.Crypto.Kdf Daisyway.Crypto.Protocol
open Daisyway.Crypto.Lockstep Daisyway.Lib.Run Daisyway.Osk.Deadman Daisyway.Osk.WireGuard
open Daisyway.Util.ReadExt Daisyway.Util.Keys Daisyway.Setup
open Daisyway.Net.Manager Daisyway.Net.Server Daisyway.Net.EndToEnd Daisyway.Net.Deployment
open Daisyway.Net.Convergence Daisyway.Net.Brokers
open Daisyway.Etsi014 (Base64Decode)
open Daisyway.Lib.Base64 (StrictDecoder encode)

/-- The configurations of the two ends of one tunnel. -/
structure MirroredConfigs {ε : Type} (server client : DaisywayConfig ε) : Prop where
  psk : pskText server = pskText client
  peer : server.localPeerId = client.remotePeerId
  peer' : server.remotePeerId = client.localPeerId

/-- A daemon that was set up from a configuration, on a host with these devices. -/
structure SetUp {ε δ : Type} (decode : Base64Decode) (kernel : Kernel δ) (cfg : DaisywayConfig ε)
    (devices : δ) (d : Daemon) (h : WireGuardOskHandler) : Prop where
  reads : ∀ reads, cfg.pskFile = some (.ok reads) → Fits keyLengthB64 reads
  fromConfig : ∃ host : Host ε, fromConfig decode host cfg = .ok d ∧
    ∀ ifname peers, host.wireGuardPeers ifname = .ok peers →
      kernel.getPeers devices ifname = some peers
  target : d.target = .wireGuard h.interface h.peerId

section
variable {ε δ δ' : Type} {decode : Base64Decode} {kernel : Kernel δ} {kernel' : Kernel δ'}
  {cfg cfg' : DaisywayConfig ε} {devices : δ} {devices' : δ'} {d d' : Daemon}
  {h h' : WireGuardOskHandler}

/-- Mirrored configurations give mirrored parameters. -/
theorem mirrored_of_configs (hd : StrictDecoder decode) (hm : MirroredConfigs cfg cfg')
    (hs : SetUp decode kernel cfg devices d h) (hs' : SetUp decode kernel' cfg' devices' d' h') :
    Mirrored d.protocolParams d'.protocolParams := by
  obtain ⟨host, hfrom, -⟩ := hs.fromConfig
  obtain ⟨host', hfrom', -⟩ := hs'.fromConfig
  obtain ⟨hpsk, hlocal, hremote, -, -⟩ := fromConfig_ok hd hs.reads hfrom
  obtain ⟨hpsk', hlocal', hremote', -, -⟩ := fromConfig_ok hd hs'.reads hfrom'
  rw [hm.psk] at hpsk
  rw [hm.peer] at hlocal
  rw [hm.peer'] at hremote
  refine ⟨?_, Except.ok.inj (hlocal.symm.trans hremote'),
    Except.ok.inj (hremote.symm.trans hlocal')⟩
  rcases hpsk with ⟨hnone, hzero⟩ | ⟨text, htext, hkey⟩
  · rcases hpsk' with ⟨-, hzero'⟩ | ⟨text, htext, -⟩
    · exact hzero.trans hzero'.symm
    · rw [hnone] at htext
      cases htext
  · rcases hpsk' with ⟨hnone, -⟩ | ⟨text', htext', hkey'⟩
    · rw [hnone] at htext
      cases htext
    · obtain rfl := Option.some.inj (htext.symm.trans htext')
      exact Except.ok.inj (hkey.symm.trans hkey')

/-- The target of the handler is the remote peer of the protocol, and the interface has it. -/
theorem SetUp.peer (hd : StrictDecoder decode) (hk : kernel.Lawful)
    (hs : SetUp decode kernel cfg devices d h) :
    h.peerId = d.protocolParams.remotePeerId ∧
      ∃ psk, kernel.presharedKey devices h.interface h.peerId = some psk := by
  obtain ⟨host, hfrom, hpeers⟩ := hs.fromConfig
  have htarget := fromConfig_target hfrom
  rw [hs.target] at htarget
  obtain ⟨hkey, peers, hlist, hmem⟩ := oskTarget_wireGuard htarget
  obtain ⟨-, -, hremote, -, -⟩ := fromConfig_ok hd hs.reads hfrom
  refine ⟨Except.ok.inj (hkey.symm.trans hremote), ?_⟩
  exact Option.isSome_iff_exists.mp (hk.listed _ _ _ _ (hpeers _ _ hlist) hmem)

end

/-- A worker and its handler keep the key of the last call installed. -/
theorem keeps_installed {δ : Type} {kernel : Kernel δ} (hk : kernel.Lawful) (t : Timing)
    (h : WireGuardOskHandler) (psk : Key) :
    Keeps t (h.step kernel) (Installed kernel h psk) where
  worker hi ha hs := installed_worker hi ha hs
  operation hi hs := installed_operation hi hs
  ends hi hs hw := installed_ends hk hi hs hw

/-- The last call was for a fresh key. -/
def LastFresh (calls : List SetOsk) : Prop :=
  ∃ call, calls.getLast? = some call ∧ call.reason = .fresh

/-- A peer whose last call was for a fresh key has the last fresh key. -/
theorem fresh_installed {δ : Type} {kernel : Kernel δ} {h : WireGuardOskHandler} {psk key : Key}
    {w : DeadmanWorker} {host : WireGuardHost δ} (hi : Installed kernel h psk w host)
    (hpc : w.pc ≠ .failed) (hkey : (freshCalls w.calls).getLast? = some (setFreshOsk key))
    (hlast : LastFresh w.calls) :
    kernel.presharedKey host.devices h.interface h.peerId = some key := by
  obtain ⟨call, hcall, hfresh⟩ := hlast
  obtain rfl := last_eq_of_fresh hcall hfresh hkey
  rw [hi.key hpc]
  unfold pskAfter
  rw [hcall]
  rfl

/-- The deployment of two daemons. -/
def configOf (ext : Externals) (kme : Kme) (server client : Daemon) : Config :=
  ⟨ext, kme, server.protocolParams, client.protocolParams⟩

/-- The timing of their deadmen; the last instants are those of the clocks of the two hosts. -/
def timingsOf (server client : Daemon) (lastInstant lastInstant' : ℕ) : Timings :=
  ⟨⟨server.eraseAfter, lastInstant⟩, ⟨client.eraseAfter, lastInstant'⟩⟩

section Runs
variable {ε δ δ' : Type} {decode : Base64Decode} {kernel : Kernel δ} {kernel' : Kernel δ'}
  {server client : DaisywayConfig ε} {devices : δ} {devices' : δ'} {d d' : Daemon}
  {h h' : WireGuardOskHandler} {ext : Externals} {kme : Kme} {lastInstant lastInstant' : ℕ}
  {s : Hosts (WireGuardHost δ) (WireGuardHost δ')}
  {acts : List (Hosts.Act (DeviceAct δ) (DeviceAct δ'))}

/-- **From two configurations to one pre-shared key.** Two daemons are set up from mirrored
configurations, on hosts with any WireGuard devices and kernels that do what they are asked for. In
every run with fewer than `2 ^ 64` connections and consistent KMEs, whatever the network and other
hosts do and whatever else others change on the devices: the daemons have asked their kernels for
nothing but the keys of their calls as pre-shared keys of the configured remote peer; and in every
state in which nothing is on its way between the ends, where the last call of an end was for a fresh
key and has not failed, its peer has the last key of the active connection. -/
theorem psks_agree (hd : StrictDecoder decode) (hkernel : kernel.Lawful) (hkernel' : kernel'.Lawful)
    (hm : MirroredConfigs server client) (hs : SetUp decode kernel server devices d h)
    (hs' : SetUp decode kernel' client devices' d' h') (hk : (configOf ext kme d d').Consistent)
    (hrun : run (Hosts.step (configOf ext kme d d') (timingsOf d d' lastInstant lastInstant')
      (h.step kernel) (h'.step kernel')) (.new (.new devices) (.new devices')) acts = some s) :
    (s.server.requests = s.network.deadman.worker.calls.map fun call =>
      ⟨h.interface, [⟨d.protocolParams.remotePeerId, [.updateOnly], some call.key⟩]⟩) ∧
    (s.client.requests = s.network.clientDeadman.worker.calls.map fun call =>
      ⟨h'.interface, [⟨d'.protocolParams.remotePeerId, [.updateOnly], some call.key⟩]⟩) ∧
    ∀ i task front conn, Settled s.network i task front conn →
      s.network.server.tasks.length < connectionIds →
      ∃ key, task.proto.keys.getLast? = some key ∧
        (LastFresh s.network.deadman.worker.calls → s.network.deadman.worker.pc ≠ .failed →
          kernel.presharedKey s.server.devices h.interface d.protocolParams.remotePeerId =
            some key) ∧
        (LastFresh s.network.clientDeadman.worker.calls →
          kernel'.presharedKey s.client.devices h'.interface d'.protocolParams.remotePeerId =
            some key) := by
  obtain ⟨acts', hnet⟩ := run_network hrun
  obtain ⟨hpeer, psk, hpsk⟩ := hs.peer hd hkernel
  obtain ⟨hpeer', psk', hpsk'⟩ := hs'.peer hd hkernel'
  obtain ⟨hserver, hclient⟩ := run_ends
    (keeps_installed hkernel (timingsOf d d' lastInstant lastInstant').server h psk)
    (keeps_installed hkernel' (timingsOf d d' lastInstant lastInstant').client h' psk')
    (installed_new hpsk) (installed_new hpsk') hrun
  have hinv := run_networkInv hnet
  have hmirrored : Mirrored (configOf ext kme d d').server (configOf ext kme d d').client :=
    mirrored_of_configs hd hm hs hs'
  rw [← hpeer, ← hpeer']
  refine ⟨hserver.requests, hclient.requests, fun i task front conn hset hlt => ?_⟩
  obtain ⟨key, hkey⟩ := Option.ne_none_iff_exists'.mp fun hnone =>
    hset.negotiated (List.getLast?_eq_none_iff.mp hnone)
  refine ⟨key, hkey, fun hlast hpc => ?_, fun hlast => ?_⟩
  · exact fresh_installed hserver hpc (getLast?_of_suffix (server_settled hinv hset hlt) hkey) hlast
  · refine fresh_installed hclient (fun hfailed => ?_)
      (getLast?_of_suffix (client_settled hinv hset hmirrored hk) hkey) hlast
    have hrunning := hset.clientRunning
    rw [hfailed] at hrunning
    cases hrunning

end Runs

/-! ### A sample run -/

/-- The configuration of an end of the tunnel between the peers `2` and `3`. -/
def sampleWgConfig (own other : UInt8) (participant : ParticipantConfig) : DaisywayConfig Unit where
  intervalSecs := none
  localPeerId := encode (List.replicate 32 own)
  remotePeerId := encode (List.replicate 32 other)
  interface := some [119, 103]
  outfile := none
  participant := participant
  pskFile := none

/-- A table of pre-shared keys, by interface and peer. -/
abbrev PskTable : Type := List (Bytes × Key × Key)

/-- The table with the pre-shared key of the peer replaced. A peer that is not there is not added.
-/
def PskTable.update (table : PskTable) (ifname : Bytes) (peer : SetPeer) : PskTable :=
  table.map fun e =>
    if e.1 = ifname ∧ e.2.1 = peer.publicKey then (e.1, e.2.1, peer.presharedKey.getD e.2.2) else e

/-- A kernel that applies a request with `UpdateOnly` as a whole, or reports an error. -/
def tableKernel : Kernel PskTable where
  getPeers table ifname := some ((table.filter fun e => e.1 = ifname).map fun e => e.2.1)
  presharedKey table ifname peer :=
    (table.find? fun e => e.1 = ifname ∧ e.2.1 = peer).map fun e => e.2.2
  setDevice before request ok after :=
    if ok then
      after = request.peers.foldl (fun table peer => table.update request.ifname peer) before
    else after = before

theorem tableKernel_lawful : tableKernel.Lawful where
  listed := by
    intro table ifname peers peer hpeers hmem
    obtain rfl := Option.some.inj hpeers
    obtain ⟨e, he, rfl⟩ := List.mem_map.mp hmem
    obtain ⟨hmem, hname⟩ := List.mem_filter.mp he
    simp only [tableKernel, Option.isSome_map, List.find?_isSome]
    exact ⟨e, hmem, decide_eq_true ⟨of_decide_eq_true hname, rfl⟩⟩
  updated := by
    intro h key before after hset hsome
    obtain rfl : after = PskTable.update before h.interface ⟨h.peerId, [.updateOnly], some key⟩ :=
      of_decide_eq_true hset
    obtain ⟨e, he⟩ := Option.isSome_iff_exists.mp (Option.isSome_map.symm.trans hsome)
    have hfound : e.1 = h.interface ∧ e.2.1 = h.peerId := by simpa using List.find?_some he
    simp only [tableKernel, PskTable.update, List.find?_map, Option.map_map]
    have hsame : ((fun e : Bytes × Key × Key => decide (e.1 = h.interface ∧ e.2.1 = h.peerId)) ∘
        fun e => if e.1 = h.interface ∧ e.2.1 = h.peerId then (e.1, e.2.1, key) else e) =
          fun e => decide (e.1 = h.interface ∧ e.2.1 = h.peerId) := by
      funext e
      by_cases hc : e.1 = h.interface ∧ e.2.1 = h.peerId
      · simp [hc]
      · simp only [Function.comp_apply, if_neg hc]
    simp only [Option.getD_some, hsame]
    rw [he]
    simp [hfound]

def sampleDevices (other : UInt8) : PskTable :=
  [([119, 103], Vector.replicate 32 9, zeroed 32),
    ([119, 103], Vector.replicate 32 other, zeroed 32)]

def sampleHost (other : UInt8) : Host Unit where
  etsiClient := .ok ()
  wireGuardPeers ifname :=
    if ifname = [119, 103] then .ok [Vector.replicate 32 9, Vector.replicate 32 other]
    else .error ()
  overflowChecks := true

def sampleDaemon (own other : UInt8) (participant : ParticipantConfig) : Daemon :=
  ⟨⟨zeroed 32, Vector.replicate 32 own, Vector.replicate 32 other⟩,
    .wireGuard [119, 103] (Vector.replicate 32 other), 150, 120, participant⟩

def sampleHandler (other : UInt8) : WireGuardOskHandler := ⟨[119, 103], Vector.replicate 32 other⟩

theorem sample_mirrored (own other : UInt8) (participant participant' : ParticipantConfig) :
    MirroredConfigs (sampleWgConfig own other participant)
      (sampleWgConfig other own participant') := by
  constructor <;> simp only [pskText, sampleWgConfig]

theorem sample_setUp {own other : UInt8} {participant : ParticipantConfig}
    (h : fromConfig Lib.Base64.decode (sampleHost other) (sampleWgConfig own other participant) =
      .ok (sampleDaemon own other participant)) :
    SetUp Lib.Base64.decode tableKernel (sampleWgConfig own other participant) (sampleDevices other)
      (sampleDaemon own other participant) (sampleHandler other) := by
  refine ⟨fun reads hreads => (nomatch hreads),
    ⟨sampleHost other, h, fun ifname peers hpeers => ?_⟩, rfl⟩
  simp only [sampleHost] at hpeers
  split_ifs at hpeers with hname
  obtain rfl := Except.ok.inj hpeers
  subst hname
  rfl

/-- The devices of the server after a peer of another interface was added. -/
def sampleDevicesAdded : PskTable :=
  sampleDevices 3 ++ [([120], Vector.replicate 32 4, zeroed 32)]

/-- The actions of the deployment, with the calls of the handlers for the keys the workers have
received last. -/
def onDevices (key key' : Key) :
    List Network.Act → List (Hosts.Act (DeviceAct PskTable) (DeviceAct PskTable))
  | [] => []
  | .worker (.broker random _) :: acts =>
    .server (.setOsk random true (sampleDevicesAdded.update [119, 103]
      ⟨Vector.replicate 32 3, [.updateOnly], some key⟩)) :: onDevices key key' acts
  | .clientWorker (.broker random _) :: acts =>
    .client (.setOsk random true ((sampleDevices 2).update [119, 103]
      ⟨Vector.replicate 32 2, [.updateOnly], some key'⟩)) :: onDevices key key' acts
  | .worker (.received (.setOsk k r)) :: acts =>
    .network (.worker (.received (.setOsk k r))) :: onDevices k key' acts
  | .clientWorker (.received (.setOsk k r)) :: acts =>
    .network (.clientWorker (.received (.setOsk k r))) :: onDevices key k acts
  | a :: acts => .network a :: onDevices key key' acts

/-- The sample run of `Convergence`, after another peer was added on the host of the server. -/
def samplePsks : List (Hosts.Act (DeviceAct PskTable) (DeviceAct PskTable)) :=
  .server (.foreign sampleDevicesAdded) :: onDevices (zeroed 32) (zeroed 32) sampleConvergence

/-- The two daemons of the sample. -/
def sampleDaemons : Daemon × Daemon :=
  (sampleDaemon 2 3 (.server []), sampleDaemon 3 2 (.client []))

/-- Their deployment, with the KMEs of the samples. -/
def sampleTunnel : Config :=
  configOf sampleExternals (sampleConfig (sampleKey 1) (sampleKey 1)).kme sampleDaemons.1
    sampleDaemons.2

def sampleTunnelTimings : Timings :=
  timingsOf sampleDaemons.1 sampleDaemons.2 (2 ^ 63 - 1) (2 ^ 63 - 1)

theorem psks_agree_sample :
    ∃ s key, run (Hosts.step sampleTunnel sampleTunnelTimings ((sampleHandler 3).step tableKernel)
        ((sampleHandler 2).step tableKernel))
        (.new (.new (sampleDevices 3)) (.new (sampleDevices 2))) samplePsks = some s ∧
      tableKernel.presharedKey s.server.devices [119, 103] (Vector.replicate 32 3) = some key ∧
      tableKernel.presharedKey s.client.devices [119, 103] (Vector.replicate 32 2) = some key := by
  have h : (run (Hosts.step sampleTunnel sampleTunnelTimings ((sampleHandler 3).step tableKernel)
      ((sampleHandler 2).step tableKernel))
      (.new (.new (sampleDevices 3)) (.new (sampleDevices 2))) samplePsks).any (fun s => decide (
        SampleEnd s.network ∧ s.network.deadman.worker.pc ≠ .failed ∧
        (s.network.deadman.worker.calls.getLast?.map SetOsk.reason) = some .fresh ∧
        (s.network.clientDeadman.worker.calls.getLast?.map SetOsk.reason) = some .fresh)) =
      true := by
    decide +kernel
  obtain ⟨s, hrun, he⟩ := (Option.any_eq_true _ _).mp h
  obtain ⟨hend, hpc, hlast, hlast'⟩ := of_decide_eq_true he
  obtain ⟨task, conn, hsettled, hlt⟩ := hend.settled
  have hserver : SetUp Lib.Base64.decode tableKernel (sampleWgConfig 2 3 (.server []))
      (sampleDevices 3) sampleDaemons.1 (sampleHandler 3) := sample_setUp (by decide +kernel)
  have hclient : SetUp Lib.Base64.decode tableKernel (sampleWgConfig 3 2 (.client []))
      (sampleDevices 2) sampleDaemons.2 (sampleHandler 2) := sample_setUp (by decide +kernel)
  have hk : sampleTunnel.Consistent := sampleConfig_consistent (sampleKey 1)
  obtain ⟨-, -, hagree⟩ := psks_agree Lib.Base64.decode_strict tableKernel_lawful tableKernel_lawful
    (sample_mirrored 2 3 (.server []) (.client [])) hserver hclient hk hrun
  obtain ⟨key, -, hkey, hkey'⟩ := hagree _ _ _ _ hsettled hlt
  exact ⟨s, key, hrun, hkey (Option.map_eq_some_iff.mp hlast) hpc,
    hkey' (Option.map_eq_some_iff.mp hlast')⟩

end Daisyway.Net.WireGuard
