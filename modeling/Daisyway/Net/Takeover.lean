import Daisyway.Net.Availability
import Daisyway.Net.Recovery

/-! # Taking over the server

The server does not know its peer: it serves every host that connects, and a byte is all it asks for
before it installs the key of a connection. The newest connection with a key is the active one, and
the tasks of all older ones are asked to stop (`superseded_stopped`).

So from every state a deployment can reach, any host can take the server over: without the client
taking a step, and with that one byte, the server installs a key for a connection of that host and
drops every connection of the client. The client can come back from there in the same way
(`Recovery`), and so can the host. -/

namespace Daisyway.Net.Takeover

open Daisyway.Prim Daisyway.Etsi014 Daisyway.Crypto.Basics Daisyway.Crypto.Kdf
open Daisyway.Crypto.Protocol Daisyway.Crypto.Lockstep Daisyway.Lib.Run Daisyway.Lib.Maps
open Daisyway.Lib.Reach Daisyway.Osk.Deadman
open Daisyway.Net.Manager Daisyway.Net.Handles Daisyway.Net.Server Daisyway.Net.Zombies
open Daisyway.Net.Isolation Daisyway.Net.Delivery Daisyway.Net.Aborts Daisyway.Net.Availability
open Daisyway.Net.Deployment Daisyway.Net.Convergence Daisyway.Net.Recovery

/-! ### Older connections -/

/-- A handle the manager holds is that of a tracked connection. -/
theorem entry_of_mem_handles {m : ConnectionManager} {handle : AbortOnDropHandle}
    (h : handle ∈ handles m) : ∃ id, Entry m id handle := by
  rcases List.mem_append.mp h with h | h
  · unfold activeHandles at h
    rw [Option.mem_toList] at h
    obtain ⟨⟨id, _⟩, ha, rfl⟩ := Option.map_eq_some_iff.mp h
    exact ⟨id, Or.inl ha⟩
  · obtain ⟨⟨id, _⟩, hb, rfl⟩ := List.mem_map.mp h
    exact ⟨id, Or.inr hb⟩

/-- **The tasks of connections before the active one are asked to stop**, once the call for the key
of the active one has been passed on. -/
theorem superseded_stopped {E : Externals} {params : DaisywayProtocolParameters}
    {acts : List TcpServer.Act} {s : TcpServer}
    (hrun : run (TcpServer.step E params) TcpServer.new acts = some s)
    (hlt : s.tasks.length < connectionIds) (hended : s.ended = none) (hsending : s.sending = none)
    {i j : StreamId} (ha : s.manager.activeConnectionId = some i) {task : Task}
    (ht : s.tasks[j]? = some task) (hji : j < i) : task.abortRequested = true := by
  obtain ⟨hr, hd⟩ := run_delivers hrun hlt
  obtain ⟨-, hm⟩ := hr.inv hended hlt
  have howned : Owned s := run_invariant step_owned owned_new hrun
  refine ((run_held hrun).1.stopped j task ht).mpr fun hheld => ?_
  obtain ⟨handle, hmem, hstream⟩ := List.mem_map.mp hheld
  have hnone : s.removed = [] := by
    unfold TcpServer.removed
    rw [hsending]
  unfold heldHandles at hmem
  rw [hnone, List.append_nil] at hmem
  obtain ⟨id, hentry⟩ := entry_of_mem_handles hmem
  obtain ⟨u, hu, hid⟩ := howned id handle hentry
  have hidj : id = j := by rw [← hid, hd.ids _ u hu, hstream]
  -- the connection would be the active one or a newer one
  rcases hentry with hactive | hbudding
  · have hi : some id = some i := by
      rw [← ha]
      unfold ConnectionManager.activeConnectionId
      rw [hactive]
      rfl
    rw [← Option.some.inj hi, hidj] at hji
    exact lt_irrefl j hji
  · have hgt := hm.budding_gt_active id (OrdMap.mem_keys.mpr ⟨handle, hbudding⟩) i ha
    rw [hidj] at hgt
    exact lt_asymm hji hgt

/-! ### A round with another host -/

section Round
variable {cfg : Config} {t : Timings} {w : Network} {n : StreamId}

/-- The protocol of the task of the stream `n` has come to `p`. -/
def withProto (w : Network) (n : StreamId) (p : ServerProtocol) : Network :=
  { w with server := { w.server with tasks := w.server.tasks.set n ((Task.new n).afterStep p) } }

/-- The task takes a step; what the other host reads and sends is its own choice. -/
theorem step_withProto (hqueue : w.server.queue = []) (hn : n < w.server.tasks.length)
    (hstream : w.streams[n]? = some none) {p p' : ServerProtocol} {a : ServerProtocol.Act}
    (hk : cfg.kme.allowsServer a = true) (ha : isOskSet a = false)
    (hp : p.step cfg.ext cfg.server a = some p') :
    Network.step cfg t (withProto w n p) (.server (.task n (.proto a))) =
      some (withProto w n p') := by
  have hphase : ((Task.new n).afterStep p).phase = .running := phase_of_step hp
  have htask : ((Task.new n).afterStep p).step cfg.ext cfg.server w.server.ended.isSome
      (.proto a) = some ((Task.new n).afterStep p', []) := by
    have hproto : ((Task.new n).afterStep p).proto = p := rfl
    simp only [Task.step, hphase, hproto, hp, Option.map_some]
    rw [if_pos ⟨trivial, ha⟩]
    rfl
  have hget : (w.server.tasks.set n ((Task.new n).afterStep p))[n]? =
      some ((Task.new n).afterStep p) := List.getElem?_set_self hn
  simp only [Network.step, Network.serverStep, withProto, hk, if_true, hget, Option.bind_some,
    hstream, Network.streamIo, TcpServer.step, htask, hqueue, List.length_nil, Nat.add_zero,
    Nat.zero_le, List.append_nil, List.set_set, Option.map_some]

theorem withProto_new (h : Served w n none) : withProto w n ServerProtocol.new = w := by
  obtain ⟨hlt, hget⟩ := List.getElem?_eq_some_iff.mp h.task
  have hnew : (Task.new n).afterStep ServerProtocol.new = w.server.tasks[n] := hget.symm
  unfold withProto
  rw [hnew, List.set_getElem_self]

/-- The actions of a round with another host. -/
def hostActs (n : StreamId) (answer : KmeAnswer) (nonce : Nonce) : List Network.Act :=
  [.server (.task n (.proto (.fetched answer nonce))),
    .server (.task n (.proto (.wrote RekeyReq.size))),
    .server (.task n (.proto (.read rekeyAck.dummyData)))]

/-- **A byte is enough**: the server fetches a key, the host takes the request and acknowledges it.
-/
theorem run_acknowledged (t : Timings) (h : Served w n none) {answer : KmeAnswer}
    {qkd : Etsi014Key} (hk : cfg.kme.any answer = true)
    (hf : fetchKeyInternal cfg.ext.base64Decode answer = .ok qkd) (nonce : Nonce) :
    ∃ p, run (Network.step cfg t) w (hostActs n answer nonce) = some (withProto w n p) ∧
      p.pc = .setOsk (deriveDaisywayKey cfg.ext.shake256 cfg.server nonce qkd) := by
  have hn : n < w.server.tasks.length := by
    rw [h.last]
    exact Nat.lt_succ_self n
  let r : Round := ⟨RekeyReq.new qkd.id.asBytes nonce, qkd⟩
  let server (pc : ServerPc) : ServerProtocol := ⟨pc, [], [], []⟩
  have hack : (RekeyAck.mk rekeyAck.dummyData).validate = .ok () := RekeyAck.validate_ok_iff.mpr rfl
  have h1 : ServerProtocol.new.step cfg.ext cfg.server (.fetched answer nonce) =
      some (server (.write r r.req.asBytes)) := by
    simp [ServerProtocol.step, ServerProtocol.new, hf, r, server]
  have h2 : (server (.write r r.req.asBytes)).step cfg.ext cfg.server (.wrote RekeyReq.size) =
      some (server (.readAck r)) := by
    have hsize : 0 < RekeyReq.size := by decide
    simp [ServerProtocol.step, hsize, server]
  have h3 : (server (.readAck r)).step cfg.ext cfg.server (.read rekeyAck.dummyData) =
      some ((server (.readAck r)).complete cfg.ext cfg.server r) := by
    simp [ServerProtocol.step, hack, server]
  refine ⟨(server (.readAck r)).complete cfg.ext cfg.server r, ?_, rfl⟩
  have hrun : run (Network.step cfg t) (withProto w n ServerProtocol.new)
      (hostActs n answer nonce) =
        some (withProto w n ((server (.readAck r)).complete cfg.ext cfg.server r)) :=
    run_cons_some.mpr ⟨_, step_withProto h.queue hn h.stream (by exact hk) rfl h1,
      run_cons_some.mpr ⟨_, step_withProto h.queue hn h.stream rfl rfl h2,
        run_cons_some.mpr ⟨_, step_withProto h.queue hn h.stream rfl rfl h3, rfl⟩⟩⟩
  rwa [withProto_new h] at hrun

/-- The bytes the task of the stream has read. -/
def bytesRead (i : StreamId) (acts : List Network.Act) : Bytes :=
  acts.flatMap fun
    | .server (.task j (.proto a)) => if j = i then ServerProtocol.taken a else []
    | _ => []

theorem bytesRead_append (i : StreamId) (acts acts' : List Network.Act) :
    bytesRead i (acts ++ acts') = bytesRead i acts ++ bytesRead i acts' := List.flatMap_append

theorem bytesRead_silent {now : ℕ} {acts : List Network.Act}
    (h : ∀ a ∈ acts, silent now a = true) (i : StreamId) : bytesRead i acts = [] := by
  refine List.flatMap_eq_nil_iff.mpr fun a ha => ?_
  split
  · cases h _ ha
  · rfl

theorem shows_hostActs {now : ℕ} {answer : KmeAnswer} {nonce : Nonce} {a : Network.Act}
    (h : a ∈ hostActs n answer nonce) : shows now a = true := by
  simp only [hostActs, List.mem_cons, List.not_mem_nil, or_false] at h
  rcases h with rfl | rfl | rfl <;> rfl

theorem bytesRead_hostActs (n : StreamId) (answer : KmeAnswer) (nonce : Nonce) :
    bytesRead n (hostActs n answer nonce) = [rekeyAck.dummyData] := by
  simp [bytesRead, hostActs, ServerProtocol.taken]

end Round

/-! ### Every reachable state -/

section Main
variable {cfg : Config} {t : Timings} {now : ℕ} {w : Network}

/-- **A host is served.** -/
theorem reaches_intruded (ht : InRange t now) (hinv : NetworkInv cfg w) (h : Alive w)
    (hlt : w.server.tasks.length + w.backlog.length + 1 < connectionIds) :
    ∃ w' n, Reaches (Network.step cfg t) (silent now) w w' ∧ Served w' n none ∧
      w.server.tasks.length ≤ n ∧ ClientSame w w' ∧ NetworkInv cfg w' ∧
      w'.server.tasks.length < connectionIds := by
  obtain ⟨w1, h1, hquiet, honly, hqueue⟩ := reaches_noticed cfg ht h
  have hintrude : Network.step cfg t w1 .intrude =
      some { w1 with backlog := w1.backlog ++ [none] } := rfl
  have hpending : Pending { w1 with backlog := w1.backlog ++ [none] } none w1.backlog :=
    ⟨⟨⟨hquiet.running, hquiet.worker, hquiet.clientWorker, hquiet.client⟩, hquiet.sending,
      hquiet.waiting⟩, hqueue, rfl⟩
  obtain ⟨w2, h2, hturn, hsame2, hlen2⟩ := reaches_turn cfg t now hpending
  have hreach2 := h1.trans (Reaches.head rfl hintrude h2)
  have hinv2 : NetworkInv cfg w2 := hreach2.invariant step_networkInv hinv
  have hlen : w2.server.tasks.length = w.server.tasks.length + w.backlog.length := by
    rw [hlen2, honly.backlog]
    exact congrArg (· + _) honly.tasks
  obtain ⟨w3, h3, hserved, hsame3⟩ :=
    reaches_served (t := t) hinv2 hturn (by rw [hlen]; omega)
  have hsame : ClientSame w w2 := honly.clientSame.trans
    ⟨hsame2.conns, hsame2.clientKeys, hsame2.clientDeadman⟩
  refine ⟨w3, _, hreach2.trans h3, hserved, hlen ▸ Nat.le_add_right _ _, hsame.trans hsame3,
    h3.invariant step_networkInv hinv2, ?_⟩
  rw [hserved.last, hlen]
  exact hlt

/-- **Anyone can take the server over.** From every state a deployment can reach in which its
processes run, for every key the KME of the server can give out, and for every instant `now` at
which a deadline can be computed: a run in which the clocks show `now` leads to a state in which the
broker of the server was last given the key of a new connection of another host, from which the
server has read the byte of an acknowledgement and nothing else, every other connection is asked to
stop, and nothing of the client has changed. -/
theorem displaceable (now : ℕ) (ht : InRange t now) {answer : KmeAnswer} {qkd : Etsi014Key}
    (hk : cfg.kme.any answer = true) (hf : fetchKeyInternal cfg.ext.base64Decode answer = .ok qkd)
    (nonce : Nonce) {acts : List Network.Act}
    (hrun : run (Network.step cfg t) Network.new acts = some w) (hended : w.server.ended = none)
    (hworker : w.deadman.worker.pc.stopped = false)
    (hclient : w.clientDeadman.worker.pc.stopped = false) (hpanic : w.clientPanicked = false)
    (hlt : w.server.tasks.length + w.backlog.length + 1 < connectionIds) :
    ∃ more w' i, (∀ a ∈ more, shows now a = true) ∧ run (Network.step cfg t) w more = some w' ∧
      ClientSame w w' ∧ w.server.tasks.length ≤ i ∧ w'.streams[i]? = some none ∧
      bytesRead i more = [rekeyAck.dummyData] ∧
      w'.server.manager.activeConnectionId = some i ∧
      w'.deadman.worker.calls.getLast? =
        some (setFreshOsk (deriveDaisywayKey cfg.ext.shake256 cfg.server nonce qkd)) ∧
      ∀ j task, w'.server.tasks[j]? = some task → j ≠ i → task.abortRequested = true := by
  have halive := alive_of_running (run_invariant step_closing closing_new hrun) hended hworker
    hclient hpanic
  obtain ⟨w1, n, ⟨acts1, hsilent1, h1⟩, hserved, hnew, hsame1, hinv1, hlt1⟩ :=
    reaches_intruded ht (run_networkInv hrun) halive hlt
  obtain ⟨p, h2, hpc⟩ := run_acknowledged t hserved hk hf nonce
  have hn : n < w1.server.tasks.length := by
    rw [hserved.last]
    exact Nat.lt_succ_self n
  obtain ⟨w2, ⟨acts3, hsilent3, h3⟩, honly, hended2, hsending2, hactive, hlast⟩ :=
    reaches_forwarded (w := withProto w1 n p) cfg ht hserved.running hserved.sending hserved.waiting
      hserved.queue (List.getElem?_set_self hn) rfl (by simp [Task.afterStep, hpc]) hpc
      (hinv1.refines.inv hserved.running hlt1).2 hserved.tracked
  have hlen : w2.server.tasks.length = n + 1 := by
    rw [honly.tasks, ← hserved.last]
    exact List.length_set
  have hmore : run (Network.step cfg t) w (acts1 ++ (hostActs n answer nonce ++ acts3)) = some w2 :=
    run_append_some.mpr ⟨w1, h1, run_append_some.mpr ⟨_, h2, h3⟩⟩
  have hserver := Network.run_server (run_append_some.mpr ⟨w, hrun, hmore⟩)
  refine ⟨_, w2, n, fun a ha => ?_, hmore,
    hsame1.trans ⟨honly.conns, honly.clientKeys, honly.clientDeadman⟩, hnew, ?_, ?_, hactive, hlast,
    fun j task htask hne => ?_⟩
  · rcases List.mem_append.mp ha with ha | ha
    · exact shows_of_silent a (hsilent1 a ha)
    · rcases List.mem_append.mp ha with ha | ha
      · exact shows_hostActs ha
      · exact shows_of_silent a (hsilent3 a ha)
  · rw [honly.streams]
    exact hserved.stream
  · rw [bytesRead_append, bytesRead_append, bytesRead_silent hsilent1, bytesRead_silent hsilent3,
      bytesRead_hostActs, List.nil_append, List.append_nil]
  · have hj : j < n + 1 := hlen ▸ (List.getElem?_eq_some_iff.mp htask).1
    have hlt2 : w2.server.tasks.length < connectionIds := by
      rw [hlen, ← hserved.last]
      exact hlt1
    exact superseded_stopped hserver hlt2 hended2 hsending2 hactive htask
      (lt_of_le_of_ne (Nat.le_of_lt_succ hj) hne)

end Main

/-- Both ends of the sample run of `Convergence` have the same key, until a host takes over. -/
theorem displaceable_sample :
    ∃ (w : Network) (more : List Network.Act) (w' : Network) (i : StreamId) (key : Key),
      run (Network.step (sampleConfig (sampleKey 1) (sampleKey 1)) sampleTimings)
        Network.new sampleConvergence = some w ∧ SampleEnd w ∧
      run (Network.step (sampleConfig (sampleKey 1) (sampleKey 1)) sampleTimings) w more =
        some w' ∧ (∀ a ∈ more, shows 500 a = true) ∧ ClientSame w w' ∧ w'.streams[i]? = some none ∧
      bytesRead i more = [rekeyAck.dummyData] ∧
      w'.deadman.worker.calls.getLast? = some (setFreshOsk key) := by
  have h : (run (Network.step (sampleConfig (sampleKey 1) (sampleKey 1)) sampleTimings)
      Network.new sampleConvergence).any (fun w => decide (SampleEnd w ∧
        w.server.ended = none ∧ w.deadman.worker.pc.stopped = false ∧
        w.clientDeadman.worker.pc.stopped = false ∧ w.clientPanicked = false ∧
        w.server.tasks.length + w.backlog.length = 2)) = true := by
    decide +kernel
  obtain ⟨w, hw, he⟩ := (Option.any_eq_true _ _).mp h
  obtain ⟨hend, hended, hworker, hclient, hpanic, hlen⟩ := of_decide_eq_true he
  have hk : (sampleConfig (sampleKey 1) (sampleKey 1)).kme.any (sampleAnswer (sampleKey 1)) =
      true := by simp [sampleConfig]
  have hf : fetchKeyInternal (sampleConfig (sampleKey 1) (sampleKey 1)).ext.base64Decode
      (sampleAnswer (sampleKey 1)) = .ok (sampleKey 1) := by decide +kernel
  obtain ⟨more, w', i, hshows, hmore, hsame, -, hstream, hbytes, -, hlast, -⟩ :=
    displaceable 500 ⟨by decide, by decide⟩ hk hf (zeroed 32) hw hended hworker hclient hpanic
      (by rw [hlen]; decide)
  exact ⟨w, more, w', i, _, hw, hend, hmore, hshows, hsame, hstream, hbytes, hlast⟩

end Daisyway.Net.Takeover
