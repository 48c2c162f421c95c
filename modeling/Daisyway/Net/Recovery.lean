import Daisyway.Lib.Reach
import Daisyway.Net.Convergence

/-! # No dead ends

Connections break, other hosts connect, queues fill up, tasks wait for space in a queue, and the
manager waits for its OSK handler. Whatever has happened, a deployment whose processes still run can
get back to the state it is for: from every state that can be reached, a run leads to one in which
the brokers of both ends were last given one new key (`recoverable`).

The run is led there in phases. The worker of the server takes all requests, so that the manager
gets its call off; the manager takes all notifications; the client gives up its connection and opens
a new one; the server accepts it, a key is negotiated on it, and as its connection is the newest
one, the key is forwarded. -/

namespace Daisyway.Net.Recovery

open Daisyway.Prim Daisyway.Etsi014 Daisyway.Crypto.Basics Daisyway.Crypto.Kdf
open Daisyway.Crypto.Protocol Daisyway.Crypto.Lockstep Daisyway.Lib.Run Daisyway.Lib.Lists
open Daisyway.Lib.Reach Daisyway.Lib.Stream Daisyway.Osk.Deadman
open Daisyway.Net.Manager Daisyway.Net.Forwarding Daisyway.Net.Server Daisyway.Net.Delivery
open Daisyway.Net.EndToEnd Daisyway.Net.Deployment Daisyway.Net.Convergence

/-! ### The workers -/

section Worker
variable {t : Timing} {now : ℕ} (closed : Bool)

/-- The worker takes requests: it has not ended, and it is not shutting down. -/
def serving : WorkerPc → Bool
  | .close | .returned | .failed | .panicked => false
  | _ => true

/-- The worker waits for a request and there is none. -/
structure Waiting (d : OskDeadman) : Prop where
  queue : d.queue = []
  recv : ∃ n, d.worker.pc = .recv n

theorem Waiting.serving {d : OskDeadman} (h : Waiting d) : serving d.worker.pc = true := by
  obtain ⟨n, hn⟩ := h.recv
  rw [hn]
  rfl

theorem Waiting.setOsk {d : OskDeadman} (h : Waiting d) (call : SetOsk) :
    d.setOsk call = some { d with queue := [.setOsk call.key call.reason] } := by
  obtain ⟨n, hn⟩ := h.recv
  have hguard : d.worker.pc.stopped = false ∧ d.queue.length < requestCapacity := by
    rw [hn, h.queue]
    exact ⟨rfl, by decide⟩
  unfold OskDeadman.setOsk
  rw [if_pos hguard, h.queue, List.nil_append]

/-- The deadline is in range, so the worker waits. -/
theorem reaches_recv_of_arm (ht : now + t.eraseAfter ≤ t.lastInstant) (queue : List DeadmanRequest)
    (calls : List SetOsk) :
    ∃ n, Reaches (OskDeadman.workerStep t closed) (WorkerAct.reads now) ⟨queue, ⟨.arm, calls⟩⟩
      ⟨queue, ⟨.recv n, calls⟩⟩ := by
  refine ⟨now + t.eraseAfter, Reaches.single (a := .arm now) (decide_eq_true rfl) ?_⟩
  simp [OskDeadman.workerStep, DeadmanWorker.step, ht]

/-- The broker succeeds. -/
theorem workerStep_broker {queue : List DeadmanRequest} {pc : WorkerPc} {calls : List SetOsk}
    {call : SetOsk} (hcall : pc.brokerCall (zeroed 32) = some call) (hpc : pc ≠ .close) :
    OskDeadman.workerStep t closed ⟨queue, ⟨pc, calls⟩⟩ (.broker (zeroed 32) .ok) =
      some ⟨queue, ⟨.arm, calls ++ [call]⟩⟩ := by
  have hafter : pc.afterCall .ok = .arm := by
    unfold WorkerPc.afterCall
    rw [if_neg hpc]
  have hstep : DeadmanWorker.step t ⟨pc, calls⟩ (.broker (zeroed 32) .ok) =
      some ⟨.arm, calls ++ [call]⟩ := by
    cases pc <;> simp_all [DeadmanWorker.step]
  simp [OskDeadman.workerStep, hstep]

/-- A worker that serves comes to wait for requests. -/
theorem reaches_recv (ht : now + t.eraseAfter ≤ t.lastInstant) {d : OskDeadman}
    (h : serving d.worker.pc = true) :
    ∃ n calls, Reaches (OskDeadman.workerStep t closed) (WorkerAct.reads now) d
      ⟨d.queue, ⟨.recv n, calls⟩⟩ := by
  obtain ⟨queue, ⟨pc, calls⟩⟩ := d
  have hbroker : ∀ {call : SetOsk}, pc.brokerCall (zeroed 32) = some call → pc ≠ .close →
      ∃ n calls', Reaches (OskDeadman.workerStep t closed) (WorkerAct.reads now)
        ⟨queue, ⟨pc, calls⟩⟩ ⟨queue, ⟨.recv n, calls'⟩⟩ := by
    intro call hcall hne
    obtain ⟨n, hn⟩ := reaches_recv_of_arm closed ht queue (calls ++ [call])
    exact ⟨n, _, Reaches.head rfl (workerStep_broker closed hcall hne) hn⟩
  cases pc with
  | start | expire => exact hbroker rfl (by simp)
  | set key reason => exact hbroker rfl (by simp)
  | arm =>
    obtain ⟨n, hn⟩ := reaches_recv_of_arm closed ht queue calls
    exact ⟨n, calls, hn⟩
  | recv n => exact ⟨n, calls, Reaches.refl _⟩
  | close | returned | failed | panicked => cases h

/-- A worker that waits takes the requests in the queue, one after the other. -/
theorem reaches_drained (ht : now + t.eraseAfter ≤ t.lastInstant) :
    ∀ (queue : List DeadmanRequest) (n : ℕ) (calls : List SetOsk),
      ∃ m, Reaches (OskDeadman.workerStep t closed) (WorkerAct.reads now) ⟨queue, ⟨.recv n, calls⟩⟩
        ⟨[], ⟨.recv m, calls ++ queue.map requestCall⟩⟩
  | [], n, calls => ⟨n, by rw [List.map_nil, List.append_nil]; exact Reaches.refl _⟩
  | .setOsk key reason :: queue, n, calls => by
    have htake : OskDeadman.workerStep t closed ⟨.setOsk key reason :: queue, ⟨.recv n, calls⟩⟩
        (.received (.setOsk key reason)) = some ⟨queue, ⟨.set key reason, calls⟩⟩ := by
      simp [OskDeadman.workerStep, DeadmanWorker.step]
    obtain ⟨n', harm⟩ := reaches_recv_of_arm closed ht queue (calls ++ [⟨key, reason⟩])
    obtain ⟨m, hrest⟩ := reaches_drained ht queue n' (calls ++ [⟨key, reason⟩])
    have hset : OskDeadman.workerStep t closed ⟨queue, ⟨.set key reason, calls⟩⟩
        (.broker (zeroed 32) .ok) = some ⟨queue, ⟨.arm, calls ++ [⟨key, reason⟩]⟩⟩ :=
      workerStep_broker closed rfl (by simp)
    refine ⟨m, Reaches.head rfl htake (Reaches.head rfl hset ?_)⟩
    rw [List.append_assoc] at hrest
    exact harm.trans hrest

/-- A worker that serves comes to wait with nothing left to do. -/
theorem reaches_waiting (ht : now + t.eraseAfter ≤ t.lastInstant) {d : OskDeadman}
    (h : serving d.worker.pc = true) :
    ∃ d', Reaches (OskDeadman.workerStep t closed) (WorkerAct.reads now) d d' ∧ Waiting d' := by
  obtain ⟨n, calls, hrecv⟩ := reaches_recv closed ht h
  obtain ⟨m, hdrain⟩ := reaches_drained closed ht d.queue n calls
  exact ⟨_, hrecv.trans hdrain, rfl, m, rfl⟩

/-- The key given to a worker that waits is the last one its broker is given. -/
theorem reaches_installed (ht : now + t.eraseAfter ≤ t.lastInstant) {d : OskDeadman} (h : Waiting d)
    (call : SetOsk) :
    ∃ d', Reaches (OskDeadman.workerStep t closed) (WorkerAct.reads now)
        { d with queue := [.setOsk call.key call.reason] } d' ∧ Waiting d' ∧
      d'.worker.calls.getLast? = some call := by
  obtain ⟨n, hn⟩ := h.recv
  obtain ⟨queue, ⟨pc, calls⟩⟩ := d
  obtain rfl : pc = .recv n := hn
  obtain ⟨m, hdrain⟩ := reaches_drained closed ht [.setOsk call.key call.reason] n calls
  refine ⟨_, hdrain, ⟨rfl, m, rfl⟩, ?_⟩
  simp [requestCall]

end Worker

/-! ### The server -/

section Server
variable {cfg : Config} {t : Timings} {now : ℕ} {w w' : Network}

/-- The deadlines the workers compute at the instant `now` are in the range of the clock. -/
structure InRange (t : Timings) (now : ℕ) : Prop where
  server : now + t.server.eraseAfter ≤ t.server.lastInstant
  client : now + t.client.eraseAfter ≤ t.client.lastInstant

/-- The clock the action reads shows `now`. -/
def shows (now : ℕ) : Network.Act → Bool
  | .worker a | .clientWorker a => a.reads now
  | _ => true

/-- Besides, no task takes a step of its protocol. -/
def silent (now : ℕ) : Network.Act → Bool
  | .server (.task _ (.proto _)) => false
  | a => shows now a

theorem shows_of_silent {now : ℕ} (a : Network.Act) (h : silent now a = true) :
    shows now a = true := by
  unfold silent at h
  split at h
  · cases h
  · exact h

/-- The loop of the server runs, both workers serve, and the client has not panicked. -/
structure Alive (w : Network) : Prop where
  running : w.server.ended = none
  worker : serving w.deadman.worker.pc = true
  clientWorker : serving w.clientDeadman.worker.pc = true
  client : w.clientPanicked = false

/-- Nothing but the server and its deadman has changed, and no connection was accepted. -/
structure ServerOnly (w w' : Network) : Prop where
  conns : w'.conns = w.conns
  clientKeys : w'.clientKeys = w.clientKeys
  clientDeadman : w'.clientDeadman = w.clientDeadman
  backlog : w'.backlog = w.backlog
  streams : w'.streams = w.streams
  tasks : w'.server.tasks.length = w.server.tasks.length

theorem ServerOnly.refl (w : Network) : ServerOnly w w := ⟨rfl, rfl, rfl, rfl, rfl, rfl⟩

theorem ServerOnly.trans {w'' : Network} (h : ServerOnly w w') (h' : ServerOnly w' w'') :
    ServerOnly w w'' :=
  ⟨h'.conns.trans h.conns, h'.clientKeys.trans h.clientKeys, h'.clientDeadman.trans h.clientDeadman,
    h'.backlog.trans h.backlog, h'.streams.trans h.streams, h'.tasks.trans h.tasks⟩

theorem ServerOnly.alive (h : ServerOnly w w') (ha : Alive w) (hrun : w'.server.ended = none)
    (hworker : serving w'.deadman.worker.pc = true) : Alive w' := by
  refine ⟨hrun, hworker, ?_, ?_⟩
  · rw [h.clientDeadman]
    exact ha.clientWorker
  · unfold Network.clientPanicked
    rw [h.conns]
    exact ha.client

theorem reaches_worker {d : OskDeadman}
    (h : Reaches (OskDeadman.workerStep t.server w.server.ended.isSome) (WorkerAct.reads now)
      w.deadman d) :
    Reaches (Network.step cfg t) (silent now) w { w with deadman := d } := by
  refine h.lift (Q := silent now) (f := fun d => { w with deadman := d }) (g := Network.Act.worker)
    (fun _ ha => ha) fun hs => ?_
  simp only [Network.step, hs, Option.map_some]

theorem reaches_clientWorker {d : OskDeadman}
    (h : Reaches (OskDeadman.workerStep t.client w.clientPanicked) (WorkerAct.reads now)
      w.clientDeadman d) :
    Reaches (Network.step cfg t) (silent now) w { w with clientDeadman := d } := by
  refine h.lift (Q := silent now) (f := fun d => { w with clientDeadman := d })
    (g := Network.Act.clientWorker) (fun _ ha => ha) fun {s a s'} hs => ?_
  have hpanic : ({ w with clientDeadman := s } : Network).clientPanicked = w.clientPanicked := rfl
  simp only [Network.step, hpanic, hs, Option.map_some]

/-- The loop is in its `select!`, and the worker of the server waits. -/
structure Quiet (w : Network) : Prop extends Alive w where
  sending : w.server.sending = none
  waiting : Waiting w.deadman

theorem Quiet.idle (h : Quiet w) : w.server.idle = true :=
  TcpServer.idle_iff.mpr ⟨h.running, h.sending⟩

/-- The call of the manager goes into the queue of the deadman, and the worker passes it on. -/
theorem reaches_sent (cfg : Config) (ht : InRange t now) {sending : Sending}
    (hsend : w.server.sending = some sending) (hwait : Waiting w.deadman) :
    ∃ w', Reaches (Network.step cfg t) (silent now) w w' ∧ ServerOnly w w' ∧
      w'.server.ended = w.server.ended ∧ w'.server.sending = none ∧
      w'.server.manager = w.server.manager ∧ w'.server.queue = w.server.queue ∧
      Waiting w'.deadman ∧ w'.deadman.worker.calls.getLast? = some sending.call := by
  obtain ⟨d, hd, hwait', hlast⟩ :=
    reaches_installed w.server.ended.isSome ht.server hwait sending.call
  have hsent : Network.step cfg t w (.server .oskSent) =
      some { w with
        server := { w.server with
          sending := none, tasks := abort w.server.removed w.server.tasks }
        deadman := { w.deadman with
          queue := [.setOsk sending.call.key sending.call.reason] } } := by
    simp only [Network.step, Network.serverStep, hsend, Option.bind_some, hwait.setOsk,
      TcpServer.step, Option.isSome_some, if_true, Option.map_some]
  exact ⟨_, Reaches.head rfl hsent (reaches_worker hd),
    ⟨rfl, rfl, rfl, rfl, rfl, TcpServer.length_abort _ _⟩, rfl, rfl, rfl, rfl, hwait', hlast⟩

/-- **The manager gets its call off.** -/
theorem reaches_quiet (cfg : Config) (ht : InRange t now) (h : Alive w) :
    ∃ w', Reaches (Network.step cfg t) (silent now) w w' ∧ Quiet w' ∧ ServerOnly w w' ∧
      w'.server.queue = w.server.queue := by
  obtain ⟨d, hd, hwait⟩ := reaches_waiting w.server.ended.isSome ht.server h.worker
  have hdrained : Reaches (Network.step cfg t) (silent now) w { w with deadman := d } :=
    reaches_worker hd
  have honly : ServerOnly w { w with deadman := d } := ⟨rfl, rfl, rfl, rfl, rfl, rfl⟩
  cases hsend : w.server.sending with
  | none => exact ⟨_, hdrained, ⟨honly.alive h h.running hwait.serving, hsend, hwait⟩, honly, rfl⟩
  | some sending =>
    obtain ⟨w', hsent, honly', hended, hnone, -, hqueue, hwait', -⟩ :=
      reaches_sent (w := { w with deadman := d }) cfg ht hsend hwait
    have hall := honly.trans honly'
    exact ⟨w', hdrained.trans hsent,
      ⟨hall.alive h (hended.trans h.running) hwait'.serving, hnone, hwait'⟩, hall, hqueue⟩

/-- A notification starts no task. -/
theorem length_tasks_notice (s : TcpServer) (ev : ConnectionHandlerEvent) :
    (s.onEvent ev.toStreamEvent).tasks.length = s.tasks.length := by
  have hnone : accepts [ev.toStreamEvent] = 0 := by cases ev <;> rfl
  simp only [TcpServer.onEvent, List.length_append, TcpServer.length_abort,
    TcpServer.length_spawned, hnone, Nat.add_zero]

/-- **The manager takes all notifications.** -/
theorem reaches_noticed (cfg : Config) (ht : InRange t now) (h : Alive w) :
    ∃ w', Reaches (Network.step cfg t) (silent now) w w' ∧ Quiet w' ∧ ServerOnly w w' ∧
      w'.server.queue = [] := by
  obtain ⟨w1, h1, hquiet, honly, -⟩ := reaches_quiet cfg ht h
  have hzero : ∃ w', Reaches (Network.step cfg t) (silent now) w1 w' ∧
      (Quiet w' ∧ ServerOnly w w') ∧ w'.server.queue.length = 0 := by
    refine reaches_zero (I := fun w' => Quiet w' ∧ ServerOnly w w')
      (μ := fun w' => w'.server.queue.length) (fun w1 hI hne => ?_) ⟨hquiet, honly⟩
    obtain ⟨hquiet, honly⟩ := hI
    obtain ⟨ev, rest, hq⟩ := List.exists_cons_of_length_pos (Nat.pos_of_ne_zero hne)
    have hrecv : Network.step cfg t w1 (.server .recv) =
        some { w1 with server := { w1.server with queue := rest }.onEvent ev.toStreamEvent } := by
      simp only [Network.step, Network.serverStep, TcpServer.step, hquiet.idle, if_true, hq,
        Option.map_some]
    have hsame : ServerOnly w1 { w1 with
        server := { w1.server with queue := rest }.onEvent ev.toStreamEvent } :=
      ⟨rfl, rfl, rfl, rfl, rfl, length_tasks_notice _ ev⟩
    have halive := hsame.alive hquiet.toAlive hquiet.running hquiet.waiting.serving
    obtain ⟨w2, h2, hquiet2, honly2, hqueue⟩ := reaches_quiet cfg ht halive
    refine ⟨w2, Reaches.head rfl hrecv h2, ⟨hquiet2, honly.trans (hsame.trans honly2)⟩, ?_⟩
    have hrest : w2.server.queue = rest := hqueue
    rw [hrest, hq, List.length_cons]
    exact Nat.lt_succ_self _
  obtain ⟨w2, h2, ⟨hquiet2, honly2⟩, hnil⟩ := hzero
  exact ⟨w2, h1.trans h2, hquiet2, honly2, List.eq_nil_of_length_eq_zero hnil⟩

end Server

/-! ### The client -/

section Client
variable {cfg : Config} {t : Timings} {now : ℕ} {w w' : Network}

/-- The KMEs work: the one of the server can give out a key that the one of the client knows, and
that one answers every request, if only with an error. -/
structure Responsive (cfg : Config) : Prop where
  round : ∃ answer key answer', cfg.kme.any answer = true ∧
    fetchKeyInternal cfg.ext.base64Decode answer = .ok key ∧
    cfg.kme.specific key.id answer' = true ∧
    fetchKeyInternal cfg.ext.base64Decode answer' = .ok key
  specific : ∀ id, ∃ answer, cfg.kme.specific id answer = true ∧
    fetchKeyInternal cfg.ext.base64Decode answer ≠ .panicked

/-- Nothing but the client and its deadman has changed, and no key was negotiated. -/
structure ClientOnly (w w' : Network) : Prop where
  server : w'.server = w.server
  deadman : w'.deadman = w.deadman
  backlog : w'.backlog = w.backlog
  streams : w'.streams = w.streams
  clientKeys : w'.clientKeys = w.clientKeys

theorem ClientOnly.trans {w'' : Network} (h : ClientOnly w w') (h' : ClientOnly w' w'') :
    ClientOnly w w'' :=
  ⟨h'.server.trans h.server, h'.deadman.trans h.deadman, h'.backlog.trans h.backlog,
    h'.streams.trans h.streams, h'.clientKeys.trans h.clientKeys⟩

theorem step_client {front : List Conn} {conn conn' : Conn} {a : ClientProtocol.Act}
    {d : OskDeadman} (hconns : w.conns = front ++ [conn])
    (hd : Network.clientOsk w.clientDeadman conn.client a = some d)
    (hs : conn.clientStep cfg a = some conn') :
    w.step cfg t (.client a) = some { w with
      conns := front ++ [conn']
      clientKeys := w.clientKeys ++ conn'.client.keys.drop conn.client.keys.length
      clientDeadman := d } := by
  simp only [Network.step, Network.clientStep, hconns, List.getLast?_concat, Option.bind_some, hd,
    hs, Option.map_some, List.dropLast_concat]

/-- A step of the client that reads nothing is possible on every stream. -/
theorem clientStep_of_step {conn : Conn} {a : ClientProtocol.Act} {client : ClientProtocol}
    (hk : cfg.kme.allowsClient conn.client a = true)
    (hs : conn.client.step cfg.ext cfg.client a = some client)
    (htaken : ClientProtocol.taken a = []) :
    ∃ conn', conn.clientStep cfg a = some conn' ∧ conn'.client = client := by
  obtain ⟨requests, hpull⟩ : ∃ requests, conn.requests.pull (ClientProtocol.taken a) =
      some requests := by
    rw [htaken]
    unfold Pipe.pull
    rw [dif_pos List.nil_prefix]
    exact ⟨_, rfl⟩
  refine ⟨⟨client, requests, conn.acks.push (ClientProtocol.written a)⟩, ?_, rfl⟩
  simp only [Conn.clientStep, hk, if_true, hs, Option.bind_some, hpull, Option.map_some]

/-- The client moves on to another place of its event loop, without a key. -/
theorem reaches_client (cfg : Config) (t : Timings) {front : List Conn} {conn : Conn}
    (a : ClientProtocol.Act) (pc : ClientPc) {d : OskDeadman} (hconns : w.conns = front ++ [conn])
    (hd : Network.clientOsk w.clientDeadman conn.client a = some d)
    (hk : cfg.kme.allowsClient conn.client a = true)
    (hs : conn.client.step cfg.ext cfg.client a = some { conn.client with pc })
    (htaken : ClientProtocol.taken a = []) :
    ∃ w' conn', Reaches (Network.step cfg t) (silent now) w w' ∧ ClientOnly w w' ∧
      w'.clientDeadman = d ∧ w'.conns = front ++ [conn'] ∧ conn'.client.pc = pc := by
  obtain ⟨conn', hstep, hclient⟩ := clientStep_of_step hk hs htaken
  refine ⟨_, conn', Reaches.single rfl (step_client hconns hd hstep), ⟨rfl, rfl, rfl, rfl, ?_⟩, rfl,
    rfl, by rw [hclient]⟩
  simp [hclient]

theorem disconnected_of_failed {front : List Conn} {conn : Conn} {e : ClientError}
    (hconns : w.conns = front ++ [conn]) (hpc : conn.client.pc = .failed e) :
    w.disconnected = true := by
  unfold Network.disconnected
  rw [hconns, List.getLast?_concat]
  simp only [hpc]

/-- A read fails. -/
theorem reaches_readFailed (cfg : Config) (t : Timings) {front : List Conn} {conn : Conn}
    {got : Bytes} (hconns : w.conns = front ++ [conn]) (hpc : conn.client.pc = .read got) :
    ∃ w', Reaches (Network.step cfg t) (silent now) w w' ∧ ClientOnly w w' ∧
      w'.clientDeadman = w.clientDeadman ∧ w'.disconnected = true := by
  obtain ⟨w', conn', hreach, honly, hd, hconns', hpc'⟩ :=
    reaches_client cfg t .readFailed (.failed .read) hconns rfl rfl
      (by simp [ClientProtocol.step, hpc]) rfl
  exact ⟨w', hreach, honly, hd, disconnected_of_failed hconns' hpc'⟩

/-- A write fails. -/
theorem reaches_writeFailed (cfg : Config) (t : Timings) {front : List Conn} {conn : Conn}
    {r : Round} (hconns : w.conns = front ++ [conn]) (hpc : conn.client.pc = .writeAck r) :
    ∃ w', Reaches (Network.step cfg t) (silent now) w w' ∧ ClientOnly w w' ∧
      w'.clientDeadman = w.clientDeadman ∧ w'.disconnected = true := by
  obtain ⟨w', conn', hreach, honly, hd, hconns', hpc'⟩ :=
    reaches_client cfg t .writeFailed (.failed .write) hconns rfl rfl
      (by simp [ClientProtocol.step, hpc]) rfl
  exact ⟨w', hreach, honly, hd, disconnected_of_failed hconns' hpc'⟩

/-- The KME answers: with a key for an acknowledgement that cannot be written, or with an error. -/
theorem reaches_fetchFailed (t : Timings) (hkme : Responsive cfg) {front : List Conn} {conn : Conn}
    {req : RekeyReq} (hconns : w.conns = front ++ [conn]) (hpc : conn.client.pc = .fetch req) :
    ∃ w', Reaches (Network.step cfg t) (silent now) w w' ∧ ClientOnly w w' ∧
      w'.clientDeadman = w.clientDeadman ∧ w'.disconnected = true := by
  obtain ⟨answer, hanswer, hne⟩ := hkme.specific (Uuid.fromBytes req.qkdKeyId)
  have hk : cfg.kme.allowsClient conn.client (.fetched answer) = true := by
    simp [Kme.allowsClient, ClientProtocol.requested, hpc, hanswer]
  cases hf : fetchKeyInternal cfg.ext.base64Decode answer with
  | ok key =>
    obtain ⟨w1, conn', hreach, honly, hd, hconns', hpc'⟩ :=
      reaches_client cfg t (.fetched answer) (.writeAck ⟨req, key⟩) hconns rfl hk
        (by simp [ClientProtocol.step, hpc, hf]) rfl
    obtain ⟨w2, hreach2, honly2, hd2, hdisc⟩ := reaches_writeFailed cfg t hconns' hpc'
    exact ⟨w2, hreach.trans hreach2, honly.trans honly2, hd2.trans hd, hdisc⟩
  | err e =>
    obtain ⟨w', conn', hreach, honly, hd, hconns', hpc'⟩ :=
      reaches_client cfg t (.fetched answer) (.failed (.fetch e)) hconns rfl hk
        (by simp [ClientProtocol.step, hpc, hf]) rfl
    exact ⟨w', hreach, honly, hd, disconnected_of_failed hconns' hpc'⟩
  | panicked => exact absurd hf hne

/-- The worker makes space, the key gets into the queue, and the next read fails. -/
theorem reaches_oskTaken (cfg : Config) (ht : InRange t now) {front : List Conn} {conn : Conn}
    {key : Key} (hworker : serving w.clientDeadman.worker.pc = true)
    (hconns : w.conns = front ++ [conn]) (hpc : conn.client.pc = .setOsk key) :
    ∃ w', Reaches (Network.step cfg t) (silent now) w w' ∧ ClientOnly w w' ∧
      w'.disconnected = true ∧ serving w'.clientDeadman.worker.pc = true := by
  obtain ⟨d, hd, hwait⟩ := reaches_waiting w.clientPanicked ht.client hworker
  have hosk : Network.clientOsk d conn.client (.oskSet true) =
      some { d with queue := [.setOsk key .fresh] } := by
    simp only [Network.clientOsk, hpc, if_true, hwait.setOsk, setFreshOsk]
  obtain ⟨w1, conn', hreach, honly, hd1, hconns', hpc'⟩ :=
    reaches_client (w := { w with clientDeadman := d }) cfg t (.oskSet true) (.read []) hconns
      hosk rfl (by simp [ClientProtocol.step, hpc]) rfl
  obtain ⟨w2, hreach2, honly2, hd2, hdisc⟩ := reaches_readFailed cfg t hconns' hpc'
  have hfirst : ClientOnly w { w with clientDeadman := d } := ⟨rfl, rfl, rfl, rfl, rfl⟩
  refine ⟨w2, (reaches_clientWorker hd).trans (hreach.trans hreach2),
    hfirst.trans (honly.trans honly2), hdisc, ?_⟩
  rw [hd2, hd1]
  exact hwait.serving

/-- **The client gives its connection up.** -/
theorem reaches_disconnected (ht : InRange t now) (hkme : Responsive cfg) (h : Alive w) :
    ∃ w', Reaches (Network.step cfg t) (silent now) w w' ∧ ClientOnly w w' ∧
      w'.disconnected = true ∧ serving w'.clientDeadman.worker.pc = true := by
  rcases List.eq_nil_or_concat w.conns with hnil | ⟨front, conn, hconns⟩
  · refine ⟨w, Reaches.refl w, ⟨rfl, rfl, rfl, rfl, rfl⟩, ?_, h.clientWorker⟩
    unfold Network.disconnected
    rw [hnil]
    rfl
  rw [List.concat_eq_append] at hconns
  cases hpc : conn.client.pc with
  | read got =>
    obtain ⟨w', hreach, honly, hd, hdisc⟩ := reaches_readFailed cfg t hconns hpc
    exact ⟨w', hreach, honly, hdisc, hd ▸ h.clientWorker⟩
  | fetch req =>
    obtain ⟨w', hreach, honly, hd, hdisc⟩ := reaches_fetchFailed t hkme hconns hpc
    exact ⟨w', hreach, honly, hdisc, hd ▸ h.clientWorker⟩
  | writeAck r =>
    obtain ⟨w', hreach, honly, hd, hdisc⟩ := reaches_writeFailed cfg t hconns hpc
    exact ⟨w', hreach, honly, hdisc, hd ▸ h.clientWorker⟩
  | setOsk key => exact reaches_oskTaken cfg ht h.clientWorker hconns hpc
  | failed e =>
    exact ⟨w, Reaches.refl w, ⟨rfl, rfl, rfl, rfl, rfl⟩, disconnected_of_failed hconns hpc,
      h.clientWorker⟩
  | panicked =>
    have hpanic := h.client
    unfold Network.clientPanicked at hpanic
    rw [hconns, List.getLast?_concat] at hpanic
    simp only [hpc, decide_true, Bool.true_eq_false] at hpanic

end Client

/-! ### A new connection -/

section Accept
variable {cfg : Config} {t : Timings} {now : ℕ} {w w' : Network}

/-- A connection waits in the backlog behind `pending`. -/
structure Pending (w : Network) (c : Option ℕ) (pending : List (Option ℕ)) : Prop
    extends Quiet w where
  queue : w.server.queue = []
  backlog : w.backlog = pending ++ [c]

/-- The client is on a new connection of its own, which is such a one. -/
structure Connected (w : Network) (front : List Conn) (pending : List (Option ℕ)) : Prop
    extends Pending w (some front.length) pending where
  conns : w.conns = front ++ [Conn.new]

/-- **The client opens a new connection.** -/
theorem reaches_connected (ht : InRange t now) (hkme : Responsive cfg)
    (h : Alive w) :
    ∃ w' front, Reaches (Network.step cfg t) (silent now) w w' ∧ Connected w' front w.backlog ∧
      w'.clientKeys = w.clientKeys ∧ w'.server.tasks.length = w.server.tasks.length := by
  obtain ⟨w1, h1, hquiet, honly, hqueue⟩ := reaches_noticed cfg ht h
  obtain ⟨w2, h2, hclient, hdisc, hserving⟩ :=
    reaches_disconnected ht hkme hquiet.toAlive
  have hconnect : Network.step cfg t w2 .connect = some { w2 with
      conns := w2.conns ++ [Conn.new], backlog := w2.backlog ++ [some w2.conns.length] } := by
    simp only [Network.step, hdisc, if_true]
  refine ⟨_, w2.conns, h1.trans (h2.trans (Reaches.single rfl hconnect)), ?_, ?_, ?_⟩
  · refine ⟨⟨⟨⟨?_, ?_, hserving, ?_⟩, ?_, ?_⟩, ?_, ?_⟩, rfl⟩
    · rw [hclient.server]
      exact hquiet.running
    · rw [hclient.deadman]
      exact hquiet.worker
    · simp [Network.clientPanicked, Conn.new, ClientProtocol.new]
    · rw [hclient.server]
      exact hquiet.sending
    · rw [hclient.deadman]
      exact hquiet.waiting
    · rw [hclient.server]
      exact hqueue
    · rw [hclient.backlog, honly.backlog]
  · exact hclient.clientKeys.trans honly.clientKeys
  · rw [hclient.server]
    exact honly.tasks

theorem step_accept (h : Quiet w) {c : Option ℕ} {rest : List (Option ℕ)}
    (hb : w.backlog = c :: rest) :
    w.step cfg t (.server .accept) = some { w with
      server := w.server.onEvent (.accept w.server.tasks.length)
      backlog := rest
      streams := w.streams ++ [c] } := by
  simp only [Network.step, Network.serverStep, hb, TcpServer.step, h.idle, if_true, Option.map_some]

theorem length_tasks_accept (s : TcpServer) (stream : StreamId) :
    (s.onEvent (.accept stream)).tasks.length = s.tasks.length + 1 := by
  simp only [TcpServer.onEvent, List.length_append, TcpServer.length_abort,
    TcpServer.length_spawned, accepts]

/-- An accept leaves the loop in its `select!`. -/
theorem Quiet.accept (h : Quiet w) (c : Option ℕ) (rest : List (Option ℕ)) :
    Quiet { w with
      server := w.server.onEvent (.accept w.server.tasks.length)
      backlog := rest
      streams := w.streams ++ [c] } :=
  ⟨⟨h.running, h.worker, h.clientWorker, h.client⟩, rfl, h.waiting⟩

/-- Nothing of the client has changed. -/
structure ClientSame (w w' : Network) : Prop where
  conns : w'.conns = w.conns
  clientKeys : w'.clientKeys = w.clientKeys
  clientDeadman : w'.clientDeadman = w.clientDeadman

theorem ClientSame.trans {w'' : Network} (h : ClientSame w w') (h' : ClientSame w' w'') :
    ClientSame w w'' :=
  ⟨h'.conns.trans h.conns, h'.clientKeys.trans h.clientKeys, h'.clientDeadman.trans h.clientDeadman⟩

theorem ServerOnly.clientSame (h : ServerOnly w w') : ClientSame w w' :=
  ⟨h.conns, h.clientKeys, h.clientDeadman⟩

/-- **The server accepts the connections before it.** -/
theorem reaches_turn (cfg : Config) (t : Timings) (now : ℕ) {c : Option ℕ} :
    ∀ {pending : List (Option ℕ)} {w : Network}, Pending w c pending →
    ∃ w', Reaches (Network.step cfg t) (silent now) w w' ∧ Pending w' c [] ∧ ClientSame w w' ∧
      w'.server.tasks.length = w.server.tasks.length + pending.length
  | [], w, h => ⟨w, Reaches.refl w, h, ⟨rfl, rfl, rfl⟩, rfl⟩
  | b :: pending, w, h => by
    have hstep : w.step cfg t (.server .accept) = _ := step_accept h.toQuiet h.backlog
    have hnext : Pending { w with
        server := w.server.onEvent (.accept w.server.tasks.length)
        backlog := pending ++ [c]
        streams := w.streams ++ [b] } c pending :=
      ⟨h.toQuiet.accept b _, h.queue, rfl⟩
    obtain ⟨w', hreach, hpending, hsame, hlen⟩ := reaches_turn cfg t now hnext
    refine ⟨w', Reaches.head rfl hstep hreach, hpending,
      ⟨hsame.conns, hsame.clientKeys, hsame.clientDeadman⟩, ?_⟩
    rw [hlen, length_tasks_accept, List.length_cons]
    omega

/-- The connection is accepted, and nothing has happened on it. -/
structure Served (w : Network) (n : StreamId) (c : Option ℕ) : Prop extends Quiet w where
  queue : w.server.queue = []
  stream : w.streams[n]? = some c
  task : w.server.tasks[n]? = some (Task.new n)
  tracked : Tracked w.server.manager n
  last : w.server.tasks.length = n + 1

/-- The connection of the client is such a one. -/
structure Accepted (w : Network) (n : StreamId) (front : List Conn) : Prop
    extends Served w n (some front.length) where
  conns : w.conns = front ++ [Conn.new]

/-- **The server accepts the connection.** -/
theorem reaches_served {c : Option ℕ} (hinv : NetworkInv cfg w) (h : Pending w c [])
    (hlt : w.server.tasks.length < connectionIds) :
    ∃ w', Reaches (Network.step cfg t) (silent now) w w' ∧ Served w' w.server.tasks.length c ∧
      ClientSame w w' := by
  obtain ⟨hnext, hm⟩ := hinv.refines.inv h.running hlt
  have hstep : w.step cfg t (.server .accept) = _ := step_accept h.toQuiet h.backlog
  refine ⟨_, Reaches.single rfl hstep, ⟨h.toQuiet.accept _ _, h.queue, ?_, ?_, ?_, ?_⟩,
    ⟨rfl, rfl, rfl⟩⟩
  · rw [← hinv.streams_length]
    exact List.getElem?_concat_length
  · have htasks : (w.server.onEvent (.accept w.server.tasks.length)).tasks =
        abort (w.server.manager.onEvent (.accept w.server.tasks.length)).2.dropped w.server.tasks ++
          [Task.new w.server.manager.nextConnectionId] := rfl
    rw [htasks, hnext, List.getElem?_append_right (by rw [TcpServer.length_abort]),
      TcpServer.length_abort, Nat.sub_self]
    rfl
  · exact (tracked_accept hm (onEvent_trans w.server.manager _) _).mpr (Or.inl hnext.symm)
  · exact length_tasks_accept _ _

end Accept

/-! ### A round -/

section Round
variable {cfg : Config} {t : Timings} {now : ℕ} {w : Network} {n : StreamId} {front : List Conn}

/-- The actions of a round. -/
def roundActs (answer answer' : KmeAnswer) (key : Etsi014Key) (nonce : Nonce) : List Act :=
  [.server (.fetched answer nonce), .server (.wrote RekeyReq.size),
    .client (.read (RekeyReq.new key.id.asBytes nonce).asBytes), .client (.fetched answer'),
    .client .wroteAck, .server (.read rekeyAck.dummyData)]

/-- The action is one of a protocol other than the return of its OSK handler. -/
def Ordinary : Act → Prop
  | .server a => isOskSet a = false
  | .client a => ∀ ok, a ≠ .oskSet ok
  | _ => False

/-- The deployment with the connection of the client in the state `l`. -/
def withLink (w : Network) (n : StreamId) (front : List Conn) (l : Link) : Network :=
  { w with
    server := { w.server with tasks := w.server.tasks.set n ((Task.new n).afterStep l.server) }
    conns := front ++ [l.conn]
    clientKeys := w.clientKeys ++ l.conn.client.keys }

/-- The action of the deployment. -/
def networkAct (n : StreamId) : Act → Network.Act
  | .server a => .server (.task n (.proto a))
  | .client a => .client a
  | .cutRequests k => .cutRequests n k
  | .cutAcks k => .cutAcks n k

theorem phase_of_step {p p' : ServerProtocol} {a : ServerProtocol.Act} {task : Task}
    (hs : p.step cfg.ext cfg.server a = some p') : (task.afterStep p).phase = .running := by
  cases ServerProtocol.step_trans hs <;> simp_all [Task.afterStep]

/-- **A step of the link is a step of the deployment.** -/
theorem step_withLink (hqueue : w.server.queue = []) (hn : n < w.server.tasks.length)
    (hstream : w.streams[n]? = some (some front.length)) {l l' : Link} {a : Act}
    (hs : l.step cfg a = some l') (ha : Ordinary a) :
    Network.step cfg t (withLink w n front l) (networkAct n a) = some (withLink w n front l') := by
  cases a with
  | server a =>
    unfold Link.step Link.serverStep at hs
    simp only at hs
    split_ifs at hs with hk
    obtain ⟨p, hp, hs⟩ := Option.bind_eq_some_iff.mp hs
    obtain ⟨conn, hio, rfl⟩ := Option.map_eq_some_iff.mp hs
    have hphase : ((Task.new n).afterStep l.server).phase = .running := phase_of_step hp
    have hproto : ((Task.new n).afterStep l.server).proto = l.server := rfl
    have htask : ((Task.new n).afterStep l.server).step cfg.ext cfg.server
        w.server.ended.isSome (.proto a) = some ((Task.new n).afterStep p, []) := by
      simp only [Task.step, hphase, hproto, hp, Option.map_some]
      rw [if_pos ⟨trivial, ha⟩]
      rfl
    have hget : (w.server.tasks.set n ((Task.new n).afterStep l.server))[n]? =
        some ((Task.new n).afterStep l.server) := List.getElem?_set_self hn
    have hconn : (front ++ [l.conn])[front.length]? = some l.conn := List.getElem?_concat_length
    have hclient : conn.client = l.conn.client := by
      obtain ⟨acks, -, rfl⟩ := Option.map_eq_some_iff.mp hio
      rfl
    simp only [networkAct, Network.step, Network.serverStep, withLink, hk, if_true, hget,
      Option.bind_some, hstream, Network.streamIo, hconn, hproto, hio, Option.map_some,
      TcpServer.step, htask, hqueue, List.length_nil, Nat.add_zero, Nat.zero_le, List.append_nil,
      List.set_set, hclient]
    simp
  | client a =>
    obtain ⟨conn', hclient, rfl⟩ := Option.map_eq_some_iff.mp hs
    have hosk : Network.clientOsk w.clientDeadman l.conn.client a = some w.clientDeadman := by
      cases a with
      | oskSet ok => exact absurd rfl (ha ok)
      | read | readFailed | fetched | wroteAck | writeFailed => rfl
    have hconns : (withLink w n front l).conns = front ++ [l.conn] := rfl
    have hstep : Network.step cfg t (withLink w n front l) (.client a) = _ :=
      step_client hconns hosk hclient
    rw [networkAct, hstep]
    have hkeys := List.prefix_iff_eq_append.mp (Links.clientStep_keys hclient)
    simp only [withLink, List.append_assoc, hkeys]
  | cutRequests | cutAcks => exact absurd ha id

theorem shows_networkAct (a : Act) : shows now (networkAct n a) = true := by
  cases a <;> rfl

/-- A run of the link is a run of the deployment. -/
theorem reaches_withLink (now : ℕ) (hqueue : w.server.queue = []) (hn : n < w.server.tasks.length)
    (hstream : w.streams[n]? = some (some front.length)) :
    ∀ {acts : List Act} {l l' : Link}, run (Link.step cfg) l acts = some l' →
      (∀ a ∈ acts, Ordinary a) →
      Reaches (Network.step cfg t) (shows now) (withLink w n front l) (withLink w n front l')
  | [], l, l', hrun, _ => by
    obtain rfl : l = l' := Option.some.inj hrun
    exact Reaches.refl _
  | a :: acts, l, l', hrun, hall => by
    obtain ⟨l1, h1, h2⟩ := run_cons_some.mp hrun
    refine Reaches.head (shows_networkAct a)
      (step_withLink hqueue hn hstream h1 (hall a List.mem_cons_self)) ?_
    exact reaches_withLink now hqueue hn hstream h2 fun b hb => hall b (List.mem_cons_of_mem _ hb)

theorem ordinary_roundActs (answer answer' : KmeAnswer) (key : Etsi014Key) (nonce : Nonce) :
    ∀ a ∈ roundActs answer answer' key nonce, Ordinary a := by
  intro a ha
  simp only [roundActs, List.mem_cons, List.not_mem_nil, or_false] at ha
  rcases ha with rfl | rfl | rfl | rfl | rfl | rfl
  all_goals simp [Ordinary, isOskSet]

/-- A connection on which nothing has happened. -/
theorem Accepted.withLink_new (h : Accepted w n front) : withLink w n front Link.new = w := by
  obtain ⟨hlt, hget⟩ := List.getElem?_eq_some_iff.mp h.task
  have htasks : w.server.tasks.set n ((Task.new n).afterStep Link.new.server) = w.server.tasks := by
    have hnew : (Task.new n).afterStep Link.new.server = w.server.tasks[n] := hget.symm
    rw [hnew, List.set_getElem_self]
  have hconns := h.conns
  unfold withLink
  rw [htasks]
  obtain ⟨server, deadman, conns, clientKeys, clientDeadman, backlog, streams⟩ := w
  simp only [Network.mk.injEq, true_and, and_true]
  exact ⟨hconns.symm, List.append_nil _⟩

/-- **A round completes.** On a connection on which nothing has happened, with a key both KMEs
know. -/
theorem run_round {answer answer' : KmeAnswer} {key : Etsi014Key}
    (hk : cfg.kme.any answer = true) (hf : fetchKeyInternal cfg.ext.base64Decode answer = .ok key)
    (hk' : cfg.kme.specific key.id answer' = true)
    (hf' : fetchKeyInternal cfg.ext.base64Decode answer' = .ok key) (nonce : Nonce) :
    ∃ l, run (Link.step cfg) Link.new (roundActs answer answer' key nonce) = some l ∧
      l.server.pc = .setOsk (deriveDaisywayKey cfg.ext.shake256 cfg.server nonce key) ∧
      l.conn.client.pc = .setOsk (deriveDaisywayKey cfg.ext.shake256 cfg.client nonce key) ∧
      l.conn.client.keys = [deriveDaisywayKey cfg.ext.shake256 cfg.client nonce key] := by
  let r : Round := ⟨RekeyReq.new key.id.asBytes nonce, key⟩
  let server (pc : ServerPc) : ServerProtocol := ⟨pc, [], [], []⟩
  let client (pc : ClientPc) : ClientProtocol := ⟨pc, [], [], []⟩
  let empty : Pipe UInt8 := Pipe.empty
  obtain ⟨requests, hrequests⟩ := Pipe.exists_pull_push r.req.asBytes
  obtain ⟨acks, hacks⟩ := Pipe.exists_pull_push [rekeyAck.dummyData]
  have hsize : 0 < RekeyReq.size := by decide
  have hreq : RekeyReq.ofBytes r.req.asBytes = r.req :=
    RekeyReq.asBytes_injective (RekeyReq.asBytes_ofBytes (RekeyReq.length_asBytes _))
  have hid : Uuid.fromBytes r.req.qkdKeyId = key.id := Uuid.fromBytes_asBytes _
  have hack : (RekeyAck.mk rekeyAck.dummyData).validate = .ok () := RekeyAck.validate_ok_iff.mpr rfl
  have h1 : Link.step cfg Link.new (.server (.fetched answer nonce)) =
      some ⟨server (.write r r.req.asBytes), ⟨client (.read []), empty, empty⟩⟩ := by
    simp [Link.step, Link.serverStep, Link.new, Kme.allowsServer, hk, ServerProtocol.step,
      ServerProtocol.new, hf, Conn.serverIo, ServerProtocol.taken, ServerProtocol.written, Conn.new,
      ClientProtocol.new, r, server, client, empty]
  have h2 : Link.step cfg ⟨server (.write r r.req.asBytes), ⟨client (.read []), empty, empty⟩⟩
      (.server (.wrote RekeyReq.size)) = some ⟨server (.readAck r),
        ⟨client (.read []), empty.push r.req.asBytes, empty⟩⟩ := by
    have hall : r.req.asBytes.take RekeyReq.size = r.req.asBytes :=
      List.take_of_length_le (RekeyReq.length_asBytes _).le
    simp [Link.step, Link.serverStep, Kme.allowsServer, ServerProtocol.step, Conn.serverIo,
      ServerProtocol.taken, ServerProtocol.written, hsize, hall, server]
  have h3 : Link.step cfg
      ⟨server (.readAck r), ⟨client (.read []), empty.push r.req.asBytes, empty⟩⟩
      (.client (.read r.req.asBytes)) =
        some ⟨server (.readAck r), ⟨client (.fetch r.req), requests, empty⟩⟩ := by
    simp [Link.step, Conn.clientStep, Kme.allowsClient, ClientProtocol.step, ClientProtocol.taken,
      ClientProtocol.written, hrequests, hreq, hsize, client, empty]
  have h4 : Link.step cfg ⟨server (.readAck r), ⟨client (.fetch r.req), requests, empty⟩⟩
      (.client (.fetched answer')) =
        some ⟨server (.readAck r), ⟨client (.writeAck r), requests, empty⟩⟩ := by
    simp [Link.step, Conn.clientStep, Kme.allowsClient, ClientProtocol.requested, hid, hk', hf',
      ClientProtocol.step, ClientProtocol.taken, ClientProtocol.written, r, client]
  have h5 : Link.step cfg ⟨server (.readAck r), ⟨client (.writeAck r), requests, empty⟩⟩
      (.client .wroteAck) = some ⟨server (.readAck r),
        ⟨(client (.writeAck r)).complete cfg.ext cfg.client r, requests,
          empty.push [rekeyAck.dummyData]⟩⟩ := by
    simp [Link.step, Conn.clientStep, Kme.allowsClient, ClientProtocol.step, ClientProtocol.taken,
      ClientProtocol.written, RekeyAck.asBytes, client]
  have h6 : Link.step cfg ⟨server (.readAck r),
      ⟨(client (.writeAck r)).complete cfg.ext cfg.client r, requests,
        empty.push [rekeyAck.dummyData]⟩⟩ (.server (.read rekeyAck.dummyData)) =
        some ⟨(server (.readAck r)).complete cfg.ext cfg.server r,
          ⟨(client (.writeAck r)).complete cfg.ext cfg.client r, requests, acks⟩⟩ := by
    simp [Link.step, Link.serverStep, Kme.allowsServer, ServerProtocol.step, Conn.serverIo,
      ServerProtocol.taken, ServerProtocol.written, hacks, hack, server, empty]
  refine ⟨⟨(server (.readAck r)).complete cfg.ext cfg.server r,
    ⟨(client (.writeAck r)).complete cfg.ext cfg.client r, requests, acks⟩⟩, ?_, rfl, rfl, rfl⟩
  exact run_cons_some.mpr ⟨_, h1, run_cons_some.mpr ⟨_, h2, run_cons_some.mpr ⟨_, h3,
    run_cons_some.mpr ⟨_, h4, run_cons_some.mpr ⟨_, h5, run_cons_some.mpr ⟨_, h6, rfl⟩⟩⟩⟩⟩⟩

end Round

/-! ### The new key -/

section Final
variable {cfg : Config} {t : Timings} {now : ℕ} {w : Network} {n : StreamId} {front : List Conn}

/-- The task of the connection puts its key into the notification queue. -/
theorem step_sendOsk (cfg : Config) (t : Timings) {key : Key} {task : Task}
    (hrun : w.server.ended = none) (hqueue : w.server.queue = [])
    (ht : w.server.tasks[n]? = some task) (hphase : task.phase = .running)
    (hpc : task.proto.pc = .setOsk key) :
    ∃ w', w.step cfg t (.server (.task n .sendOsk)) = some w' ∧ ServerOnly w w' ∧
      w'.deadman = w.deadman ∧ w'.server.manager = w.server.manager ∧
      w'.server.ended = w.server.ended ∧ w'.server.sending = w.server.sending ∧
      w'.server.queue = [.osk task.connectionId key .fresh] := by
  have hstep : task.step cfg.ext cfg.server w.server.ended.isSome .sendOsk =
      some (task.afterStep { task.proto with pc := .sleep },
        [.osk task.connectionId key .fresh]) := by
    simp [Task.step, hphase, hpc, hrun, ServerProtocol.step]
  refine ⟨{ w with server := { w.server with
    tasks := w.server.tasks.set n (task.afterStep { task.proto with pc := .sleep })
    queue := [.osk task.connectionId key .fresh] } }, ?_,
    ⟨rfl, rfl, rfl, rfl, rfl, List.length_set⟩, rfl, rfl, rfl, rfl, rfl⟩
  simp [Network.step, Network.serverStep, TcpServer.step, ht, hstep, hqueue,
    TcpServer.queueCapacity]

/-- The manager forwards the key of a tracked connection, which becomes the active one. -/
theorem step_recv (cfg : Config) (t : Timings) {key : Key} {fwd : List ConnectionId}
    (hidle : w.server.idle = true) (hqueue : w.server.queue = [.osk n key .fresh])
    (hinv : Inv w.server.manager fwd) (htracked : Tracked w.server.manager n) :
    ∃ w' sending, w.step cfg t (.server .recv) = some w' ∧ ServerOnly w w' ∧
      w'.deadman = w.deadman ∧ w'.server.ended = w.server.ended ∧
      w'.server.sending = some sending ∧ sending.call = setFreshOsk key ∧
      w'.server.manager.activeConnectionId = some n := by
  obtain ⟨hset, hactive⟩ :
      (w.server.manager.onEvent (.osk n key .fresh)).2.setOsk = some ⟨key, .fresh⟩ ∧
        (w.server.manager.onEvent (.osk n key .fresh)).1.activeConnectionId = some n := by
    rcases onOsk_cases hinv n key .fresh with ⟨-, hset⟩ | ⟨hnot, -⟩
    · exact hset
    · exact absurd htracked hnot
  refine ⟨{ w with server := { w.server with queue := [] }.onEvent (.osk n key .fresh) },
    ⟨⟨key, .fresh⟩, (w.server.manager.onEvent (.osk n key .fresh)).2.removed⟩, ?_,
    ⟨rfl, rfl, rfl, rfl, rfl, length_tasks_notice _ (.osk n key .fresh)⟩, rfl, rfl, ?_, rfl,
    hactive⟩
  · simp only [Network.step, Network.serverStep, TcpServer.step, hidle, if_true, hqueue,
      Option.map_some, ConnectionHandlerEvent.toStreamEvent]
  · simp only [TcpServer.onEvent, hset, Option.map_some]

/-- The key of a tracked connection reaches the broker, and the connection is the active one. -/
theorem reaches_forwarded (cfg : Config) (ht : InRange t now) {key : Key} {task : Task}
    {fwd : List ConnectionId} (hrun : w.server.ended = none) (hsending : w.server.sending = none)
    (hwait : Waiting w.deadman) (hqueue : w.server.queue = [])
    (htask : w.server.tasks[n]? = some task) (hid : task.connectionId = n)
    (hphase : task.phase = .running) (hpc : task.proto.pc = .setOsk key)
    (hinv : Inv w.server.manager fwd) (htracked : Tracked w.server.manager n) :
    ∃ w', Reaches (Network.step cfg t) (silent now) w w' ∧ ServerOnly w w' ∧
      w'.server.ended = none ∧ w'.server.sending = none ∧
      w'.server.manager.activeConnectionId = some n ∧
      w'.deadman.worker.calls.getLast? = some (setFreshOsk key) := by
  obtain ⟨w1, hsend, honly1, hd1, hmanager1, hended1, hsending1, hqueue1⟩ :=
    step_sendOsk cfg t hrun hqueue htask hphase hpc
  rw [hid] at hqueue1
  rw [← hmanager1] at hinv htracked
  obtain ⟨w2, sending, hrecv, honly2, hd2, hended2, hsending2, hcall, hactive⟩ :=
    step_recv cfg t (TcpServer.idle_iff.mpr ⟨hended1.trans hrun, hsending1.trans hsending⟩)
      hqueue1 hinv htracked
  have hwait2 : Waiting w2.deadman := by
    rw [hd2, hd1]
    exact hwait
  obtain ⟨w3, hreach, honly3, hended3, hnone, hmanager3, -, -, hlast⟩ :=
    reaches_sent cfg ht hsending2 hwait2
  have honly := honly1.trans (honly2.trans honly3)
  refine ⟨w3, Reaches.head rfl hsend (Reaches.head rfl hrecv hreach), honly, ?_, hnone, ?_, ?_⟩
  · rw [hended3, hended2, hended1]
    exact hrun
  · rw [hmanager3]
    exact hactive
  · rw [hlast, hcall]

/-- **A new key reaches both brokers.** -/
theorem reaches_new_key (ht : InRange t now) (hkme : Responsive cfg)
    (hm : Mirrored cfg.server cfg.client) (h : Accepted w n front) (hinv : NetworkInv cfg w)
    (hlt : w.server.tasks.length < connectionIds) :
    ∃ w' key, Reaches (Network.step cfg t) (shows now) w w' ∧
      w'.clientKeys = w.clientKeys ++ [key] ∧
      w'.deadman.worker.calls.getLast? = some (setFreshOsk key) ∧
      w'.clientDeadman.worker.calls.getLast? = some (setFreshOsk key) := by
  obtain ⟨answer, qkd, answer', hk, hf, hk', hf'⟩ := hkme.round
  obtain ⟨l, hround, hserver, hclient, hkeys⟩ := run_round hk hf hk' hf' (zeroed 32)
  rw [derive_mirrored hm] at hserver
  generalize deriveDaisywayKey cfg.ext.shake256 cfg.client (zeroed 32) qkd = key at *
  have hn : n < w.server.tasks.length := by
    rw [h.last]
    exact Nat.lt_succ_self n
  -- the worker of the client makes space, and a round completes
  obtain ⟨d, hd, hwait⟩ := reaches_waiting w.clientPanicked ht.client h.clientWorker
  have h0 : Accepted { w with clientDeadman := d } n front :=
    ⟨⟨⟨⟨h.running, h.worker, hwait.serving, h.client⟩, h.sending, h.waiting⟩, h.queue, h.stream,
      h.task, h.tracked, h.last⟩, h.conns⟩
  have hreach0 : Reaches (Network.step cfg t) (silent now) w { w with clientDeadman := d } :=
    reaches_clientWorker hd
  have hreach1 :=
    reaches_withLink (t := t) now h0.queue hn h0.stream hround (ordinary_roundActs _ _ _ _)
  rw [h0.withLink_new] at hreach1
  -- the client passes the key to its deadman, and the worker to the broker
  have hosk : Network.clientOsk d l.conn.client (.oskSet true) =
      some { d with queue := [.setOsk key .fresh] } := by
    simp only [Network.clientOsk, hclient, if_true, hwait.setOsk, setFreshOsk]
  have hconns : (withLink { w with clientDeadman := d } n front l).conns = front ++ [l.conn] := rfl
  obtain ⟨w2, conn', hreach2, honly2, hd2, -, -⟩ :=
    reaches_client cfg t (.oskSet true) (.read []) hconns hosk rfl
      (by simp [ClientProtocol.step, hclient]) rfl
  obtain ⟨w3, hreach3, honly3, hlast3⟩ : ∃ w3, Reaches (Network.step cfg t) (silent now) w2 w3 ∧
      ClientOnly w2 w3 ∧ w3.clientDeadman.worker.calls.getLast? = some (setFreshOsk key) := by
    obtain ⟨d', hd', -, hlast⟩ := reaches_installed w2.clientPanicked ht.client hwait
      (setFreshOsk key)
    exact ⟨{ w2 with clientDeadman := d' }, reaches_clientWorker (by rw [hd2]; exact hd'),
      ⟨rfl, rfl, rfl, rfl, rfl⟩, hlast⟩
  have honly := honly2.trans honly3
  -- the task sends the key, the manager forwards it
  have hserver3 : w3.server = { w.server with
      tasks := w.server.tasks.set n ((Task.new n).afterStep l.server) } := honly.server
  have htask3 : w3.server.tasks[n]? = some ((Task.new n).afterStep l.server) := by
    rw [hserver3]
    exact List.getElem?_set_self hn
  have hwaiting : Waiting w3.deadman := by
    rw [honly.deadman]
    exact h.waiting
  obtain ⟨w4, hreach4, honly4, -, -, -, hlast4⟩ :=
    reaches_forwarded cfg ht (by rw [hserver3]; exact h.running) (by rw [hserver3]; exact h.sending)
      hwaiting (by rw [hserver3]; exact h.queue) htask3 rfl (by simp [Task.afterStep, hserver])
      hserver (by rw [hserver3]; exact (hinv.refines.inv h.running hlt).2)
      (by rw [hserver3]; exact h.tracked)
  have hrest := (hreach2.trans (hreach3.trans hreach4)).mono shows_of_silent
  refine ⟨w4, key, (hreach0.mono shows_of_silent).trans (hreach1.trans hrest), ?_, hlast4, ?_⟩
  · have hkeys3 : w3.clientKeys = w.clientKeys ++ l.conn.client.keys := honly.clientKeys
    rw [honly4.clientKeys, hkeys3, hkeys]
  · rw [honly4.clientDeadman]
    exact hlast3

end Final

/-! ### Shutting down -/

section Closing
variable {cfg : Config} {t : Timings} {now : ℕ} {w w' : Network}

/-- A worker shuts down when all senders are gone. -/
theorem closed_of_workerStep {t : Timing} {closed : Bool} {d d' : OskDeadman} {a : WorkerAct}
    (h : d.workerStep t closed a = some d') (hpc : d'.worker.pc = .close) : closed = true := by
  have hclosed : a = .closed := by
    rcases step_cases (workerStep_cases h).1 with ⟨now, rfl, -, -, hw⟩ | ⟨now, rfl, -, -, hw⟩ |
      ⟨n, key, reason, rfl, -, hw⟩ | ⟨n, rfl, -, hw⟩ | ⟨n, now, rfl, -, -, hw⟩ |
      ⟨random, res, call, rfl, -, hw⟩
    case inr.inr.inr.inl => rfl
    case inr.inr.inr.inr.inr =>
      have hafter : d.worker.pc.afterCall res ≠ .close := by
        cases res with
        | ok =>
          unfold WorkerPc.afterCall
          split_ifs <;> simp
        | err | panicked => simp [WorkerPc.afterCall]
      rw [hw] at hpc
      exact absurd hpc hafter
    all_goals rw [hw] at hpc; cases hpc
  subst hclosed
  unfold OskDeadman.workerStep at h
  cases hq : d.queue with
  | nil =>
    rw [hq] at h
    simp only at h
    split_ifs at h with hc
    exact hc
  | cons r rest =>
    rw [hq] at h
    cases h

/-- The workers shut down only when the loop of the server has ended or the client has panicked. -/
structure Closing (w : Network) : Prop where
  server : w.deadman.worker.pc = .close → w.server.ended.isSome = true
  client : w.clientDeadman.worker.pc = .close → w.clientPanicked = true

theorem closing_new : Closing Network.new where
  server := by intro h; cases h
  client := by intro h; cases h

/-- The loop of the server does not start again. -/
theorem ended_of_step {s s' : TcpServer} {a : TcpServer.Act}
    (hs : s.step cfg.ext cfg.server a = some s') (h : s.ended.isSome = true) :
    s'.ended.isSome = true := by
  cases TcpServer.step_trans hs with
  | accept | recv | oskSent | task => exact h
  | acceptFailed | oskFailed => rfl

theorem clientPanicked_iff :
    w.clientPanicked = true ↔
      ((w.conns.map Conn.client).getLast?.map ClientProtocol.pc) = some .panicked := by
  unfold Network.clientPanicked
  rw [List.getLast?_map]
  cases w.conns.getLast? <;> simp

theorem clientPanicked_set {c : ℕ} {conn conn' : Conn} (hc : w.conns[c]? = some conn)
    (hconns : w'.conns = w.conns.set c conn') (hclient : conn'.client = conn.client)
    (h : w.clientPanicked = true) : w'.clientPanicked = true := by
  rw [clientPanicked_iff] at h ⊢
  rw [hconns, map_set_of_eq hc hclient]
  exact h

/-- A client that has panicked does nothing more. -/
theorem clientPanicked_of_step {a : Network.Act} (hs : w.step cfg t a = some w')
    (h : w.clientPanicked = true) : w'.clientPanicked = true := by
  cases Network.step_trans hs with
  | connect hd =>
    unfold Network.disconnected at hd
    unfold Network.clientPanicked at h
    cases hlast : w.conns.getLast? with
    | none =>
      rw [hlast] at h
      cases h
    | some conn =>
      rw [hlast] at h hd
      simp only [decide_eq_true_eq] at h
      simp only [h] at hd
      cases hd
  | @client a front conn conn' d hconns hd hclient =>
    rw [clientPanicked_iff, hconns] at h
    have hpc : conn.client.pc = .panicked := by simpa using h
    unfold Conn.clientStep at hclient
    split_ifs at hclient
    simp [ClientProtocol.step, hpc] at hclient
  | cutRequests hc | cutAcks hc => exact clientPanicked_set hc rfl rfl h
  | proto hk ht hi hconn hio hserver =>
    refine clientPanicked_set hconn rfl ?_ h
    obtain ⟨acks, -, rfl⟩ := Option.map_eq_some_iff.mp hio
    rfl
  | intrude | lose | accept | oskSent | own | worker | clientWorker => exact h

theorem step_closing {a : Network.Act} (h : Closing w) (hs : w.step cfg t a = some w') :
    Closing w' := by
  have hpanic : w.clientPanicked = true → w'.clientPanicked = true := clientPanicked_of_step hs
  cases Network.step_trans hs with
  | connect | intrude | lose | cutRequests | cutAcks =>
    exact ⟨h.server, fun hc => hpanic (h.client hc)⟩
  | client hconns hd hclient =>
    refine ⟨h.server, fun hc => hpanic (h.client ?_)⟩
    rw [(clientStep_account hd hclient).1] at hc
    exact hc
  | accept hb hserver | proto hk ht hi hconn hio hserver | own hserver hacc hsent hproto =>
    exact ⟨fun hc => ended_of_step hserver (h.server hc), fun hc => hpanic (h.client hc)⟩
  | oskSent hsend hd hserver =>
    refine ⟨fun hc => ended_of_step hserver (h.server ?_), fun hc => hpanic (h.client hc)⟩
    rw [(setOsk_eq_some hd).1] at hc
    exact hc
  | worker hd => exact ⟨closed_of_workerStep hd, h.client⟩
  | clientWorker hd => exact ⟨h.server, closed_of_workerStep hd⟩

end Closing

/-! ### Every reachable state -/

section Recoverable
variable {cfg : Config} {t : Timings} {now : ℕ} {w : Network}

theorem serving_of_running {pc : WorkerPc} (h : pc.stopped = false) (hc : pc ≠ .close) :
    serving pc = true := by
  cases pc <;> simp_all [WorkerPc.stopped, serving]

/-- Processes that run are alive: no worker is shutting down. -/
theorem alive_of_running (hclosing : Closing w) (hended : w.server.ended = none)
    (hworker : w.deadman.worker.pc.stopped = false)
    (hclient : w.clientDeadman.worker.pc.stopped = false) (hpanic : w.clientPanicked = false) :
    Alive w := by
  refine ⟨hended, serving_of_running hworker fun hc => ?_,
    serving_of_running hclient fun hc => ?_, hpanic⟩
  · have hsome := hclosing.server hc
    rw [hended] at hsome
    cases hsome
  · rw [hclosing.client hc] at hpanic
    cases hpanic

/-- **No dead ends.** From every state a deployment can reach in which its processes run (the loop
of the server has not ended, neither worker has, and the client has not panicked), whatever
connections broke, whatever other hosts did and however full the queues are, and for every instant
`now` at which a deadline can be computed: if the KMEs answer, a run in which the clocks show `now`
leads to a state in which one more key was negotiated, and the brokers of both ends were given it
last. -/
theorem recoverable (hm : Mirrored cfg.server cfg.client) (hkme : Responsive cfg)
    (now : ℕ) (ht : InRange t now) {acts : List Network.Act}
    (hrun : run (Network.step cfg t) Network.new acts = some w) (hended : w.server.ended = none)
    (hworker : w.deadman.worker.pc.stopped = false)
    (hclient : w.clientDeadman.worker.pc.stopped = false) (hpanic : w.clientPanicked = false)
    (hlt : w.server.tasks.length + w.backlog.length + 1 < connectionIds) :
    ∃ more w' key, (∀ a ∈ more, shows now a = true) ∧ run (Network.step cfg t) w more = some w' ∧
      w'.clientKeys = w.clientKeys ++ [key] ∧
      w'.deadman.worker.calls.getLast? = some (setFreshOsk key) ∧
      w'.clientDeadman.worker.calls.getLast? = some (setFreshOsk key) := by
  have hinv : NetworkInv cfg w := run_networkInv hrun
  have halive := alive_of_running (run_invariant step_closing closing_new hrun) hended hworker
    hclient hpanic
  obtain ⟨w1, front, h1, hconnected, hkeys1, hlen1⟩ := reaches_connected ht hkme halive
  obtain ⟨w2, h2, hturn, hsame2, hlen2⟩ := reaches_turn cfg t now hconnected.toPending
  have hinv2 : NetworkInv cfg w2 := (h1.trans h2).invariant step_networkInv hinv
  have hlt2 : w2.server.tasks.length + 1 < connectionIds := by
    rw [hlen2, hlen1]
    exact hlt
  obtain ⟨w3, h3, hserved, hsame3⟩ :=
    reaches_served (t := t) hinv2 hturn ((Nat.lt_succ_self _).trans hlt2)
  have hsame := hsame2.trans hsame3
  have haccepted : Accepted w3 w2.server.tasks.length front :=
    ⟨hserved, hsame.conns.trans hconnected.conns⟩
  have hinv3 : NetworkInv cfg w3 := h3.invariant step_networkInv hinv2
  have hlt3 : w3.server.tasks.length < connectionIds := by
    rw [haccepted.last]
    exact hlt2
  obtain ⟨w4, key, h4, hkeys4, hserver, hclient'⟩ :=
    reaches_new_key ht hkme hm haccepted hinv3 hlt3
  obtain ⟨more, hshows, hmore⟩ := ((h1.trans (h2.trans h3)).mono shows_of_silent).trans h4
  refine ⟨more, w4, key, hshows, hmore, ?_, hserver, hclient'⟩
  rw [hkeys4, hsame.clientKeys, hkeys1]

end Recoverable

/-! ### A sample state -/

theorem sampleConfig_responsive (given : Etsi014Key)
    (hf : fetchKeyInternal sampleExternals.base64Decode (sampleAnswer given) = .ok given) :
    Responsive (sampleConfig given given) where
  round := ⟨sampleAnswer given, given, sampleAnswer given, by simp [sampleConfig], hf,
    by simp [sampleConfig], hf⟩
  specific := fun id => ⟨sampleAnswer given, by simp [sampleConfig], by
    have : (sampleConfig given given).ext = sampleExternals := rfl
    rw [this, hf]
    simp⟩

/-- The client has lost its connection, and a key of another host is installed. -/
def sampleOutage : List Network.Act :=
  sampleIntrusion ++ [.client (.oskSet true), .client .readFailed]

theorem recoverable_sample :
    ∃ w, run (Network.step (sampleConfig (sampleKey 1) (sampleKey 1)) sampleTimings)
        Network.new sampleOutage = some w ∧ w.disconnected = true ∧
      ∃ more w' key, (∀ a ∈ more, shows 500 a = true) ∧
        run (Network.step (sampleConfig (sampleKey 1) (sampleKey 1)) sampleTimings) w more =
          some w' ∧
        w'.clientKeys = w.clientKeys ++ [key] ∧
        w'.deadman.worker.calls.getLast? = some (setFreshOsk key) ∧
        w'.clientDeadman.worker.calls.getLast? = some (setFreshOsk key) := by
  have h : (run (Network.step (sampleConfig (sampleKey 1) (sampleKey 1)) sampleTimings)
      Network.new sampleOutage).any (fun w => decide (w.disconnected = true ∧
        w.server.ended = none ∧ w.deadman.worker.pc.stopped = false ∧
        w.clientDeadman.worker.pc.stopped = false ∧ w.clientPanicked = false ∧
        w.server.tasks.length + w.backlog.length = 2)) = true := by
    decide +kernel
  obtain ⟨w, hw, he⟩ := (Option.any_eq_true _ _).mp h
  obtain ⟨hdisc, hended, hworker, hclient, hpanic, hlen⟩ := of_decide_eq_true he
  refine ⟨w, hw, hdisc, recoverable (sampleConfig_mirrored _ _)
    (sampleConfig_responsive _ (by decide +kernel)) 500 ⟨by decide, by decide⟩ hw hended
    hworker hclient hpanic ?_⟩
  rw [hlen]
  decide

end Daisyway.Net.Recovery
