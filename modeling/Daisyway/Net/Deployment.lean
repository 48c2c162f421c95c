import Daisyway.Net.Completeness
import Daisyway.Net.EndToEnd

/-! # Two daemons and the hosts around them

`World` has the client's connections and the output of the server. A deployment has more: the client
passes its keys to a deadman of its own, whose worker can end, and other hosts connect to the
listener of the server as they like. A connection of another host is served like any other; what
the host reads and sends there is arbitrary.

The two ends (`Network.ends`) are linked, whatever the other hosts do, and the keys the client
passes to its deadman are accounted for (`ClientAccount`). So the keys the server takes from the
connections of the client are a subsequence of the keys of the client. -/

namespace Daisyway.Net.Deployment

open Daisyway.Prim Daisyway.Crypto.Basics Daisyway.Crypto.Kdf Daisyway.Crypto.Protocol
open Daisyway.Crypto.Lockstep Daisyway.Lib.Run Daisyway.Lib.Lists Daisyway.Osk.Deadman
open Daisyway.Net.Manager Daisyway.Net.Server Daisyway.Net.Delivery Daisyway.Net.Completeness
open Daisyway.Net.Links Daisyway.Net.EndToEnd

/-! ### The model -/

/-- The timing of the deadmen of the two ends. -/
structure Timings where
  server : Timing
  client : Timing
  deriving DecidableEq

structure Network where
  server : TcpServer
  /-- The deadman of the server. -/
  deadman : OskDeadman
  /-- The connections the client opened, in order, with its end of each. -/
  conns : List Conn
  /-- The keys `wait_for_key_negotiation` of the client returned, over all connections. -/
  clientKeys : List Key
  clientDeadman : OskDeadman
  /-- The connections that are not accepted yet; `none` is a connection of another host. -/
  backlog : List (Option ℕ)
  /-- The connection of each accepted stream. -/
  streams : List (Option ℕ)
  deriving DecidableEq

namespace Network

def new : Network := ⟨TcpServer.new, OskDeadman.start, [], [], OskDeadman.start, [], []⟩

/-- The client is between two connections. -/
def disconnected (w : Network) : Bool :=
  match w.conns.getLast? with
  | none => true
  | some conn =>
    match conn.client.pc with
    | .failed _ => true
    | _ => false

/-- The client has panicked. -/
def clientPanicked (w : Network) : Bool :=
  match w.conns.getLast? with
  | none => false
  | some conn => conn.client.pc = .panicked

inductive Act where
  /-- The client opens a connection. -/
  | connect
  /-- Another host opens a connection. -/
  | intrude
  /-- A connection that is not accepted yet is lost. -/
  | lose (k : ℕ)
  /-- A step of the client on its last connection. -/
  | client (a : ClientProtocol.Act)
  /-- A direction of a connection breaks; `n` of the bytes in flight still arrive. -/
  | cutRequests (c n : ℕ)
  | cutAcks (c n : ℕ)
  | server (a : TcpServer.Act)
  /-- A step of the worker of the server's deadman. -/
  | worker (a : WorkerAct)
  /-- A step of the worker of the client's deadman. -/
  | clientWorker (a : WorkerAct)
  deriving DecidableEq

variable (cfg : Config) (t : Timings)

/-- The deadman of the client after an action of its protocol: `set_fresh_osk` returns when the key
is in the queue, and fails if the worker has ended. -/
def clientOsk (d : OskDeadman) (p : ClientProtocol) : ClientProtocol.Act → Option OskDeadman
  | .oskSet ok =>
    match p.pc with
    | .setOsk key =>
      if ok then d.setOsk (setFreshOsk key)
      else if d.worker.pc.stopped = true then some d
      else none
    | _ => none
  | _ => some d

def clientStep (w : Network) (a : ClientProtocol.Act) : Option Network :=
  w.conns.getLast?.bind fun conn =>
    (clientOsk w.clientDeadman conn.client a).bind fun clientDeadman =>
      (conn.clientStep cfg a).map fun conn' =>
        { w with
          conns := w.conns.dropLast ++ [conn']
          clientKeys := w.clientKeys ++ conn'.client.keys.drop conn.client.keys.length
          clientDeadman }

/-- The connections after an await of the protocol on a stream. -/
def streamIo (w : Network) (p : ServerProtocol) (pa : ServerProtocol.Act) :
    Option ℕ → Option (List Conn)
  | none => some w.conns
  | some c => w.conns[c]?.bind fun conn => (conn.serverIo p pa).map fun conn' => w.conns.set c conn'

/-- A step of the server, together with what it takes from or gives to the others. -/
def serverStep (w : Network) (a : TcpServer.Act) : Option Network :=
  match a with
  | .accept =>
    match w.backlog with
    | c :: rest =>
      (w.server.step cfg.ext cfg.server .accept).map fun server =>
        { w with server, backlog := rest, streams := w.streams ++ [c] }
    | [] => none
  | .oskSent =>
    w.server.sending.bind fun sending =>
      (w.deadman.setOsk sending.call).bind fun deadman =>
        (w.server.step cfg.ext cfg.server .oskSent).map fun server => { w with server, deadman }
  | .oskFailed =>
    if w.deadman.worker.pc.stopped = true then
      (w.server.step cfg.ext cfg.server .oskFailed).map fun server => { w with server }
    else none
  | .task i (.proto pa) =>
    if cfg.kme.allowsServer pa = true then
      w.server.tasks[i]?.bind fun task =>
        w.streams[i]?.bind fun stream =>
          (w.streamIo task.proto pa stream).bind fun conns =>
            (w.server.step cfg.ext cfg.server (.task i (.proto pa))).map fun server =>
              { w with server, conns }
    else none
  | a => (w.server.step cfg.ext cfg.server a).map fun server => { w with server }

/-- One step of the deployment. -/
def step (w : Network) : Act → Option Network
  | .connect =>
    if w.disconnected then
      some { w with conns := w.conns ++ [Conn.new], backlog := w.backlog ++ [some w.conns.length] }
    else none
  | .intrude => some { w with backlog := w.backlog ++ [none] }
  | .lose k => some { w with backlog := w.backlog.eraseIdx k }
  | .client a => w.clientStep cfg a
  | .cutRequests c n =>
    w.conns[c]?.map fun conn =>
      { w with conns := w.conns.set c { conn with requests := conn.requests.cutAt n } }
  | .cutAcks c n =>
    w.conns[c]?.map fun conn =>
      { w with conns := w.conns.set c { conn with acks := conn.acks.cutAt n } }
  | .server a => w.serverStep cfg a
  | .worker a =>
    (w.deadman.workerStep t.server w.server.ended.isSome a).map fun deadman => { w with deadman }
  | .clientWorker a =>
    (w.clientDeadman.workerStep t.client w.clientPanicked a).map fun clientDeadman =>
      { w with clientDeadman }

/-- What a step of the deployment can do. -/
inductive Trans (w : Network) : Act → Network → Prop
  | connect (hd : w.disconnected = true) :
      Trans w .connect
        { w with conns := w.conns ++ [Conn.new], backlog := w.backlog ++ [some w.conns.length] }
  | intrude : Trans w .intrude { w with backlog := w.backlog ++ [none] }
  | lose (k : ℕ) : Trans w (.lose k) { w with backlog := w.backlog.eraseIdx k }
  | client {a : ClientProtocol.Act} {front : List Conn} {conn conn' : Conn}
      {clientDeadman : OskDeadman} (hconns : w.conns = front ++ [conn])
      (hd : clientOsk w.clientDeadman conn.client a = some clientDeadman)
      (hs : conn.clientStep cfg a = some conn') :
      Trans w (.client a)
        { w with
          conns := front ++ [conn']
          clientKeys := w.clientKeys ++ conn'.client.keys.drop conn.client.keys.length
          clientDeadman }
  | cutRequests {c n : ℕ} {conn : Conn} (hc : w.conns[c]? = some conn) :
      Trans w (.cutRequests c n)
        { w with conns := w.conns.set c { conn with requests := conn.requests.cutAt n } }
  | cutAcks {c n : ℕ} {conn : Conn} (hc : w.conns[c]? = some conn) :
      Trans w (.cutAcks c n)
        { w with conns := w.conns.set c { conn with acks := conn.acks.cutAt n } }
  | accept {server : TcpServer} {c : Option ℕ} {rest : List (Option ℕ)} (hb : w.backlog = c :: rest)
      (hs : w.server.step cfg.ext cfg.server .accept = some server) :
      Trans w (.server .accept) { w with server, backlog := rest, streams := w.streams ++ [c] }
  | oskSent {server : TcpServer} {sending : Sending} {deadman : OskDeadman}
      (hsend : w.server.sending = some sending) (hd : w.deadman.setOsk sending.call = some deadman)
      (hs : w.server.step cfg.ext cfg.server .oskSent = some server) :
      Trans w (.server .oskSent) { w with server, deadman }
  | proto {server : TcpServer} {i : ℕ} {pa : ServerProtocol.Act} {task : Task} {c : ℕ}
      {conn conn' : Conn} (hk : cfg.kme.allowsServer pa = true)
      (ht : w.server.tasks[i]? = some task) (hi : w.streams[i]? = some (some c))
      (hconn : w.conns[c]? = some conn) (hio : conn.serverIo task.proto pa = some conn')
      (hs : w.server.step cfg.ext cfg.server (.task i (.proto pa)) = some server) :
      Trans w (.server (.task i (.proto pa))) { w with server, conns := w.conns.set c conn' }
  | own {server : TcpServer} {a : TcpServer.Act}
      (hs : w.server.step cfg.ext cfg.server a = some server) (hacc : a ≠ .accept)
      (hsent : a ≠ .oskSent)
      (hproto : ∀ i pa, a = .task i (.proto pa) → w.streams[i]? = some none) :
      Trans w (.server a) { w with server }
  | worker {a : WorkerAct} {deadman : OskDeadman}
      (hd : w.deadman.workerStep t.server w.server.ended.isSome a = some deadman) :
      Trans w (.worker a) { w with deadman }
  | clientWorker {a : WorkerAct} {clientDeadman : OskDeadman}
      (hd : w.clientDeadman.workerStep t.client w.clientPanicked a = some clientDeadman) :
      Trans w (.clientWorker a) { w with clientDeadman }

variable {cfg t}

theorem serverStep_trans {w w' : Network} {a : TcpServer.Act}
    (h : w.serverStep cfg a = some w') : Trans cfg t w (.server a) w' := by
  unfold serverStep at h
  split at h
  · split at h
    · next c rest hb =>
      obtain ⟨server, hs, rfl⟩ := Option.map_eq_some_iff.mp h
      exact .accept hb hs
    · cases h
  · obtain ⟨sending, hsend, h⟩ := Option.bind_eq_some_iff.mp h
    obtain ⟨deadman, hd, h⟩ := Option.bind_eq_some_iff.mp h
    obtain ⟨server, hs, rfl⟩ := Option.map_eq_some_iff.mp h
    exact .oskSent hsend hd hs
  · split_ifs at h
    obtain ⟨server, hs, rfl⟩ := Option.map_eq_some_iff.mp h
    exact .own hs (by simp) (by simp) (by simp)
  · next i pa =>
    split_ifs at h with hk
    obtain ⟨task, ht, h⟩ := Option.bind_eq_some_iff.mp h
    obtain ⟨stream, hi, h⟩ := Option.bind_eq_some_iff.mp h
    obtain ⟨conns, hio, h⟩ := Option.bind_eq_some_iff.mp h
    obtain ⟨server, hs, rfl⟩ := Option.map_eq_some_iff.mp h
    cases stream with
    | none =>
      obtain rfl : w.conns = conns := Option.some.inj hio
      refine .own hs (by simp) (by simp) fun j pb he => ?_
      obtain ⟨rfl, -⟩ := TcpServer.Act.task.inj he
      exact hi
    | some c =>
      obtain ⟨conn, hconn, hio⟩ := Option.bind_eq_some_iff.mp hio
      obtain ⟨conn', hconn', rfl⟩ := Option.map_eq_some_iff.mp hio
      exact .proto hk ht hi hconn hconn' hs
  · next hacc hsent _ hproto =>
    obtain ⟨server, hs, rfl⟩ := Option.map_eq_some_iff.mp h
    exact .own hs hacc hsent fun i pa he => absurd he (hproto i pa)

theorem step_trans {w w' : Network} {a : Act} (h : w.step cfg t a = some w') :
    Trans cfg t w a w' := by
  cases a with
  | connect =>
    simp only [step] at h
    split_ifs at h with hd
    cases h
    exact .connect hd
  | intrude =>
    cases h
    exact .intrude
  | lose k =>
    cases h
    exact .lose k
  | client a =>
    obtain ⟨conn, hlast, h⟩ := Option.bind_eq_some_iff.mp h
    obtain ⟨clientDeadman, hd, h⟩ := Option.bind_eq_some_iff.mp h
    obtain ⟨conn', hs, rfl⟩ := Option.map_eq_some_iff.mp h
    obtain ⟨front, hconns⟩ := List.getLast?_eq_some_iff.mp hlast
    have hfront : w.conns.dropLast = front := by rw [hconns, List.dropLast_concat]
    rw [hfront]
    exact .client hconns hd hs
  | cutRequests c n =>
    obtain ⟨conn, hc, rfl⟩ := Option.map_eq_some_iff.mp h
    exact .cutRequests hc
  | cutAcks c n =>
    obtain ⟨conn, hc, rfl⟩ := Option.map_eq_some_iff.mp h
    exact .cutAcks hc
  | server a => exact serverStep_trans h
  | worker a =>
    obtain ⟨deadman, hd, rfl⟩ := Option.map_eq_some_iff.mp h
    exact .worker hd
  | clientWorker a =>
    obtain ⟨clientDeadman, hd, rfl⟩ := Option.map_eq_some_iff.mp h
    exact .clientWorker hd

/-- The steps of the server. -/
def serverActs : Act → List TcpServer.Act
  | .server a => [a]
  | _ => []

theorem server_step {w w' : Network} {a : Act} (hs : w.step cfg t a = some w') :
    run (TcpServer.step cfg.ext cfg.server) w.server (serverActs a) = some w'.server := by
  cases step_trans hs with
  | accept _ hserver | oskSent _ _ hserver | proto _ _ _ _ _ hserver | own hserver =>
    exact (run_singleton _ _).trans hserver
  | connect | intrude | lose | client | cutRequests | cutAcks | worker | clientWorker => rfl

/-- A run of a deployment is a run of its server. -/
theorem run_server {w : Network} {acts : List Act}
    (hrun : run (Network.step cfg t) Network.new acts = some w) :
    run (TcpServer.step cfg.ext cfg.server) TcpServer.new (acts.flatMap serverActs) =
      some w.server :=
  run_project Network.server serverActs server_step hrun

end Network

/-! ### The connections of the client -/

/-- The two ends of the deployment. -/
def Network.ends (w : Network) : Ends :=
  ⟨w.server, w.conns, w.backlog, w.streams, w.clientKeys⟩

/-- **Every step keeps the connections of the client linked.** -/
theorem step_linked {cfg : Config} {t : Timings} {w w' : Network} (h : Linked cfg w.ends)
    {a : Network.Act} (hs : w.step cfg t a = some w') : Linked cfg w'.ends := by
  cases Network.step_trans hs with
  | connect hd => exact linked_connect h
  | intrude =>
    refine h.setBacklog ?_
    rw [List.reduceOption_append, List.reduceOption_singleton, Option.toList_none, List.append_nil]
    rfl
  | lose k => exact h.setBacklog ((List.eraseIdx_sublist ..).filterMap _)
  | client hconns hd hclient => exact linked_client h hconns hclient
  | @cutRequests c n conn hc => exact h.setConn hc rfl fun p hp => hp.cutRequests n
  | @cutAcks c n conn hc => exact h.setConn hc rfl fun p hp => hp.cutAcks n
  | accept hb hserver => exact linked_accept h hb hserver
  | oskSent hsend hd hserver => exact linked_own h hserver (by simp) (by simp)
  | proto hk ht hi hconn hio hserver => exact linked_proto h hk ht hi hconn hio hserver
  | own hserver hacc hsent hproto => exact linked_own h hserver hacc hproto
  | worker hd | clientWorker hd => exact h

/-! ### The keys of the client -/

/-- The key the protocol is passing to its OSK handler. -/
def clientPending (p : ClientProtocol) : List Key :=
  match p.pc with
  | .setOsk key => [key]
  | _ => []

/-- The key the client is passing to its deadman. -/
def pendingKeys (conns : List Conn) : List Key :=
  ((conns.map Conn.client).getLast?.map clientPending).getD []

@[simp] theorem pendingKeys_concat (front : List Conn) (conn : Conn) :
    pendingKeys (front ++ [conn]) = clientPending conn.client := by
  simp [pendingKeys]

/-- The keys given to the deadman of the client. -/
def handedKeys (d : OskDeadman) : List Key := (handed d).map SetOsk.key

theorem handedKeys_setOsk {d d' : OskDeadman} {key : Key}
    (h : d.setOsk (setFreshOsk key) = some d') : handedKeys d' = handedKeys d ++ [key] := by
  unfold handedKeys
  rw [handed_setOsk h, List.map_append]
  rfl

theorem handedKeys_workerStep {t : Timing} {closed : Bool} {d d' : OskDeadman} {a : WorkerAct}
    (h : d.workerStep t closed a = some d') : handedKeys d' = handedKeys d := by
  unfold handedKeys
  rw [handed_workerStep h]

/-- A call that is put into the queue leaves the worker alone. -/
theorem setOsk_eq_some {d d' : OskDeadman} {call : SetOsk} (h : d.setOsk call = some d') :
    d'.worker = d.worker ∧ d.worker.pc.stopped = false ∧ d'.queue.length ≤ requestCapacity := by
  unfold OskDeadman.setOsk at h
  split_ifs at h with hguard
  cases h
  refine ⟨rfl, hguard.1, ?_⟩
  rw [List.length_append, List.length_singleton]
  exact hguard.2

/-- The keys the client negotiated are those given to its deadman and the one on its way there; some
may be missing once the worker has ended. -/
structure ClientAccount (w : Network) : Prop where
  front : (handedKeys w.clientDeadman ++ pendingKeys w.conns).Sublist w.clientKeys
  running : w.clientDeadman.worker.pc.stopped = false →
    handedKeys w.clientDeadman ++ pendingKeys w.conns = w.clientKeys
  queue_le : w.clientDeadman.queue.length ≤ requestCapacity

theorem clientAccount_new : ClientAccount Network.new :=
  ⟨List.Sublist.refl _, fun _ => rfl, Nat.zero_le _⟩

/-- A worker that has not ended had not ended before. -/
theorem running_of_workerStep {t : Timing} {closed : Bool} {d d' : OskDeadman} {a : WorkerAct}
    (h : d.workerStep t closed a = some d') : d.worker.pc.stopped = false := by
  have hs := (workerStep_cases h).1
  by_contra hne
  rw [step_of_stopped (by simpa using hne)] at hs
  cases hs

theorem queue_le_of_workerStep {t : Timing} {closed : Bool} {d d' : OskDeadman} {a : WorkerAct}
    (h : d.workerStep t closed a = some d') : d'.queue.length ≤ d.queue.length := by
  rcases (workerStep_cases h).2 with ⟨req, -, hq⟩ | ⟨-, hq⟩
  · rw [hq]
    exact Nat.le_succ _
  · rw [hq]

section Client
variable {cfg : Config} {t : Timings} {w w' : Network}

/-- A step of the client moves a key it negotiated to its deadman, or loses it if the worker has
ended. -/
theorem clientStep_account {d d' : OskDeadman} {conn conn' : Conn} {a : ClientProtocol.Act}
    (hd : Network.clientOsk d conn.client a = some d') (hs : conn.clientStep cfg a = some conn') :
    d'.worker = d.worker ∧ (d.queue.length ≤ requestCapacity → d'.queue.length ≤ requestCapacity) ∧
      ∃ lost : List Key, (d.worker.pc.stopped = false → lost = []) ∧
        handedKeys d ++ clientPending conn.client ++
            conn'.client.keys.drop conn.client.keys.length =
          handedKeys d' ++ clientPending conn'.client ++ lost := by
  unfold Conn.clientStep at hs
  split_ifs at hs
  obtain ⟨client, hc, hs⟩ := Option.bind_eq_some_iff.mp hs
  obtain ⟨requests, -, rfl⟩ := Option.map_eq_some_iff.mp hs
  cases ClientProtocol.step_trans hc with
  | readSome hpc | readAll hpc | readErr hpc | fetchOk hpc | fetchErr hpc | fetchPanic hpc
  | writeErr hpc =>
    obtain rfl : d = d' := Option.some.inj hd
    refine ⟨rfl, id, [], fun _ => rfl, ?_⟩
    simp [clientPending, hpc]
  | wroteAck hpc =>
    obtain rfl : d = d' := Option.some.inj hd
    refine ⟨rfl, id, [], fun _ => rfl, ?_⟩
    simp [clientPending, hpc, ClientProtocol.complete]
  | @oskOk key hpc =>
    simp only [Network.clientOsk, hpc, if_true] at hd
    obtain ⟨hworker, -, hqueue⟩ := setOsk_eq_some hd
    refine ⟨hworker, fun _ => hqueue, [], fun _ => rfl, ?_⟩
    rw [handedKeys_setOsk hd]
    simp [clientPending, hpc]
  | @oskErr key hpc =>
    simp only [Network.clientOsk, hpc, Bool.false_eq_true, if_false] at hd
    split_ifs at hd with hstopped
    cases hd
    refine ⟨rfl, id, [key], fun hrun => ?_, ?_⟩
    · rw [hstopped] at hrun
      cases hrun
    · simp [clientPending, hpc]

/-- A step that touches neither the client nor its deadman. -/
theorem ClientAccount.frame (h : ClientAccount w) (hd : w'.clientDeadman = w.clientDeadman)
    (hp : pendingKeys w'.conns = pendingKeys w.conns) (hk : w'.clientKeys = w.clientKeys) :
    ClientAccount w' := by
  refine ⟨?_, ?_, ?_⟩
  · rw [hd, hp, hk]
    exact h.front
  · rw [hd, hp, hk]
    exact h.running
  · rw [hd]
    exact h.queue_le

theorem pendingKeys_set {conns : List Conn} {c : ℕ} {conn conn' : Conn}
    (hc : conns[c]? = some conn) (hclient : conn'.client = conn.client) :
    pendingKeys (conns.set c conn') = pendingKeys conns := by
  unfold pendingKeys
  rw [map_set_of_eq hc hclient]

/-- A client between two connections passes no key on. -/
theorem pendingKeys_of_disconnected (h : w.disconnected = true) : pendingKeys w.conns = [] := by
  rcases List.eq_nil_or_concat w.conns with hnil | ⟨front, conn, hconns⟩
  · rw [hnil]
    rfl
  · rw [List.concat_eq_append] at hconns
    unfold Network.disconnected at h
    rw [hconns, List.getLast?_concat] at h
    rw [hconns, pendingKeys_concat]
    unfold clientPending
    cases hpc : conn.client.pc <;> simp_all

/-- **Every step keeps the account of the client.** -/
theorem step_clientAccount (h : ClientAccount w) {a : Network.Act}
    (hs : w.step cfg t a = some w') : ClientAccount w' := by
  cases Network.step_trans hs with
  | connect hdisc =>
    refine h.frame rfl ?_ rfl
    rw [pendingKeys_of_disconnected hdisc, pendingKeys_concat]
    rfl
  | @client a front conn conn' d hconns hd hclient =>
    obtain ⟨hworker, hqueue, lost, hlost, heq⟩ := clientStep_account hd hclient
    have hpending : pendingKeys w.conns = clientPending conn.client := by
      rw [hconns, pendingKeys_concat]
    have hfront := h.front
    have hrunning := h.running
    rw [hpending] at hfront hrunning
    refine ⟨?_, fun hrun => ?_, hqueue h.queue_le⟩
    · have hall := hfront.append_right (conn'.client.keys.drop conn.client.keys.length)
      rw [heq] at hall
      rw [pendingKeys_concat]
      exact (List.sublist_append_left _ lost).trans hall
    · simp only [hworker] at hrun
      have hall := hrunning hrun
      rw [hlost hrun, List.append_nil] at heq
      rw [pendingKeys_concat, ← heq, hall]
  | cutRequests hc | cutAcks hc => exact h.frame rfl (pendingKeys_set hc rfl) rfl
  | proto hk ht hi hconn hio hserver =>
    refine h.frame rfl (pendingKeys_set hconn ?_) rfl
    obtain ⟨acks, -, rfl⟩ := Option.map_eq_some_iff.mp hio
    rfl
  | clientWorker hd =>
    refine ⟨?_, fun _ => ?_, (queue_le_of_workerStep hd).trans h.queue_le⟩
    · rw [handedKeys_workerStep hd]
      exact h.front
    · rw [handedKeys_workerStep hd]
      exact h.running (running_of_workerStep hd)
  | intrude | lose | accept | oskSent | own | worker => exact h.frame rfl rfl rfl

/-- A step of another party leaves the worker of the server as it is. -/
theorem worker_of_others {a : Network.Act} (hs : w.step cfg t a = some w')
    (ha : ∀ b, a ≠ .worker b) : w'.deadman.worker = w.deadman.worker := by
  cases Network.step_trans hs with
  | oskSent hsend hd hserver => exact (setOsk_eq_some hd).1
  | @worker b => exact absurd rfl (ha b)
  | connect | intrude | lose | client | cutRequests | cutAcks | accept | proto | own
  | clientWorker => rfl

theorem clientWorker_of_others {a : Network.Act} (hs : w.step cfg t a = some w')
    (ha : ∀ b, a ≠ .clientWorker b) : w'.clientDeadman.worker = w.clientDeadman.worker := by
  cases Network.step_trans hs with
  | client hconns hd hclient => exact (clientStep_account hd hclient).1
  | @clientWorker b => exact absurd rfl (ha b)
  | connect | intrude | lose | oskSent | cutRequests | cutAcks | accept | proto | own
  | worker => rfl

end Client

/-! ### Agreement -/

/-- The invariant of the deployment. -/
structure NetworkInv (cfg : Config) (w : Network) : Prop where
  linked : Linked cfg w.ends
  client : ClientAccount w
  refines : w.server.Refines
  passed : Passed w.deadman w.server
  server : w.server.tasks.length < connectionIds →
    Delivers w.server ∧ (w.server.ended = none → Complete w.server)

theorem networkInv_new (cfg : Config) : NetworkInv cfg Network.new :=
  ⟨linked_new cfg, clientAccount_new, TcpServer.refines_new, passed_new,
    fun _ => ⟨delivers_new, fun _ => complete_new⟩⟩

section Agreement
variable {cfg : Config} {t : Timings} {w w' : Network}

theorem NetworkInv.streams_length (h : NetworkInv cfg w) :
    w.streams.length = w.server.tasks.length := h.linked.streams_length

theorem NetworkInv.keys (h : NetworkInv cfg w) :
    w.clientKeys = (w.conns.map fun conn => conn.client.keys).flatten := h.linked.keys

theorem NetworkInv.server_step (h : NetworkInv cfg w) {server : TcpServer} {a : TcpServer.Act}
    (hs : w.server.step cfg.ext cfg.server a = some server)
    (hlt : server.tasks.length < connectionIds) :
    Delivers server ∧ (server.ended = none → Complete server) := by
  have hlt' : w.server.tasks.length < connectionIds :=
    (TcpServer.step_tasks_length hs).trans_lt hlt
  obtain ⟨hd, hc⟩ := h.server hlt'
  exact ⟨step_delivers h.refines hd hs hlt, step_complete h.refines hd hc hs hlt'⟩

/-- **Every step of the deployment keeps its invariant.** -/
theorem step_networkInv {a : Network.Act} (h : NetworkInv cfg w) (hs : w.step cfg t a = some w') :
    NetworkInv cfg w' := by
  have hlinked := step_linked h.linked hs
  have hclient := step_clientAccount h.client hs
  cases Network.step_trans hs with
  | connect | intrude | lose | client | cutRequests | cutAcks | clientWorker =>
    exact ⟨hlinked, hclient, h.refines, h.passed, h.server⟩
  | accept hb hserver | proto hk ht hi hconn hio hserver =>
    exact ⟨hlinked, hclient, TcpServer.step_refines h.refines hserver,
      passed_step h.passed (by simp) hserver, h.server_step hserver⟩
  | own hserver hacc hsent hproto =>
    exact ⟨hlinked, hclient, TcpServer.step_refines h.refines hserver,
      passed_step h.passed hsent hserver, h.server_step hserver⟩
  | oskSent hsend hd hserver =>
    exact ⟨hlinked, hclient, TcpServer.step_refines h.refines hserver,
      passed_oskSent h.passed hsend hd hserver, h.server_step hserver⟩
  | worker hd =>
    have hhanded := handed_workerStep hd
    exact ⟨hlinked, hclient, h.refines, ⟨hhanded ▸ h.passed.front, hhanded ▸ h.passed.running⟩,
      h.server⟩

theorem run_networkInv {acts : List Network.Act}
    (hrun : run (Network.step cfg t) Network.new acts = some w) : NetworkInv cfg w :=
  run_invariant step_networkInv (networkInv_new cfg) hrun

/-- The key comes from a connection of the client. -/
def fromClient (w : Network) (forward : ConnectionId × SetOsk) : Bool :=
  (w.streams[forward.1]?.join).isSome

/-- The keys forwarded from one stream are among those its task negotiated, in order. -/
theorem valuesOf_forwarded_sublist {s : TcpServer} (hr : s.Refines) (hd : Delivers s) {i : ℕ}
    {task : Task} (ht : s.tasks[i]? = some task) :
    (valuesOf i s.forwarded).Sublist (task.proto.keys.map setFreshOsk) := by
  refine List.Sublist.trans ?_ (hd.sent i task ht).front.sublist
  rw [hr.forwarded_eq]
  refine valuesOf_sublist ((forwarded_sublist_oskCalls s.received).trans ?_)
  unfold events
  rw [oskCalls_append]
  exact List.sublist_append_left _ _

/-- The streams whose keys were forwarded were accepted, in the order in which they were. -/
theorem forwarded_ordered {s : TcpServer} (hr : s.Refines)
    (hlt : s.tasks.length < connectionIds) :
    s.forwarded.Pairwise (fun e e' => e.1 ≤ e'.1) ∧ ∀ e ∈ s.forwarded, e.1 < s.tasks.length := by
  rw [← hr.accepts_eq] at hlt ⊢
  obtain ⟨hnext, hinv⟩ := run_inv hlt
  rw [hr.forwarded_eq]
  refine ⟨List.pairwise_map.mp hinv.fwd_sorted, fun e he => ?_⟩
  rw [← hnext]
  exact hinv.fwd_lt e.1 (List.mem_map_of_mem he)

theorem NetworkInv.fromClient_sublist (h : NetworkInv cfg w) (hm : Mirrored cfg.server cfg.client)
    (hk : cfg.Consistent) (hlt : w.server.tasks.length < connectionIds) :
    ((w.server.forwarded.filter (fromClient w)).map fun f => f.2.key).Sublist w.clientKeys := by
  obtain ⟨hsorted, hbound⟩ := forwarded_ordered h.refines hlt
  have hcalls : ((w.server.forwarded.filter (fromClient w)).map Prod.snd).Sublist
      ((List.range w.server.tasks.length).flatMap fun i =>
        (((w.streams.map fun stream => stream.elim [] (keysOn w.ends))[i]?).getD []).map
          setFreshOsk) := by
    refine sublist_flatMap_of_sorted (hsorted.sublist List.filter_sublist)
      (fun e he => hbound e (List.mem_filter.mp he).1) fun i hi => ?_
    have htask := List.getElem?_eq_getElem hi
    rw [← h.streams_length] at hi
    have hstream := List.getElem?_eq_getElem hi
    rw [List.getElem?_map, hstream, Option.map_some, Option.getD_some]
    cases hc : w.streams[i] with
    | none =>
      -- the keys of another host are left out
      rw [valuesOf_eq_nil fun e he hei => ?_]
      · exact List.nil_sublist _
      · have hfrom := (List.mem_filter.mp he).2
        unfold fromClient at hfrom
        rw [hei, hstream, hc] at hfrom
        cases hfrom
    | some c =>
      rw [hc] at hstream
      obtain ⟨conn, hconn⟩ : ∃ conn, w.conns[c]? = some conn :=
        ⟨_, List.getElem?_eq_getElem (h.linked.streams_lt hstream)⟩
      have hlink := h.linked.served i _ c conn htask hstream hconn
      have hkeys : keysOn w.ends c = conn.client.keys := keysOn_eq hconn
      rw [Option.elim_some, hkeys]
      refine ((valuesOf_sublist List.filter_sublist).trans
        (valuesOf_forwarded_sublist h.refines (h.server hlt).1 htask)).trans ?_
      exact ((hlink.keys_prefix hm hk).map setFreshOsk).sublist
  have hkeys := hcalls.map SetOsk.key
  rw [List.map_map, List.map_flatMap] at hkeys
  refine hkeys.trans ?_
  have hall := flatMap_range_getElem? (w.streams.map fun stream => stream.elim [] (keysOn w.ends))
  rw [List.length_map, h.streams_length] at hall
  simp only [List.map_map, Function.comp_def, setFreshOsk, List.map_id']
  rw [hall]
  exact h.linked.streams_sublist

theorem length_current_le (d : DeadmanWorker) : (current d).length ≤ 1 := by
  unfold current
  cases d.pc <;> simp

theorem length_pendingKeys_le (conns : List Conn) : (pendingKeys conns).length ≤ 1 := by
  unfold pendingKeys
  cases (conns.map Conn.client).getLast? with
  | none => exact Nat.zero_le _
  | some p =>
    simp only [Option.map_some, Option.getD_some, clientPending]
    cases p.pc <;> simp

/-- What the worker has not passed on yet is the request it has taken and those in the queue. -/
theorem length_handedKeys_le (d : OskDeadman) :
    (handedKeys d).length ≤ (freshCalls d.worker.calls).length + 1 + d.queue.length := by
  have hcurrent : (freshCalls (current d.worker)).length ≤ 1 :=
    (List.length_filter_le _ _).trans (length_current_le d.worker)
  have hqueue : (freshCalls (d.queue.map requestCall)).length ≤ d.queue.length :=
    (List.length_filter_le _ _).trans_eq (List.length_map _)
  unfold handedKeys handed
  rw [List.length_map, freshCalls_append, freshCalls_append, List.length_append, List.length_append]
  omega

/-- **Agreement among other hosts.** In every run of a deployment with fewer than `2 ^ 64`
connections, whatever other hosts send on connections of their own: the keys the server passes on
from connections of the client are a subsequence of the keys the client negotiated. The client loses
none of these as long as the worker of its deadman runs, and all but ten at most have reached its
broker. -/
theorem honest_agreement (hm : Mirrored cfg.server cfg.client) (hk : cfg.Consistent)
    {acts : List Network.Act} (hrun : run (Network.step cfg t) Network.new acts = some w)
    (hlt : w.server.tasks.length < connectionIds) :
    ((w.server.forwarded.filter (fromClient w)).map fun f => f.2.key).Sublist w.clientKeys ∧
      (handedKeys w.clientDeadman ++ pendingKeys w.conns).Sublist w.clientKeys ∧
      (w.clientDeadman.worker.pc.stopped = false →
        handedKeys w.clientDeadman ++ pendingKeys w.conns = w.clientKeys ∧
          w.clientKeys.length ≤
            (freshCalls w.clientDeadman.worker.calls).length + requestCapacity + 2) := by
  have hinv := run_networkInv hrun
  refine ⟨hinv.fromClient_sublist hm hk hlt, hinv.client.front, fun hworker => ?_⟩
  have heq := hinv.client.running hworker
  refine ⟨heq, ?_⟩
  have hhanded := length_handedKeys_le w.clientDeadman
  have hpending := length_pendingKeys_le w.conns
  have hqueue := hinv.client.queue_le
  rw [← heq, List.length_append]
  omega

end Agreement

/-! ### A sample run -/

/-- Both ends rekey every two minutes. -/
def sampleTimings : Timings := ⟨⟨150, 2 ^ 63 - 1⟩, ⟨150, 2 ^ 63 - 1⟩⟩

/-- One round on the first connection of the client, which is the stream `i`. -/
def sampleRound (i : StreamId) : List Network.Act :=
  [.server (.task i (.proto (.fetched (sampleAnswer (sampleKey 1)) (zeroed 32)))),
    .server (.task i (.proto (.wrote 48))),
    .client (.read (RekeyReq.new (sampleKey 1).id.asBytes (zeroed 32)).asBytes),
    .client (.fetched (sampleAnswer (sampleKey 1))), .client .wroteAck,
    .server (.task i (.proto (.read rekeyAck.dummyData))), .server (.task i .sendOsk)]

/-- Another host connects first and acknowledges a request it cannot know the key of; then a key is
negotiated with the client. -/
def sampleIntrusion : List Network.Act :=
  [.intrude, .connect, .server .accept, .server .accept,
    .worker (.broker (zeroed 32) .ok), .worker (.arm 0),
    .server (.task 0 (.proto (.fetched (sampleAnswer (sampleKey 1)) (Vector.replicate 32 7)))),
    .server (.task 0 (.proto (.wrote 48))),
    .server (.task 0 (.proto (.read rekeyAck.dummyData))), .server (.task 0 .sendOsk),
    .server .recv, .server .oskSent] ++ sampleRound 1 ++ [.server .recv, .server .oskSent]

theorem honest_agreement_sample :
    ∃ w, run (Network.step (sampleConfig (sampleKey 1) (sampleKey 1)) sampleTimings)
        Network.new sampleIntrusion = some w ∧
      w.server.forwarded.length = 2 ∧ (w.server.forwarded.filter (fromClient w)).length = 1 ∧
      ((w.server.forwarded.filter (fromClient w)).map fun f => f.2.key).Sublist w.clientKeys := by
  have h : ((run (Network.step (sampleConfig (sampleKey 1) (sampleKey 1)) sampleTimings)
      Network.new sampleIntrusion).map fun w => (w.server.forwarded.length,
        (w.server.forwarded.filter (fromClient w)).length, w.server.tasks.length)) =
      some (2, 1, 2) := by
    decide +kernel
  obtain ⟨w, hw, he⟩ := Option.map_eq_some_iff.mp h
  obtain ⟨hall, he⟩ := Prod.mk.inj he
  obtain ⟨hone, hlen⟩ := Prod.mk.inj he
  refine ⟨w, hw, hall, hone, (honest_agreement (sampleConfig_mirrored _ _)
    (sampleConfig_consistent _) hw ?_).1⟩
  rw [hlen]
  decide

end Daisyway.Net.Deployment
