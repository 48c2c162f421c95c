import Daisyway.Net.Links

/-! # Client and server

The whole system: one client that opens connections one after the other and runs its protocol on
each, the TCP connections, the server with its tasks, and the deadman with its worker. Every
interleaving of their steps is a run: connections can be lost before they are accepted, either
direction of each can be cut at any byte, tasks are aborted at any await, and what is in a stream or
in a queue stays there when its sender is gone. Connections are accepted in the order in which they
were opened.

Its two ends (`World.ends`) are linked in every run. -/

namespace Daisyway.Net.System

open Daisyway.Prim Daisyway.Crypto.Basics Daisyway.Crypto.Kdf Daisyway.Crypto.Protocol
open Daisyway.Crypto.Lockstep Daisyway.Lib.Run Daisyway.Lib.Lists Daisyway.Osk.Deadman
open Daisyway.Net.Manager Daisyway.Net.Server Daisyway.Net.Delivery Daisyway.Net.Links

/-! ### The model -/

structure World where
  server : TcpServer
  /-- The connections the client opened, in order, with its end of each. -/
  conns : List Conn
  /-- The connections that are not accepted yet. -/
  backlog : List ℕ
  /-- The connection of each accepted stream. -/
  streams : List ℕ
  /-- The keys `wait_for_key_negotiation` returned, over all connections. -/
  clientKeys : List Key
  deadman : OskDeadman
  deriving DecidableEq

namespace World

def new : World := ⟨TcpServer.new, [], [], [], [], OskDeadman.start⟩

/-- The client is between two connections: its protocol has returned an error, or it has not started
yet. -/
def disconnected (w : World) : Bool :=
  match w.conns.getLast? with
  | none => true
  | some conn =>
    match conn.client.pc with
    | .failed _ => true
    | _ => false

inductive Act where
  | connect
  /-- A connection that is not accepted yet is lost. -/
  | lose (c : ℕ)
  /-- A step of the client on its last connection. -/
  | client (a : ClientProtocol.Act)
  /-- A direction of a connection breaks; `n` of the bytes in flight still arrive. -/
  | cutRequests (c n : ℕ)
  | cutAcks (c n : ℕ)
  | server (a : TcpServer.Act)
  /-- A step of the worker of the deadman. -/
  | worker (a : WorkerAct)
  deriving DecidableEq

variable (cfg : Config) (t : Timing)

def clientStep (w : World) (a : ClientProtocol.Act) : Option World :=
  w.conns.getLast?.bind fun conn =>
    (conn.clientStep cfg a).map fun conn' =>
      { w with
        conns := w.conns.dropLast ++ [conn']
        clientKeys := w.clientKeys ++ conn'.client.keys.drop conn.client.keys.length }

/-- A step of the server, together with what it takes from or gives to the others: an accept takes
the oldest connection of the backlog, the protocol of a task reads and writes its stream and asks
the KME, and the OSK handler of the manager is the deadman. -/
def serverStep (w : World) (a : TcpServer.Act) : Option World :=
  match a with
  | .accept =>
    match w.backlog with
    | c :: rest =>
      (w.server.step cfg.ext cfg.server .accept).map fun server =>
        { w with server, backlog := rest, streams := w.streams ++ [c] }
    | [] => none
  | .oskSent =>
    w.server.sending.bind fun sending =>
      (w.deadman.setOsk sending.call).bind fun deadman =>
        (w.server.step cfg.ext cfg.server .oskSent).map fun server => { w with server, deadman }
  | .oskFailed =>
    if w.deadman.worker.pc.stopped = true then
      (w.server.step cfg.ext cfg.server .oskFailed).map fun server => { w with server }
    else none
  | .task i (.proto pa) =>
    if cfg.kme.allowsServer pa = true then
      w.server.tasks[i]?.bind fun task =>
        w.streams[i]?.bind fun c =>
          w.conns[c]?.bind fun conn =>
            (conn.serverIo task.proto pa).bind fun conn' =>
              (w.server.step cfg.ext cfg.server (.task i (.proto pa))).map fun server =>
                { w with server, conns := w.conns.set c conn' }
    else none
  | a => (w.server.step cfg.ext cfg.server a).map fun server => { w with server }

/-- One step of the system. -/
def step (w : World) : Act → Option World
  | .connect =>
    if w.disconnected then
      some { w with conns := w.conns ++ [Conn.new], backlog := w.backlog ++ [w.conns.length] }
    else none
  | .lose c => some { w with backlog := w.backlog.erase c }
  | .client a => w.clientStep cfg a
  | .cutRequests c n =>
    w.conns[c]?.map fun conn =>
      { w with conns := w.conns.set c { conn with requests := conn.requests.cutAt n } }
  | .cutAcks c n =>
    w.conns[c]?.map fun conn =>
      { w with conns := w.conns.set c { conn with acks := conn.acks.cutAt n } }
  | .server a => w.serverStep cfg a
  | .worker a =>
    (w.deadman.workerStep t w.server.ended.isSome a).map fun deadman => { w with deadman }

end World

/-! ### All connections -/

/-- The two ends of the system; there are no connections of other hosts. -/
def World.ends (w : World) : Ends :=
  ⟨w.server, w.conns, w.backlog.map some, w.streams.map some, w.clientKeys⟩

section Steps
variable {cfg : Config} {t : Timing} {w w' : World}

theorem linked_clientStep (h : Linked cfg w.ends) {a : ClientProtocol.Act}
    (hs : w.clientStep cfg a = some w') : Linked cfg w'.ends := by
  obtain ⟨conn, hlast, hs⟩ := Option.bind_eq_some_iff.mp hs
  obtain ⟨conn', hstep, rfl⟩ := Option.map_eq_some_iff.mp hs
  obtain ⟨front, hconns⟩ := List.getLast?_eq_some_iff.mp hlast
  have hfront : w.conns.dropLast = front := by rw [hconns, List.dropLast_concat]
  rw [hfront]
  exact linked_client h hconns hstep

/-- What a step of the server does to the system. -/
inductive ServerTrans (cfg : Config) (w : World) : TcpServer.Act → World → Prop
  | accept {server : TcpServer} {c : ℕ} {rest : List ℕ} (hb : w.backlog = c :: rest)
      (hs : w.server.step cfg.ext cfg.server .accept = some server) :
      ServerTrans cfg w .accept { w with server, backlog := rest, streams := w.streams ++ [c] }
  | oskSent {server : TcpServer} {sending : Sending} {deadman : OskDeadman}
      (hsend : w.server.sending = some sending) (hd : w.deadman.setOsk sending.call = some deadman)
      (hs : w.server.step cfg.ext cfg.server .oskSent = some server) :
      ServerTrans cfg w .oskSent { w with server, deadman }
  | proto {server : TcpServer} {i : ℕ} {pa : ServerProtocol.Act} {task : Task} {c : ℕ}
      {conn conn' : Conn} (hk : cfg.kme.allowsServer pa = true)
      (ht : w.server.tasks[i]? = some task) (hi : w.streams[i]? = some c)
      (hconn : w.conns[c]? = some conn) (hio : conn.serverIo task.proto pa = some conn')
      (hs : w.server.step cfg.ext cfg.server (.task i (.proto pa)) = some server) :
      ServerTrans cfg w (.task i (.proto pa)) { w with server, conns := w.conns.set c conn' }
  | own {server : TcpServer} {a : TcpServer.Act}
      (hs : w.server.step cfg.ext cfg.server a = some server) (hacc : a ≠ .accept)
      (hsent : a ≠ .oskSent) (hproto : ∀ i pa, a ≠ .task i (.proto pa)) :
      ServerTrans cfg w a { w with server }

theorem serverStep_trans {a : TcpServer.Act} (hs : w.serverStep cfg a = some w') :
    ServerTrans cfg w a w' := by
  unfold World.serverStep at hs
  split at hs
  · split at hs
    · next c rest hb =>
      obtain ⟨server, hserver, rfl⟩ := Option.map_eq_some_iff.mp hs
      exact .accept hb hserver
    · cases hs
  · obtain ⟨sending, hsend, hs⟩ := Option.bind_eq_some_iff.mp hs
    obtain ⟨deadman, hd, hs⟩ := Option.bind_eq_some_iff.mp hs
    obtain ⟨server, hserver, rfl⟩ := Option.map_eq_some_iff.mp hs
    exact .oskSent hsend hd hserver
  · split_ifs at hs
    obtain ⟨server, hserver, rfl⟩ := Option.map_eq_some_iff.mp hs
    exact .own hserver (by simp) (by simp) (by simp)
  · next i pa =>
    split_ifs at hs with hk
    obtain ⟨task, ht, hs⟩ := Option.bind_eq_some_iff.mp hs
    obtain ⟨c, hi, hs⟩ := Option.bind_eq_some_iff.mp hs
    obtain ⟨conn, hconn, hs⟩ := Option.bind_eq_some_iff.mp hs
    obtain ⟨conn', hio, hs⟩ := Option.bind_eq_some_iff.mp hs
    obtain ⟨server, hserver, rfl⟩ := Option.map_eq_some_iff.mp hs
    exact .proto hk ht hi hconn hio hserver
  · next hacc hsent _ hproto =>
    obtain ⟨server, hserver, rfl⟩ := Option.map_eq_some_iff.mp hs
    exact .own hserver hacc hsent hproto

/-- **Every step of the system keeps its connections linked.** -/
theorem step_linked (h : Linked cfg w.ends) {a : World.Act} (hs : w.step cfg t a = some w') :
    Linked cfg w'.ends := by
  cases a with
  | connect =>
    simp only [World.step] at hs
    split_ifs at hs
    cases hs
    simpa [World.ends] using linked_connect h
  | lose c =>
    cases hs
    exact h.setBacklog ((List.erase_sublist.map some).filterMap id)
  | client a => exact linked_clientStep h hs
  | cutRequests c n =>
    obtain ⟨conn, hc, rfl⟩ := Option.map_eq_some_iff.mp hs
    exact h.setConn hc rfl fun p hp => hp.cutRequests n
  | cutAcks c n =>
    obtain ⟨conn, hc, rfl⟩ := Option.map_eq_some_iff.mp hs
    exact h.setConn hc rfl fun p hp => hp.cutAcks n
  | server a =>
    cases serverStep_trans hs with
    | @accept server c rest hb hserver =>
      have hbacklog : w.ends.backlog = some c :: rest.map some := congrArg (List.map some) hb
      simpa [World.ends] using linked_accept h hbacklog hserver
    | oskSent hsend hd hserver => exact linked_own h hserver (by simp) (by simp)
    | @proto server i pa task c conn conn' hk ht hi hconn hio hserver =>
      have hstream : w.ends.streams[i]? = some (some c) := by simp [World.ends, hi]
      exact linked_proto h hk ht hstream hconn hio hserver
    | own hserver hacc hsent hproto =>
      exact linked_own h hserver hacc fun i pa he => absurd he (hproto i pa)
  | worker a =>
    obtain ⟨deadman, hd, rfl⟩ := Option.map_eq_some_iff.mp hs
    exact h

end Steps

end Daisyway.Net.System
