import Daisyway.Crypto.Lockstep
import Daisyway.Net.Delivery

/-! # The links between client and server

One client opens connections to the server one after the other, and other hosts may open connections
of their own; the server accepts connections in the order in which they were opened and starts a
task for each. `Ends` are the two ends with what is between them, and nothing else of the system
they are part of.

`Linked` carries the invariant of one connection (`LinkInv`) to all connections of the client, and
says that the keys the client negotiated are those of its connections in order. What can happen
between the two ends are a few operations (a connection is opened, lost, cut or accepted; the
client, a task on its stream or the server on its own takes a step), and each of them keeps the
invariant. -/

namespace Daisyway.Net.Links

open Daisyway.Prim Daisyway.Crypto.Basics Daisyway.Crypto.Kdf Daisyway.Crypto.Protocol
open Daisyway.Crypto.Lockstep Daisyway.Lib.Run Daisyway.Lib.Lists
open Daisyway.Net.Manager Daisyway.Net.Server Daisyway.Net.Delivery

structure Ends where
  server : TcpServer
  /-- The connections the client opened, in order, with its end of each. -/
  conns : List Conn
  /-- The connections that are not accepted yet; `none` is a connection of another host. -/
  backlog : List (Option ℕ)
  /-- The connection of each accepted stream. -/
  streams : List (Option ℕ)
  /-- The keys `wait_for_key_negotiation` of the client returned, over all connections. -/
  clientKeys : List Key

/-- The invariant of the connections of the client: the accepted ones and those in the backlog are
in the order in which they were opened, each is in lockstep with the task that serves it, and the
client's keys are those of its connections in order. -/
structure Linked (cfg : Config) (w : Ends) : Prop where
  streams_length : w.streams.length = w.server.tasks.length
  ordered : (w.streams ++ w.backlog).reduceOption.Pairwise (· < ·)
  bounded : ∀ c, some c ∈ w.streams ++ w.backlog → c < w.conns.length
  served : ∀ (i : ℕ) (task : Task) (c : ℕ) (conn : Conn), w.server.tasks[i]? = some task →
    w.streams[i]? = some (some c) → w.conns[c]? = some conn → LinkInv cfg task.proto conn
  unserved : ∀ (c : ℕ) (conn : Conn), some c ∉ w.streams → w.conns[c]? = some conn →
    LinkInv cfg ServerProtocol.new conn
  keys : w.clientKeys = (w.conns.map fun conn => conn.client.keys).flatten

theorem linked_new (cfg : Config) : Linked cfg ⟨TcpServer.new, [], [], [], []⟩ where
  streams_length := rfl
  ordered := List.Pairwise.nil
  bounded := by intro c h; cases h
  served := by intro i task c conn h; simp [TcpServer.new] at h
  unserved := by intro c conn _ h; simp at h
  keys := rfl

section Linked
variable {cfg : Config} {w : Ends}

theorem Linked.streams_lt (h : Linked cfg w) {i c : ℕ} (hi : w.streams[i]? = some (some c)) :
    c < w.conns.length :=
  h.bounded c (List.mem_append_left _ (List.mem_of_getElem? hi))

/-- A connection is served by one task. -/
theorem Linked.streams_inj (h : Linked cfg w) {i j c : ℕ} (hi : w.streams[i]? = some (some c))
    (hj : w.streams[j]? = some (some c)) : i = j := by
  have hs := h.ordered
  rw [List.reduceOption_append] at hs
  exact eq_of_reduceOption_ordered (List.pairwise_append.mp hs).1 hi hj

/-- Every connection of the client keeps the invariant of a link. -/
theorem Linked.conn (h : Linked cfg w) {conn : Conn} (hconn : conn ∈ w.conns) :
    ∃ p, LinkInv cfg p conn := by
  obtain ⟨c, hc⟩ := List.mem_iff_getElem?.mp hconn
  by_cases hserved : some c ∈ w.streams
  · obtain ⟨i, hi⟩ := List.mem_iff_getElem?.mp hserved
    have hlt : i < w.server.tasks.length :=
      h.streams_length ▸ (List.getElem?_eq_some_iff.mp hi).1
    exact ⟨_, h.served i _ c conn (List.getElem?_eq_getElem hlt) hi hc⟩
  · exact ⟨_, h.unserved c conn hserved hc⟩

/-- A step on the connections that keeps them in lockstep with any server. -/
theorem Linked.setConns (h : Linked cfg w) {conns : List Conn} {keys : List Key}
    (hlen : conns.length = w.conns.length)
    (hc : ∀ (c : ℕ) (conn' : Conn), conns[c]? = some conn' → ∃ conn, w.conns[c]? = some conn ∧
      ∀ p, LinkInv cfg p conn → LinkInv cfg p conn')
    (hkeys : keys = (conns.map fun conn => conn.client.keys).flatten) :
    Linked cfg { w with conns, clientKeys := keys } := by
  refine ⟨h.streams_length, h.ordered, ?_, ?_, ?_, hkeys⟩
  · intro c hmem
    rw [hlen]
    exact h.bounded c hmem
  · intro i task c conn' ht hi hconn
    obtain ⟨conn, hold, himp⟩ := hc c conn' hconn
    exact himp _ (h.served i task c conn ht hi hold)
  · intro c conn' hnot hconn
    obtain ⟨conn, hold, himp⟩ := hc c conn' hconn
    exact himp _ (h.unserved c conn hnot hold)

/-- A cut of one connection. -/
theorem Linked.setConn (h : Linked cfg w) {c : ℕ} {conn conn' : Conn} (hc : w.conns[c]? = some conn)
    (hclient : conn'.client = conn.client)
    (hinv : ∀ p, LinkInv cfg p conn → LinkInv cfg p conn') :
    Linked cfg { w with conns := w.conns.set c conn' } := by
  refine h.setConns (List.length_set ..) (fun d other hd => ?_) ?_
  · rcases getElem?_set_cases hd with ⟨rfl, rfl⟩ | ⟨-, hd⟩
    · exact ⟨conn, hc, hinv⟩
    · exact ⟨other, hd, fun _ hp => hp⟩
  · rw [h.keys, map_set_of_eq hc (by rw [hclient])]

/-- The client adds keys and takes none back. -/
theorem clientStep_keys {conn conn' : Conn} {a : ClientProtocol.Act}
    (hs : conn.clientStep cfg a = some conn') : conn.client.keys <+: conn'.client.keys := by
  unfold Conn.clientStep at hs
  split_ifs at hs
  obtain ⟨client, hc, hs⟩ := Option.bind_eq_some_iff.mp hs
  obtain ⟨requests, -, rfl⟩ := Option.map_eq_some_iff.mp hs
  cases ClientProtocol.step_trans hc with
  | wroteAck hpc => exact List.prefix_append _ _
  | readSome | readAll | readErr | fetchOk | fetchErr | fetchPanic | writeErr | oskOk | oskErr =>
    exact List.prefix_rfl

theorem linked_client (h : Linked cfg w) {a : ClientProtocol.Act} {front : List Conn}
    {conn conn' : Conn} (hconns : w.conns = front ++ [conn])
    (hs : conn.clientStep cfg a = some conn') :
    Linked cfg { w with
      conns := front ++ [conn']
      clientKeys := w.clientKeys ++ conn'.client.keys.drop conn.client.keys.length } := by
  refine h.setConns ?_ (fun c other hc => ?_) ?_
  · rw [hconns]
    simp
  · rw [hconns]
    rcases getElem?_concat_cases hc with ⟨hlt, hc⟩ | ⟨rfl, rfl⟩
    · exact ⟨other, by rw [List.getElem?_append_left hlt]; exact hc, fun _ hp => hp⟩
    · exact ⟨conn, List.getElem?_concat_length, fun p hp => hp.clientStep hs⟩
  · -- only the keys of the last connection grow
    rw [h.keys, hconns]
    simp only [List.map_append, List.map_cons, List.map_nil, List.flatten_append,
      List.flatten_cons, List.flatten_nil, List.append_nil, List.append_assoc]
    rw [List.prefix_iff_eq_append.mp (clientStep_keys hs)]

theorem linked_connect (h : Linked cfg w) :
    Linked cfg { w with
      conns := w.conns ++ [Conn.new], backlog := w.backlog ++ [some w.conns.length] } := by
  refine ⟨h.streams_length, ?_, ?_, ?_, ?_, ?_⟩
  · rw [← List.append_assoc, List.reduceOption_append, List.reduceOption_singleton,
      Option.toList_some]
    refine List.pairwise_append.mpr ⟨h.ordered, List.pairwise_singleton _ _, fun c hc d hd => ?_⟩
    rw [List.mem_singleton.mp hd]
    exact h.bounded c (List.reduceOption_mem_iff.mp hc)
  · intro c hc
    rw [← List.append_assoc] at hc
    rw [List.length_append, List.length_singleton]
    rcases List.mem_append.mp hc with hc | hc
    · exact (h.bounded c hc).trans (Nat.lt_succ_self _)
    · rw [Option.some.inj (List.mem_singleton.mp hc)]
      exact Nat.lt_succ_self _
  · intro i task c conn ht hi hconn
    rcases getElem?_concat_cases hconn with ⟨-, hold⟩ | ⟨rfl, -⟩
    · exact h.served i task c conn ht hi hold
    · exact absurd (h.streams_lt hi) (lt_irrefl _)
  · intro c conn hnot hconn
    rcases getElem?_concat_cases hconn with ⟨-, hold⟩ | ⟨-, rfl⟩
    · exact h.unserved c conn hnot hold
    · exact LinkInv.new cfg
  · rw [h.keys]
    simp [Conn.new, ClientProtocol.new]

/-- Connections of other hosts come, and connections that are not accepted yet are lost. -/
theorem Linked.setBacklog (h : Linked cfg w) {backlog : List (Option ℕ)}
    (hsub : backlog.reduceOption.Sublist w.backlog.reduceOption) :
    Linked cfg { w with backlog } := by
  have hall : (w.streams ++ backlog).reduceOption.Sublist
      (w.streams ++ w.backlog).reduceOption := by
    rw [List.reduceOption_append, List.reduceOption_append]
    exact (List.Sublist.refl _).append hsub
  refine ⟨h.streams_length, h.ordered.sublist hall, fun c hc => ?_, h.served, h.unserved, h.keys⟩
  exact h.bounded c (List.reduceOption_mem_iff.mp (hall.subset (List.reduceOption_mem_iff.mpr hc)))

/-- A step of the server on no stream of the client. -/
theorem Linked.setServer (h : Linked cfg w) {server : TcpServer}
    (hlen : server.tasks.length = w.server.tasks.length)
    (hp : ∀ (i c : ℕ) (task' : Task), w.streams[i]? = some (some c) →
      server.tasks[i]? = some task' → ∃ task, w.server.tasks[i]? = some task ∧
        ∀ conn, LinkInv cfg task.proto conn → LinkInv cfg task'.proto conn) :
    Linked cfg { w with server } := by
  refine ⟨h.streams_length.trans hlen.symm, h.ordered, h.bounded, ?_, h.unserved, h.keys⟩
  intro i task' c conn ht' hi hconn
  obtain ⟨task, ht, himp⟩ := hp i c task' hi ht'
  exact himp conn (h.served i task c conn ht hi hconn)

theorem linked_accept (h : Linked cfg w) {server : TcpServer} {c : Option ℕ}
    {rest : List (Option ℕ)} (hb : w.backlog = c :: rest)
    (hs : w.server.step cfg.ext cfg.server .accept = some server) :
    Linked cfg { w with server, backlog := rest, streams := w.streams ++ [c] } := by
  have hshift : w.streams ++ [c] ++ rest = w.streams ++ w.backlog := by simp [hb]
  have hnot : ∀ d, c = some d → some d ∉ w.streams := by
    rintro d rfl hmem
    have hord := h.ordered
    rw [hb, List.reduceOption_append, List.reduceOption_cons_of_some] at hord
    exact lt_irrefl d ((List.pairwise_append.mp hord).2.2 d (List.reduceOption_mem_iff.mpr hmem) d
      List.mem_cons_self)
  refine ⟨?_, ?_, ?_, ?_, ?_, h.keys⟩
  · rw [List.length_append, List.length_singleton, h.streams_length,
      TcpServer.step_tasks_length_eq hs, if_pos rfl]
  · rw [hshift]
    exact h.ordered
  · rw [hshift]
    exact h.bounded
  · intro i task' d conn ht' hi hconn
    rcases TcpServer.step_protos hs ht' with
      ⟨task, ht, hproto⟩ | ⟨-, rfl, hproto⟩ | ⟨_, _, _, he, -⟩
    · have hlt : i < w.streams.length := by
        rw [h.streams_length]
        exact (List.getElem?_eq_some_iff.mp ht).1
      rw [List.getElem?_append_left hlt] at hi
      rw [hproto]
      exact h.served i task d conn ht hi hconn
    · -- the new task serves a connection no task has served before
      rw [← h.streams_length, List.getElem?_concat_length, Option.some.injEq] at hi
      rw [hproto]
      exact h.unserved d conn (hnot d hi) hconn
    · cases he
  · intro d conn hd hconn
    exact h.unserved d conn (fun hmem => hd (List.mem_append_left _ hmem)) hconn

/-- A step of the server keeps a task in lockstep, unless it is one of its protocol on the
stream. -/
theorem protos_of_other {s s' : TcpServer} {a : TcpServer.Act} {i : ℕ}
    (hs : s.step cfg.ext cfg.server a = some s') (hacc : a ≠ .accept)
    (hproto : ∀ pa, a ≠ .task i (.proto pa)) {task' : Task} (ht' : s'.tasks[i]? = some task') :
    ∃ task, s.tasks[i]? = some task ∧
      ∀ conn, LinkInv cfg task.proto conn → LinkInv cfg task'.proto conn := by
  rcases TcpServer.step_protos hs ht' with ⟨u, hu, heq⟩ | ⟨he, -⟩ | ⟨ta, u, evs, rfl, hu, hstep⟩
  · exact ⟨u, hu, fun conn hc => heq ▸ hc⟩
  · exact absurd he hacc
  · refine ⟨u, hu, fun conn hc => ?_⟩
    cases Task.step_trans hstep with
    | proto hphase ha hp => exact absurd rfl (hproto _)
    | sendOsk hphase hpc hp => exact hc.oskSet hp
    | sendExit hphase => exact hc
    | cancel halive hab => exact hc

theorem linked_proto (h : Linked cfg w) {server : TcpServer} {i : ℕ} {pa : ServerProtocol.Act}
    {task : Task} {c : ℕ} {conn conn' : Conn} (hk : cfg.kme.allowsServer pa = true)
    (ht : w.server.tasks[i]? = some task) (hi : w.streams[i]? = some (some c))
    (hconn : w.conns[c]? = some conn) (hio : conn.serverIo task.proto pa = some conn')
    (hs : w.server.step cfg.ext cfg.server (.task i (.proto pa)) = some server) :
    Linked cfg { w with server, conns := w.conns.set c conn' } := by
  have hlt : c < w.conns.length := (List.getElem?_eq_some_iff.mp hconn).1
  have hclient : conn'.client = conn.client := by
    obtain ⟨acks, -, rfl⟩ := Option.map_eq_some_iff.mp hio
    rfl
  refine ⟨?_, h.ordered, ?_, ?_, ?_, ?_⟩
  · rw [h.streams_length, TcpServer.step_tasks_length_eq hs, if_neg (by simp), Nat.add_zero]
  · intro d hd
    rw [List.length_set]
    exact h.bounded d hd
  · intro j task' d other ht' hj hother
    by_cases hji : j = i
    · -- the task that takes the step
      subst hji
      obtain rfl : c = d := Option.some.inj (Option.some.inj (hi.symm.trans hj))
      rw [List.getElem?_set_self hlt, Option.some.injEq] at hother
      subst hother
      have hinv := h.served j task c conn ht hi hconn
      cases TcpServer.step_trans hs with
      | @task _ _ u u' evs hu hstep =>
        obtain rfl : u = task := Option.some.inj (hu.symm.trans ht)
        rcases getElem?_set_cases ht' with ⟨-, rfl⟩ | ⟨hne, -⟩
        · cases Task.step_trans hstep with
          | proto hphase ha hp => exact hinv.serverIo hk hp hio
        · exact absurd rfl hne
    · have hdc : d ≠ c := fun hdc => hji (h.streams_inj hj (hdc ▸ hi))
      rw [List.getElem?_set_ne (Ne.symm hdc)] at hother
      obtain ⟨u, hu, himp⟩ := protos_of_other hs (by simp)
        (fun pb he => hji (TcpServer.Act.task.inj he).1.symm) ht'
      exact himp other (h.served j u d other hu hj hother)
  · intro d other hd hother
    rcases getElem?_set_cases hother with ⟨rfl, -⟩ | ⟨-, hother⟩
    · exact absurd (List.mem_of_getElem? hi) hd
    · exact h.unserved d other hd hother
  · rw [h.keys, map_set_of_eq hconn (by rw [hclient])]

/-- A step of the server that is its own, or one of a task on a stream of another host. -/
theorem linked_own (h : Linked cfg w) {server : TcpServer} {a : TcpServer.Act}
    (hs : w.server.step cfg.ext cfg.server a = some server) (hacc : a ≠ .accept)
    (hproto : ∀ i pa, a = .task i (.proto pa) → w.streams[i]? = some none) :
    Linked cfg { w with server } := by
  refine h.setServer ?_ fun i c task' hi ht' => protos_of_other hs hacc (fun pa he => ?_) ht'
  · rw [TcpServer.step_tasks_length_eq hs, if_neg hacc, Nat.add_zero]
  · rw [hproto i pa he] at hi
    cases hi

/-! ### The keys -/

/-- The keys the client negotiated on the connection `c`. -/
def keysOn (w : Ends) (c : ℕ) : List Key :=
  (w.conns.map fun conn => conn.client.keys)[c]?.getD []

theorem keysOn_eq {c : ℕ} {conn : Conn} (hc : w.conns[c]? = some conn) :
    keysOn w c = conn.client.keys := by
  simp only [keysOn, List.getElem?_map, hc, Option.map_some, Option.getD_some]

/-- The keys of the streams of the client, one after the other, are among its keys. -/
theorem Linked.streams_sublist (h : Linked cfg w) :
    ((w.streams.map fun stream => stream.elim [] (keysOn w)).flatten).Sublist w.clientKeys := by
  have hall : ((List.range w.conns.length).map (keysOn w)).flatten = w.clientKeys := by
    have hflat := flatMap_range_getElem? (w.conns.map fun conn => conn.client.keys)
    rw [List.length_map] at hflat
    rw [h.keys, ← hflat, List.flatMap_def]
    rfl
  have hord := h.ordered
  rw [List.reduceOption_append] at hord
  have hstreams : w.streams.reduceOption.Sublist (List.range w.conns.length) := by
    refine sublist_range (List.pairwise_append.mp hord).1 fun c hc => ?_
    exact h.bounded c (List.mem_append_left _ (List.reduceOption_mem_iff.mp hc))
  rw [flatten_map_elim, ← hall]
  exact (hstreams.map (keysOn w)).flatten

end Linked

end Daisyway.Net.Links
