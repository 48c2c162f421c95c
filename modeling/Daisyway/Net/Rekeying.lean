import Daisyway.Net.EndToEnd
import Daisyway.Setup

/-! # Steady rekeying

The server on a single connection with its deadman and a clock. A task that has put a key into the
queue sleeps for the rekey interval before it negotiates the next one; the deadman erases a key
`rekeyInterval + 30` seconds after it was passed on. So as long as the sleep ends when its timer
fires and the next key reaches the worker less than 30 seconds after that, no erase comes between
two keys: the worker armed its deadline after the first key was put into the queue, and the sleep
began at that moment.

Two things can go wrong. The interval comes unchecked from the configuration, and an instant beyond
the range of the clock is a panic of the worker. And a sleep can end late, while the deadline of the
worker does not wait for it. Nothing else does. -/

namespace Daisyway.Net.Rekeying

open Daisyway.Prim Daisyway.Crypto.Basics Daisyway.Crypto.Protocol
open Daisyway.Lib.Run Daisyway.Lib.Lists Daisyway.Osk.Deadman
open Daisyway.Net.Manager Daisyway.Net.Forwarding Daisyway.Net.Server Daisyway.Net.Delivery
open Daisyway.Net.EndToEnd Daisyway.Setup

/-! ### The model -/

structure Clocked where
  now : ℕ
  server : TcpServer
  deadman : OskDeadman
  /-- When the task has put its keys into the queue; the sleep begins then. -/
  queuedAt : List ℕ
  /-- When the sleeps have ended. -/
  sleptAt : List ℕ
  /-- When the worker has taken the keys. -/
  takenAt : List ℕ
  deriving DecidableEq

namespace Clocked

def new (start : ℕ) : Clocked := ⟨start, TcpServer.new, OskDeadman.start, [], [], []⟩

inductive Act where
  | server (a : TcpServer.Act)
  | worker (a : WorkerAct)
  deriving DecidableEq

/-- The action is the return of the send of a task's OSK handler. -/
def isSend : TcpServer.Act → Bool
  | .task _ .sendOsk => true
  | _ => false

/-- The action is the end of a task's sleep. -/
def isSlept : TcpServer.Act → Bool
  | .task _ (.proto .slept) => true
  | _ => false

/-- When the timer of the sleep after the last key fires. -/
def wakesAt (rekeyInterval : ℕ) (c : Clocked) : Option ℕ :=
  c.queuedAt.getLast?.map (· + rekeyInterval)

/-- The timer of the sleep has fired. -/
def awake (rekeyInterval : ℕ) (c : Clocked) (now : ℕ) : Bool :=
  (c.wakesAt rekeyInterval).all (· ≤ now)

section
variable (E : Externals) (params : DaisywayProtocolParameters) (rekeyInterval : ℕ) (t : Timing)

/-- A step of the server: there is one connection, the sleep of its task takes its time, and the OSK
handler of the manager is the deadman. -/
def serverStep (c : Clocked) (now : ℕ) (a : TcpServer.Act) : Option (TcpServer × OskDeadman) :=
  match a with
  | .accept =>
    if c.server.tasks = [] then (c.server.step E params .accept).map (·, c.deadman) else none
  | .oskSent =>
    c.server.sending.bind fun sending =>
      (c.deadman.setOsk sending.call).bind fun deadman =>
        (c.server.step E params .oskSent).map (·, deadman)
  | .oskFailed =>
    if c.deadman.worker.pc.stopped = true then
      (c.server.step E params .oskFailed).map (·, c.deadman)
    else none
  | .task i (.proto .slept) =>
    if c.awake rekeyInterval now then
      (c.server.step E params (.task i (.proto .slept))).map (·, c.deadman)
    else none
  | a => (c.server.step E params a).map (·, c.deadman)

/-- The worker takes a key. -/
def Act.takes : Act → Bool
  | .worker (.received _) => true
  | _ => false

/-- A sleep of the task ends. -/
def Act.wakes : Act → Bool
  | .server a => isSlept a
  | .worker _ => false

/-- One step at the instant `now`. -/
def step (c : Clocked) (act : ℕ × Act) : Option Clocked :=
  let (now, a) := act
  if c.now ≤ now then
    match a with
    | .server a =>
      (c.serverStep E params rekeyInterval now a).map fun (server, deadman) =>
        { c with
          now
          server
          deadman
          queuedAt := if isSend a ∧ c.server.ended = none then c.queuedAt ++ [now] else c.queuedAt
          sleptAt := if isSlept a then c.sleptAt ++ [now] else c.sleptAt }
    | .worker a =>
      if a.reads now then
        (c.deadman.workerStep t c.server.ended.isSome a).map fun deadman =>
          { c with
            now
            deadman
            takenAt := if (Act.worker a).takes then c.takenAt ++ [now] else c.takenAt }
      else none
  else none

end

/-- When the last key the worker has taken was put into the queue. -/
def lastQueued (c : Clocked) : Option ℕ :=
  match c.takenAt.length with
  | 0 => none
  | k + 1 => c.queuedAt[k]?

theorem lastQueued_eq_some {c : Clocked} {q : ℕ} :
    c.lastQueued = some q ↔ ∃ k, c.takenAt.length = k + 1 ∧ c.queuedAt[k]? = some q := by
  unfold lastQueued
  cases c.takenAt.length <;> simp

/-- When the sleep after the last key the worker has taken has ended. -/
def lastSlept (c : Clocked) : Option ℕ :=
  match c.takenAt.length with
  | 0 => none
  | k + 1 => c.sleptAt[k]?

/-- The round condition: the worker takes a key, other than the first one, less than 30 seconds
after the end of the sleep that followed the key before. -/
def InTime (c : Clocked) (act : ℕ × Act) : Prop :=
  act.2.takes = true → ∀ e ∈ c.lastSlept, act.1 < e + 30

instance (c : Clocked) (act : ℕ × Act) : Decidable (c.InTime act) :=
  inferInstanceAs (Decidable (act.2.takes = true → ∀ e ∈ c.lastSlept, _))

/-- A sleep ends when its timer fires. -/
def OnTime (rekeyInterval : ℕ) (c : Clocked) (act : ℕ × Act) : Prop :=
  act.2.wakes = true → ∀ w ∈ c.wakesAt rekeyInterval, act.1 ≤ w

instance (rekeyInterval : ℕ) (c : Clocked) (act : ℕ × Act) :
    Decidable (c.OnTime rekeyInterval act) :=
  inferInstanceAs (Decidable (act.2.wakes = true → ∀ w ∈ c.wakesAt rekeyInterval, _))

section
variable {E : Externals} {params : DaisywayProtocolParameters} {rekeyInterval : ℕ} {t : Timing}
  {c c' : Clocked} {now : ℕ}

theorem serverStep_cases {a : TcpServer.Act} {server : TcpServer} {deadman : OskDeadman}
    (hs : c.serverStep E params rekeyInterval now a = some (server, deadman)) :
    c.server.step E params a = some server ∧ (a = .accept → c.server.tasks = []) ∧
      ((a ≠ .oskSent ∧ deadman = c.deadman) ∨
        (a = .oskSent ∧ ∃ sending, c.server.sending = some sending ∧
          c.deadman.setOsk sending.call = some deadman)) := by
  have hmap : ∀ {b : TcpServer.Act}, (c.server.step E params b).map (·, c.deadman) =
      some (server, deadman) → c.server.step E params b = some server ∧ deadman = c.deadman := by
    intro b h
    obtain ⟨s, hstep, he⟩ := Option.map_eq_some_iff.mp h
    obtain ⟨rfl, rfl⟩ := Prod.mk.inj he
    exact ⟨hstep, rfl⟩
  unfold serverStep at hs
  split at hs
  · split_ifs at hs with htasks
    exact ⟨(hmap hs).1, fun _ => htasks, Or.inl ⟨by simp, (hmap hs).2⟩⟩
  · obtain ⟨sending, hsend, hs⟩ := Option.bind_eq_some_iff.mp hs
    obtain ⟨d, hd, hs⟩ := Option.bind_eq_some_iff.mp hs
    obtain ⟨s, hstep, he⟩ := Option.map_eq_some_iff.mp hs
    obtain ⟨rfl, rfl⟩ := Prod.mk.inj he
    exact ⟨hstep, by simp, Or.inr ⟨rfl, sending, hsend, hd⟩⟩
  · split_ifs at hs
    exact ⟨(hmap hs).1, by simp, Or.inl ⟨by simp, (hmap hs).2⟩⟩
  · split_ifs at hs
    exact ⟨(hmap hs).1, by simp, Or.inl ⟨by simp, (hmap hs).2⟩⟩
  · next hacc hne _ _ =>
    exact ⟨(hmap hs).1, fun he => absurd he hacc, Or.inl ⟨hne, (hmap hs).2⟩⟩

/-- What a step can do: one of the server or one of the worker, not before the step before. -/
theorem step_cases {a : Act} (hs : c.step E params rekeyInterval t (now, a) = some c') :
    c.now ≤ now ∧
      ((∃ sa server deadman, a = .server sa ∧ c.server.step E params sa = some server ∧
          (sa = .accept → c.server.tasks = []) ∧
          ((sa ≠ .oskSent ∧ deadman = c.deadman) ∨
            (sa = .oskSent ∧ ∃ sending, c.server.sending = some sending ∧
              c.deadman.setOsk sending.call = some deadman)) ∧
          c' = { c with
            now
            server
            deadman
            queuedAt :=
              if isSend sa ∧ c.server.ended = none then c.queuedAt ++ [now] else c.queuedAt
            sleptAt := if isSlept sa then c.sleptAt ++ [now] else c.sleptAt }) ∨
        ∃ wa deadman, a = .worker wa ∧ wa.reads now = true ∧
          c.deadman.workerStep t c.server.ended.isSome wa = some deadman ∧
          c' = { c with
            now
            deadman
            takenAt := if a.takes then c.takenAt ++ [now] else c.takenAt }) := by
  unfold step at hs
  dsimp only at hs
  split_ifs at hs with hnow
  refine ⟨hnow, ?_⟩
  cases a with
  | server sa =>
    obtain ⟨⟨server, deadman⟩, hstep, rfl⟩ := Option.map_eq_some_iff.mp hs
    obtain ⟨h1, h2, h3⟩ := serverStep_cases hstep
    exact Or.inl ⟨sa, server, deadman, rfl, h1, h2, h3, rfl⟩
  | worker wa =>
    dsimp only at hs
    by_cases hreads : wa.reads now = true
    · rw [if_pos hreads] at hs
      obtain ⟨deadman, hstep, rfl⟩ := Option.map_eq_some_iff.mp hs
      exact Or.inr ⟨wa, deadman, rfl, hreads, hstep, rfl⟩
    · rw [if_neg hreads] at hs
      cases hs

end

end Clocked

/-! ### The keys on their way -/

section Server
variable {E : Externals} {params : DaisywayProtocolParameters} {s s' : TcpServer}
  {a : TcpServer.Act}

/-- A task adds a fresh key to the notifications when its send returns; no other step adds one. -/
theorem step_oskCalls (hs : s.step E params a = some s') :
    ((Clocked.isSend a = true ∧ s.ended = none) ∧ ∃ id key,
      oskCalls (events s') = oskCalls (events s) ++ [(id, setFreshOsk key)]) ∨
    (¬ (Clocked.isSend a = true ∧ s.ended = none) ∧
      oskCalls (events s') = oskCalls (events s)) := by
  cases TcpServer.step_trans hs with
  | accept hi =>
    refine Or.inr ⟨by simp [Clocked.isSend], ?_⟩
    simp only [events, TcpServer.onEvent, oskCalls_append, oskCalls, List.append_nil]
  | @recv ev rest hi hq =>
    refine Or.inr ⟨by simp [Clocked.isSend], ?_⟩
    simp only [events, TcpServer.onEvent, hq, List.map_cons, List.append_assoc,
      List.singleton_append]
  | acceptFailed hi | oskSent hsend | oskFailed hsend =>
    exact Or.inr ⟨by simp [Clocked.isSend], rfl⟩
  | @task i ta u u' evs hu hstep =>
    have hev : oskCalls (events { s with tasks := s.tasks.set i u', queue := s.queue ++ evs }) =
        oskCalls (events s) ++ oskCalls (evs.map ConnectionHandlerEvent.toStreamEvent) := by
      simp only [events, List.map_append, ← List.append_assoc, oskCalls_append]
    rw [hev]
    cases Task.step_trans hstep with
    | proto | cancel =>
      exact Or.inr ⟨by simp [Clocked.isSend], List.append_nil _⟩
    | sendExit =>
      refine Or.inr ⟨by simp [Clocked.isSend], ?_⟩
      cases s.ended <;> exact List.append_nil _
    | @sendOsk key p =>
      cases hend : s.ended with
      | none => exact Or.inl ⟨⟨rfl, rfl⟩, u.connectionId, key, rfl⟩
      | some why => exact Or.inr ⟨by simp, List.append_nil _⟩

/-- All keys on their way through the server are fresh. -/
structure FreshOnly (s : TcpServer) : Prop where
  events : ∀ x ∈ oskCalls (events s), x.2.reason = .fresh
  sending : ∀ call ∈ sendingCalls s, call.reason = .fresh

theorem freshOnly_new : FreshOnly TcpServer.new where
  events := by intro x h; cases h
  sending := by intro call h; cases h

/-- The manager passes on the key of the event. -/
theorem sendingCalls_onEvent (s : TcpServer) (ev : StreamEvent) {call : SetOsk}
    (h : call ∈ sendingCalls (s.onEvent ev)) : ∃ id, ev = .osk id call.key call.reason := by
  have hsent : sendingCalls (s.onEvent ev) = (s.manager.onEvent ev).2.setOsk.toList := by
    simp only [sendingCalls, TcpServer.onEvent, Option.map_map, Function.comp_def, Option.map_id']
  rw [hsent] at h
  have ht := onEvent_trans s.manager ev
  generalize s.manager.onEvent ev = r at ht h
  obtain ⟨m', e⟩ := r
  cases ht with
  | accept | exitActive | exitBudding | exitUnknown | oskIgnored => cases h
  | @oskActive id | @oskBudding id =>
    obtain rfl := List.mem_singleton.mp h
    exact ⟨id, rfl⟩

theorem step_freshOnly (h : FreshOnly s) (hs : s.step E params a = some s') : FreshOnly s' := by
  refine ⟨fun x hx => ?_, fun call hcall => ?_⟩
  · rcases step_oskCalls hs with ⟨-, id, key, he⟩ | ⟨-, he⟩
    · rw [he] at hx
      rcases List.mem_append.mp hx with hx | hx
      · exact h.events x hx
      · rw [List.mem_singleton.mp hx]
        rfl
    · rw [he] at hx
      exact h.events x hx
  · cases TcpServer.step_trans hs with
    | accept hi =>
      obtain ⟨id, he⟩ := sendingCalls_onEvent _ _ hcall
      cases he
    | @recv ev rest hi hq =>
      obtain ⟨id, he⟩ := sendingCalls_onEvent _ _ hcall
      refine h.events (id, call) ?_
      simp only [Delivery.events, hq, List.map_cons, he, oskCalls_append, oskCalls]
      exact List.mem_append_right _ List.mem_cons_self
    | acceptFailed | oskFailed | oskSent => cases hcall
    | task ht hstep => exact h.sending call hcall

end Server

/-- The account of the keys: every key the worker has taken was put into the queue before. -/
structure Accounts (c : Clocked) : Prop where
  refines : c.server.Refines
  passed : Passed c.deadman c.server
  freshOnly : FreshOnly c.server
  requests : ∀ req ∈ c.deadman.queue, (requestCall req).reason = .fresh
  sent : (oskCalls (events c.server)).length = c.queuedAt.length
  taken : c.takenAt.length =
    (freshCalls (c.deadman.worker.calls ++ current c.deadman.worker)).length
  times : ∀ q ∈ c.queuedAt, q ≤ c.now

theorem accounts_new (start : ℕ) : Accounts (Clocked.new start) where
  refines := TcpServer.refines_new
  passed := passed_new
  freshOnly := freshOnly_new
  requests := by intro req h; cases h
  sent := rfl
  taken := rfl
  times := by intro q h; cases h

/-- No more keys have been given to the worker than were put into the queue. -/
theorem Accounts.taken_le {c : Clocked} (h : Accounts c) :
    c.takenAt.length + c.deadman.queue.length ≤ c.queuedAt.length := by
  have hhanded : (handed c.deadman).length = c.takenAt.length + c.deadman.queue.length := by
    have hall : freshCalls (c.deadman.queue.map requestCall) = c.deadman.queue.map requestCall := by
      unfold freshCalls
      rw [List.filter_eq_self]
      intro call hcall
      obtain ⟨req, hreq, rfl⟩ := List.mem_map.mp hcall
      simpa using h.requests req hreq
    unfold handed
    rw [freshCalls_append, List.length_append, ← h.taken, hall, List.length_map]
  have hforwarded : (handed c.deadman).length ≤ c.server.forwarded.length := by
    have h1 := h.passed.front.length_le
    have h2 : (freshCalls (c.server.forwarded.map Prod.snd)).length ≤
        c.server.forwarded.length := by
      have := List.length_filter_le (fun call : SetOsk => call.reason = .fresh)
        (c.server.forwarded.map Prod.snd)
      rwa [List.length_map] at this
    rw [List.length_append] at h1
    omega
  have hevents : c.server.forwarded.length ≤ (oskCalls (events c.server)).length := by
    have hsub := (forwarded_sublist_oskCalls c.server.received).length_le
    unfold events
    rw [h.refines.forwarded_eq, oskCalls_append, List.length_append]
    omega
  rw [← h.sent]
  omega

section Steps
variable {E : Externals} {params : DaisywayProtocolParameters} {rekeyInterval : ℕ} {t : Timing}
  {c : Clocked} {now : ℕ}

/-- A step of the server does not touch the worker. -/
theorem worker_of_server {a : TcpServer.Act} {deadman : OskDeadman}
    (hd : (a ≠ .oskSent ∧ deadman = c.deadman) ∨
      (a = .oskSent ∧ ∃ sending, c.server.sending = some sending ∧
        c.deadman.setOsk sending.call = some deadman)) :
    deadman.worker = c.deadman.worker := by
  rcases hd with ⟨-, rfl⟩ | ⟨-, sending, -, hset⟩
  · rfl
  · unfold OskDeadman.setOsk at hset
    split_ifs at hset
    cases hset
    rfl

theorem accounts_server (h : Accounts c) (hnow : c.now ≤ now) {a : TcpServer.Act}
    {server : TcpServer} {deadman : OskDeadman} (hs : c.server.step E params a = some server)
    (hd : (a ≠ .oskSent ∧ deadman = c.deadman) ∨
      (a = .oskSent ∧ ∃ sending, c.server.sending = some sending ∧
        c.deadman.setOsk sending.call = some deadman)) :
    Accounts { c with
      now
      server
      deadman
      queuedAt :=
        if Clocked.isSend a ∧ c.server.ended = none then c.queuedAt ++ [now] else c.queuedAt
      sleptAt := if Clocked.isSlept a then c.sleptAt ++ [now] else c.sleptAt } := by
  refine ⟨TcpServer.step_refines h.refines hs, ?_, step_freshOnly h.freshOnly hs, ?_, ?_, ?_, ?_⟩
  · rcases hd with ⟨hne, rfl⟩ | ⟨rfl, sending, hsend, hset⟩
    · exact passed_step h.passed hne hs
    · exact passed_oskSent h.passed hsend hset hs
  · rcases hd with ⟨-, rfl⟩ | ⟨-, sending, hsend, hset⟩
    · exact h.requests
    · unfold OskDeadman.setOsk at hset
      split_ifs at hset
      cases hset
      intro req hreq
      rcases List.mem_append.mp hreq with hreq | hreq
      · exact h.requests req hreq
      · rw [List.mem_singleton.mp hreq]
        exact h.freshOnly.sending sending.call (by simp [sendingCalls, hsend])
  · rcases step_oskCalls hs with ⟨hsend, id, key, he⟩ | ⟨hsend, he⟩
    · simp only [if_pos hsend, he, List.length_append, h.sent, List.length_singleton]
    · simp only [if_neg hsend, he, h.sent]
  · simp only [worker_of_server hd, h.taken]
  · intro q hq
    simp only at hq ⊢
    split_ifs at hq
    · rcases List.mem_append.mp hq with hq | hq
      · exact (h.times q hq).trans hnow
      · exact (List.mem_singleton.mp hq).le
    · exact (h.times q hq).trans hnow

theorem accounts_worker (h : Accounts c) (hnow : c.now ≤ now) {closed : Bool} {a : WorkerAct}
    {deadman : OskDeadman} (hs : c.deadman.workerStep t closed a = some deadman) :
    Accounts { c with
      now
      deadman
      takenAt := if (Clocked.Act.worker a).takes then c.takenAt ++ [now] else c.takenAt } := by
  have hhanded := handed_workerStep hs
  obtain ⟨hw, hcases⟩ := workerStep_cases hs
  refine ⟨h.refines, ⟨?_, ?_⟩, h.freshOnly, ?_, h.sent, ?_, fun q hq => (h.times q hq).trans hnow⟩
  · rw [hhanded]
    exact h.passed.front
  · rw [hhanded]
    exact h.passed.running
  · rcases hcases with ⟨req, -, hq⟩ | ⟨-, hq⟩
    · intro r hr
      exact h.requests r (by rw [hq]; exact List.mem_cons_of_mem _ hr)
    · simp only [hq]
      exact h.requests
  · rcases hcases with ⟨req, rfl, hq⟩ | ⟨hne, hq⟩
    · obtain ⟨key, reason⟩ := req
      obtain ⟨n, hpc, hwork⟩ := step_received hw
      obtain rfl : reason = .fresh :=
        h.requests (.setOsk key reason) (by rw [hq]; exact List.mem_cons_self)
      have hcurrent : current c.deadman.worker = [] := by simp [current, hpc]
      have htaken := h.taken
      rw [hcurrent, List.append_nil] at htaken
      simp only [hwork, Clocked.Act.takes, if_true, List.length_append, htaken, current,
        freshCalls_append]
      rfl
    · have hnot : (Clocked.Act.worker a).takes = false := by
        cases a with
        | received req => exact absurd rfl (hne req)
        | arm | closed | elapsed | broker => rfl
      simp only [hnot, Bool.false_eq_true, if_false, worker_step_calls hw hne, h.taken]

end Steps

/-! ### The sleeps of the task -/

/-- The task of the connection sleeps. -/
def Asleep (s : TcpServer) : Prop := ∃ t, s.tasks[0]? = some t ∧ t.proto.pc = .sleep

section Asleep
variable {E : Externals} {params : DaisywayProtocolParameters} {s s' : TcpServer}
  {a : TcpServer.Act}

/-- A step of the manager leaves the task asleep or awake. -/
theorem asleep_of_manager (hs : s.step E params a = some s') (hacc : a ≠ .accept)
    (ha : ∀ i ta, a ≠ .task i ta) : Asleep s' ↔ Asleep s := by
  have hlen : s'.tasks.length = s.tasks.length := by
    rw [TcpServer.step_tasks_length_eq hs, if_neg hacc, Nat.add_zero]
  have hold : ∀ {t'}, s'.tasks[0]? = some t' → ∃ t, s.tasks[0]? = some t ∧ t'.proto = t.proto := by
    intro t' ht'
    rcases TcpServer.step_protos hs ht' with h | ⟨he, -⟩ | ⟨ta, _, _, he, -⟩
    · exact h
    · exact absurd he hacc
    · exact absurd he (ha 0 ta)
  constructor
  · rintro ⟨t', ht', hpc⟩
    obtain ⟨t, ht, hproto⟩ := hold ht'
    exact ⟨t, ht, hproto ▸ hpc⟩
  · rintro ⟨t, ht, hpc⟩
    have hlt : 0 < s'.tasks.length := hlen ▸ (List.getElem?_eq_some_iff.mp ht).1
    obtain ⟨t1, ht1, hproto⟩ := hold (List.getElem?_eq_getElem hlt)
    obtain rfl : t1 = t := Option.some.inj (ht1.symm.trans ht)
    exact ⟨_, List.getElem?_eq_getElem hlt, hproto ▸ hpc⟩

/-- An await of the protocol other than its OSK handler: it is asleep before the end of a sleep and
at no other time. -/
theorem sleep_of_proto {p p' : ServerProtocol} {pa : ServerProtocol.Act}
    (hs : p.step E params pa = some p') (hosk : isOskSet pa = false) :
    (p.pc = .sleep ↔ pa = .slept) ∧ p'.pc ≠ .sleep := by
  cases ServerProtocol.step_trans hs with
  | fetchOk hpc | fetchErr hpc | fetchPanic hpc => simp [hpc]
  | wroteSome hpc | wroteAll hpc | writeErr hpc => simp [hpc]
  | readOk hpc | readBad hpc | readErr hpc => simp [hpc, ServerProtocol.complete]
  | oskOk hpc | oskErr hpc => cases hosk
  | slept hpc => simp [hpc]

/-- What a step of the server does to the sleep of the task: it begins when a key is put into the
queue, and ends with the action that says so. -/
inductive SleepTrans (s : TcpServer) (a : TcpServer.Act) (s' : TcpServer) : Prop
  | begins (hsend : Clocked.isSend a = true ∧ s.ended = none) (hslept : Clocked.isSlept a = false)
      (hbefore : ¬ Asleep s) (hafter : Asleep s')
  | ends (hsend : ¬ (Clocked.isSend a = true ∧ s.ended = none)) (hslept : Clocked.isSlept a = true)
      (hbefore : Asleep s) (hafter : ¬ Asleep s')
  | stays (hsend : ¬ (Clocked.isSend a = true ∧ s.ended = none))
      (hslept : Clocked.isSlept a = false) (hiff : Asleep s' ↔ Asleep s)

theorem sleepTrans_accept (hs : s.step E params .accept = some s') (hnil : s.tasks = []) :
    SleepTrans s .accept s' := by
  refine .stays (by simp [Clocked.isSend]) rfl ⟨?_, ?_⟩
  · rintro ⟨t', ht', hpc⟩
    rcases TcpServer.step_protos hs ht' with ⟨t, ht, -⟩ | ⟨-, -, hproto⟩ | ⟨_, _, _, he, -⟩
    · rw [hnil] at ht
      cases ht
    · rw [hproto] at hpc
      cases hpc
    · cases he
  · rintro ⟨t, ht, -⟩
    rw [hnil] at ht
    cases ht

theorem isSlept_proto {i : StreamId} {pa : ServerProtocol.Act} (h : pa ≠ .slept) :
    Clocked.isSlept (.task i (.proto pa)) = false := by
  cases pa with
  | slept => exact absurd rfl h
  | fetched | wrote | writeFailed | read | readFailed | oskSet => rfl

theorem sleepTrans_task {u u' : Task} {ta : TaskAct} {evs : List ConnectionHandlerEvent}
    (hu : s.tasks[0]? = some u) (hstep : u.step E params s.ended.isSome ta = some (u', evs)) :
    SleepTrans s (.task 0 ta) { s with tasks := s.tasks.set 0 u', queue := s.queue ++ evs } := by
  have hbefore : Asleep s ↔ u.proto.pc = .sleep := by simp [Asleep, hu]
  have hafter : Asleep { s with tasks := s.tasks.set 0 u', queue := s.queue ++ evs } ↔
      u'.proto.pc = .sleep := by
    have hlt : 0 < s.tasks.length := (List.getElem?_eq_some_iff.mp hu).1
    simp [Asleep, List.getElem?_set_self hlt]
  cases Task.step_trans hstep with
  | @proto pa p hphase hosk hp =>
    obtain ⟨hiff, hne⟩ := sleep_of_proto hp hosk
    have hsend : Clocked.isSend (.task 0 (.proto pa)) = false := rfl
    by_cases hslept : pa = .slept
    · subst hslept
      exact .ends (by simp [hsend]) rfl (hbefore.mpr (hiff.mpr rfl)) fun h => hne (hafter.mp h)
    · exact .stays (by simp [hsend]) (isSlept_proto hslept)
        ⟨fun h => absurd (hafter.mp h) hne, fun h => absurd (hiff.mp (hbefore.mp h)) hslept⟩
  | @sendOsk key p hphase hpc hp =>
    cases hend : s.ended with
    | none =>
      rw [hend] at hp
      cases ServerProtocol.step_trans hp with
      | oskOk => exact .begins ⟨rfl, hend⟩ rfl (by simp [hbefore, hpc]) (hafter.mpr rfl)
    | some why =>
      rw [hend] at hp
      cases ServerProtocol.step_trans hp with
      | oskErr =>
        exact .stays (by simp [hend]) rfl (hafter.trans (by simp [hbefore, hpc, Task.afterStep]))
  | sendExit | cancel =>
    exact .stays (by simp [Clocked.isSend]) rfl (hafter.trans hbefore.symm)

/-- **When the task falls asleep and wakes up**, with one connection. -/
theorem step_sleepTrans (hs : s.step E params a = some s') (hone : s.tasks.length ≤ 1)
    (hacc : a = .accept → s.tasks = []) : SleepTrans s a s' := by
  cases TcpServer.step_trans hs with
  | accept hi => exact sleepTrans_accept hs (hacc rfl)
  | recv hi hq | acceptFailed hi | oskSent hsend | oskFailed hsend =>
    exact .stays (by simp [Clocked.isSend]) rfl (asleep_of_manager hs (by simp) (by simp))
  | @task i ta u u' evs hu hstep =>
    obtain rfl : i = 0 :=
      Nat.lt_one_iff.mp ((List.getElem?_eq_some_iff.mp hu).1.trans_le hone)
    exact sleepTrans_task hu hstep

end Asleep

/-- The account of the sleeps: each of the keys put into the queue is followed by a sleep, which has
ended unless the task is asleep, and each sleep has ended when its timer fired. -/
structure Sleeps (rekeyInterval : ℕ) (c : Clocked) : Prop where
  one : c.server.tasks.length ≤ 1
  asleep : Asleep c.server → c.queuedAt.length = c.sleptAt.length + 1
  awake : ¬ Asleep c.server → c.queuedAt.length = c.sleptAt.length
  onTime : ∀ (k q e : ℕ), c.queuedAt[k]? = some q → c.sleptAt[k]? = some e → e ≤ q + rekeyInterval

theorem sleeps_new (rekeyInterval start : ℕ) : Sleeps rekeyInterval (Clocked.new start) where
  one := Nat.zero_le 1
  asleep := by rintro ⟨t, ht, -⟩; cases ht
  awake := fun _ => rfl
  onTime := by intro k q e hq; cases hq

section Sleeps
variable {E : Externals} {params : DaisywayProtocolParameters} {rekeyInterval : ℕ} {c : Clocked}
  {now : ℕ}

theorem sleeps_server (h : Sleeps rekeyInterval c) {a : TcpServer.Act} {server : TcpServer}
    {deadman : OskDeadman} (hs : c.server.step E params a = some server)
    (hacc : a = .accept → c.server.tasks = [])
    (honTime : c.OnTime rekeyInterval (now, .server a)) :
    Sleeps rekeyInterval { c with
      now
      server
      deadman
      queuedAt :=
        if Clocked.isSend a ∧ c.server.ended = none then c.queuedAt ++ [now] else c.queuedAt
      sleptAt := if Clocked.isSlept a then c.sleptAt ++ [now] else c.sleptAt } := by
  have hone : server.tasks.length ≤ 1 := by
    rw [TcpServer.step_tasks_length_eq hs]
    split_ifs with he
    · rw [hacc he]
      rfl
    · exact h.one
  cases step_sleepTrans hs h.one hacc with
  | begins hsend hslept hbefore hafter =>
    simp only [if_pos hsend, hslept, Bool.false_eq_true, if_false]
    have hlen := h.awake hbefore
    refine ⟨hone, fun _ => by rw [List.length_append, hlen]; rfl, fun hn => absurd hafter hn,
      fun k q e hq he => ?_⟩
    -- the sleep that begins has not ended yet, so the sleep at `k` is an earlier one
    have hk : k < c.queuedAt.length := hlen ▸ (List.getElem?_eq_some_iff.mp he).1
    rw [List.getElem?_append_left hk] at hq
    exact h.onTime k q e hq he
  | ends hsend hslept hbefore hafter =>
    simp only [if_neg hsend, hslept, if_true]
    have hlen := h.asleep hbefore
    refine ⟨hone, fun hn => absurd hn hafter, fun _ => by rw [List.length_append, hlen]; rfl,
      fun k q e hq he => ?_⟩
    rcases getElem?_concat_cases he with ⟨-, he⟩ | ⟨rfl, rfl⟩
    · exact h.onTime k q e hq he
    · refine honTime hslept (q + rekeyInterval) ?_
      have hlast : c.queuedAt.getLast? = some q := by
        rw [List.getLast?_eq_getElem?, hlen]
        exact hq
      simp [Clocked.wakesAt, hlast]
  | stays hsend hslept hiff =>
    simp only [if_neg hsend, hslept, Bool.false_eq_true, if_false]
    exact ⟨hone, fun ha => h.asleep (hiff.mp ha), fun hn => h.awake fun ha => hn (hiff.mpr ha),
      h.onTime⟩

/-- A key the worker takes is in time: the one before was put into the queue less than `eraseAfter`
ago. -/
theorem lt_of_takes (h : Sleeps rekeyInterval c) (hacc : Accounts c) {req : DeadmanRequest}
    (hin : c.InTime (now, .worker (.received req))) (hqueue : c.deadman.queue ≠ []) {q : ℕ}
    (hq : c.lastQueued = some q) : now < q + rekeyInterval + 30 := by
  obtain ⟨k, hk, hget⟩ := Clocked.lastQueued_eq_some.mp hq
  -- another key is in the queue of the worker, so the sleep after the key at `k` has ended
  have hended : k < c.sleptAt.length := by
    have htaken := hacc.taken_le
    have hpos := List.length_pos_iff.mpr hqueue
    have hslept : c.queuedAt.length ≤ c.sleptAt.length + 1 := by
      by_cases ha : Asleep c.server
      · exact (h.asleep ha).le
      · exact (h.awake ha).le.trans (Nat.le_succ _)
    omega
  have hend : c.sleptAt[k]? = some c.sleptAt[k] := List.getElem?_eq_getElem hended
  have hlast : c.lastSlept = some c.sleptAt[k] := by
    unfold Clocked.lastSlept
    rw [hk]
    exact hend
  have htime : now < c.sleptAt[k] + 30 := hin rfl _ hlast
  have hon := h.onTime k q _ hget hend
  omega

end Sleeps

/-! ### The deadline of the worker -/

/-- Between two fresh keys there is no erase. -/
def NoEraseBetween (calls : List SetOsk) : Prop :=
  ∀ (i m j : ℕ) (x e y : SetOsk), i < m → m < j → calls[i]? = some x → calls[m]? = some e →
    calls[j]? = some y → x.reason = .fresh → y.reason = .fresh → e.reason = .fresh

/-- Erases, then fresh keys, then erases. -/
structure Phases (calls before keys afterwards : List SetOsk) : Prop where
  calls_eq : calls = before ++ keys ++ afterwards
  before : ∀ x ∈ before, x.reason = .stale
  keys : ∀ x ∈ keys, x.reason = .fresh
  afterwards : ∀ x ∈ afterwards, x.reason = .stale

section Phases
variable {calls before keys afterwards : List SetOsk}

/-- The fresh keys are those in the middle. -/
theorem Phases.fresh_iff (h : Phases calls before keys afterwards) {i : ℕ} {x : SetOsk}
    (hx : calls[i]? = some x) :
    x.reason = .fresh ↔ before.length ≤ i ∧ i < before.length + keys.length := by
  have hne : ∀ {x : SetOsk}, x.reason = .stale → x.reason ≠ .fresh := by
    intro x hs hf
    rw [hs] at hf
    cases hf
  rw [h.calls_eq] at hx
  by_cases h1 : i < before.length
  · rw [List.append_assoc, List.getElem?_append_left h1] at hx
    have := hne (h.before x (List.mem_of_getElem? hx))
    exact ⟨fun hf => absurd hf this, fun hi => by omega⟩
  · by_cases h2 : i < before.length + keys.length
    · rw [List.getElem?_append_left (by rw [List.length_append]; exact h2),
        List.getElem?_append_right (by omega)] at hx
      exact ⟨fun _ => ⟨by omega, h2⟩, fun _ => h.keys x (List.mem_of_getElem? hx)⟩
    · rw [List.getElem?_append_right (by rw [List.length_append]; omega)] at hx
      have := hne (h.afterwards x (List.mem_of_getElem? hx))
      exact ⟨fun hf => absurd hf this, fun hi => by omega⟩

theorem Phases.noEraseBetween (h : Phases calls before keys afterwards) : NoEraseBetween calls := by
  intro i m j x e y him hmj hx he hy hxf hyf
  have hi := (h.fresh_iff hx).mp hxf
  have hj := (h.fresh_iff hy).mp hyf
  exact (h.fresh_iff he).mpr ⟨by omega, by omega⟩

theorem Phases.erase (h : Phases calls before keys afterwards) {call : SetOsk}
    (hcall : call.reason = .stale) :
    Phases (calls ++ [call]) before keys (afterwards ++ [call]) := by
  refine ⟨by rw [h.calls_eq, List.append_assoc], h.before, h.keys, fun x hx => ?_⟩
  rcases List.mem_append.mp hx with hx | hx
  · exact h.afterwards x hx
  · rw [List.mem_singleton.mp hx]
    exact hcall

theorem Phases.fresh (h : Phases calls before keys []) {call : SetOsk}
    (hcall : call.reason = .fresh) : Phases (calls ++ [call]) before (keys ++ [call]) [] := by
  refine ⟨?_, h.before, fun x hx => ?_, h.afterwards⟩
  · rw [h.calls_eq, List.append_nil, List.append_nil, List.append_assoc]
  · rcases List.mem_append.mp hx with hx | hx
    · exact h.keys x hx
    · rw [List.mem_singleton.mp hx]
      exact hcall

theorem phases_of_stale (h : ∀ x ∈ calls, x.reason = .stale) : Phases calls calls [] [] where
  calls_eq := by simp
  before := h
  keys := by intro x hx; cases hx
  afterwards := by intro x hx; cases hx

end Phases

/-- The reason of the call the worker makes next, if it is about to make one. -/
def NextCall (pc : WorkerPc) (reason : SetOskReason) : Prop :=
  ∀ random call, pc.brokerCall random = some call → call.reason = reason

/-- How far the worker is. While the keys come in time, its deadline is `eraseAfter` after the last
key was put into the queue, or later; after the deadline it takes no more keys. -/
inductive Mode (eraseAfter : ℕ) (c : Clocked) : Prop
  /-- No key was taken yet. -/
  | waiting (htaken : c.takenAt = []) (hcalls : ∀ x ∈ c.deadman.worker.calls, x.reason = .stale)
      (hnext : NextCall c.deadman.worker.pc .stale)
  /-- The last key taken was put into the queue at `q`. -/
  | steady {q : ℕ} {before keys : List SetOsk} (hq : c.lastQueued = some q)
      (hcalls : Phases c.deadman.worker.calls before keys [])
      (hnext : NextCall c.deadman.worker.pc .fresh)
      (hdeadline : ∀ n, c.deadman.worker.pc = .recv n → q + eraseAfter ≤ n)
  /-- The deadline has passed. -/
  | late {q : ℕ} {before keys afterwards : List SetOsk} (hq : c.lastQueued = some q)
      (hnow : q + eraseAfter ≤ c.now)
      (hcalls : Phases c.deadman.worker.calls before keys afterwards)
      (hnext : NextCall c.deadman.worker.pc .stale)
  /-- The channel was closed, or the thread has ended. -/
  | ended {before keys afterwards : List SetOsk}
      (hpc : c.deadman.worker.pc = .close ∨ c.deadman.worker.pc.stopped = true)
      (hcalls : Phases c.deadman.worker.calls before keys afterwards)

theorem mode_new (eraseAfter start : ℕ) : Mode eraseAfter (Clocked.new start) := by
  refine .waiting rfl (fun x hx => by cases hx) fun random call hcall => ?_
  rw [← Option.some.inj hcall]
  rfl

theorem Mode.noEraseBetween {eraseAfter : ℕ} {c : Clocked} (h : Mode eraseAfter c) :
    NoEraseBetween c.deadman.worker.calls := by
  cases h with
  | waiting htaken hcalls hnext => exact (phases_of_stale hcalls).noEraseBetween
  | steady hq hcalls => exact hcalls.noEraseBetween
  | late hq hnow hcalls => exact hcalls.noEraseBetween
  | ended hpc hcalls => exact hcalls.noEraseBetween

section Mode
variable {E : Externals} {params : DaisywayProtocolParameters} {rekeyInterval eraseAfter : ℕ}
  {t : Timing} {c c' : Clocked} {now : ℕ}

/-- A step of the server leaves the worker where it is. -/
theorem Mode.of_server (h : Mode eraseAfter c) (hnow : c.now ≤ c'.now)
    (hworker : c'.deadman.worker = c.deadman.worker) (htaken : c'.takenAt = c.takenAt)
    (hqueued : ∀ q, c.lastQueued = some q → c'.lastQueued = some q) : Mode eraseAfter c' := by
  cases h with
  | waiting h1 hcalls hnext =>
    exact .waiting (htaken ▸ h1) (hworker ▸ hcalls) (hworker ▸ hnext)
  | steady hq hcalls hnext hdeadline =>
    exact .steady (hqueued _ hq) (hworker ▸ hcalls) (hworker ▸ hnext)
      (hworker ▸ hdeadline)
  | late hq hlate hcalls hnext =>
    exact .late (hqueued _ hq) (hlate.trans hnow) (hworker ▸ hcalls)
      (hworker ▸ hnext)
  | ended hpc hcalls => exact .ended (hworker ▸ hpc) (hworker ▸ hcalls)

/-- A worker that is not about to call the broker. -/
theorem nextCall_of_none {pc : WorkerPc} (h : ∀ random, pc.brokerCall random = none)
    (reason : SetOskReason) : NextCall pc reason := by
  intro random call hcall
  rw [h random] at hcall
  cases hcall

theorem afterCall_cases (pc : WorkerPc) (res : BrokerResult) :
    (∀ random, (pc.afterCall res).brokerCall random = none) ∧
      (∀ n, pc.afterCall res ≠ .recv n) ∧ (pc = .close → (pc.afterCall res).stopped = true) := by
  cases res with
  | ok =>
    by_cases hclose : pc = .close
    · simp [WorkerPc.afterCall, hclose, WorkerPc.brokerCall, WorkerPc.stopped]
    · simp [WorkerPc.afterCall, hclose, WorkerPc.brokerCall]
  | err | panicked => simp [WorkerPc.afterCall, WorkerPc.brokerCall, WorkerPc.stopped]

/-- A worker that has ended computes no deadline and waits for no request. -/
theorem not_ended {pc : WorkerPc} (hpc : pc = .arm ∨ ∃ n, pc = .recv n) :
    ¬ (pc = .close ∨ pc.stopped = true) := by
  rcases hpc with rfl | ⟨n, rfl⟩ <;> simp [WorkerPc.stopped]

/-- The worker arms its deadline: it is `eraseAfter` from now. -/
theorem mode_arm (h : Mode eraseAfter c) (hacc : Accounts c) (hnow : c.now ≤ now)
    (hpc : c.deadman.worker.pc = .arm) {deadman : OskDeadman}
    (hcalls' : deadman.worker.calls = c.deadman.worker.calls)
    (hpc' : deadman.worker.pc = .recv (now + eraseAfter) ∨ deadman.worker.pc = .panicked) :
    Mode eraseAfter { c with now, deadman } := by
  have hnone : ∀ random, deadman.worker.pc.brokerCall random = none := by
    intro random
    rcases hpc' with hpc' | hpc' <;> rw [hpc'] <;> rfl
  cases h with
  | waiting h1 hcalls hnext =>
    exact .waiting h1 (hcalls' ▸ hcalls) (nextCall_of_none hnone _)
  | @steady q _ _ hq hcalls hnext hdeadline =>
    refine .steady hq (hcalls' ▸ hcalls) (nextCall_of_none hnone _) fun n hn => ?_
    obtain ⟨k, -, hk⟩ := Clocked.lastQueued_eq_some.mp hq
    have hqnow := hacc.times q (List.mem_of_getElem? hk)
    rcases hpc' with hpc' | hpc'
    · have hn' : n = now + eraseAfter := WorkerPc.recv.inj (hn.symm.trans hpc')
      omega
    · rw [hpc'] at hn
      cases hn
  | late hq hlate hcalls hnext =>
    exact .late hq (hlate.trans hnow) (hcalls' ▸ hcalls) (nextCall_of_none hnone _)
  | ended hended hcalls => exact absurd hended (not_ended (Or.inl hpc))

/-- The worker takes a key: it was put into the queue before, and the deadline has not passed. -/
theorem mode_received (h : Mode eraseAfter c) (hacc : Accounts c) (hnow : c.now ≤ now)
    (hin : ∀ q, c.lastQueued = some q → now < q + eraseAfter) {n : ℕ}
    (hpc : c.deadman.worker.pc = .recv n) (hqueue : c.deadman.queue ≠ []) {deadman : OskDeadman}
    {key : Key} (hcalls' : deadman.worker.calls = c.deadman.worker.calls)
    (hpc' : deadman.worker.pc = .set key .fresh) :
    Mode eraseAfter { c with now, deadman, takenAt := c.takenAt ++ [now] } := by
  have hpos := List.length_pos_iff.mpr hqueue
  have hle := hacc.taken_le
  obtain ⟨q, hget⟩ : ∃ q, c.queuedAt[c.takenAt.length]? = some q :=
    ⟨_, List.getElem?_eq_getElem (by omega)⟩
  have hq : Clocked.lastQueued { c with now, deadman, takenAt := c.takenAt ++ [now] } = some q :=
    Clocked.lastQueued_eq_some.mpr ⟨c.takenAt.length, List.length_append, hget⟩
  have hnext : NextCall deadman.worker.pc .fresh := by
    intro random call hcall
    rw [hpc'] at hcall
    rw [← Option.some.inj hcall]
  have hdeadline : ∀ m, deadman.worker.pc = .recv m → q + eraseAfter ≤ m := by
    intro m hm
    rw [hpc'] at hm
    cases hm
  cases h with
  | waiting h1 hcalls _ =>
    exact .steady hq (hcalls' ▸ phases_of_stale hcalls) hnext hdeadline
  | steady _ hcalls _ _ => exact .steady hq (hcalls' ▸ hcalls) hnext hdeadline
  | late hq' hlate _ _ =>
    have htime := hin _ hq'
    omega
  | ended hended _ => exact absurd hended (not_ended (Or.inr ⟨n, hpc⟩))

/-- The deadline passes: it was not before `eraseAfter` after the last key. -/
theorem mode_elapsed (h : Mode eraseAfter c) (hnow : c.now ≤ now) {n : ℕ}
    (hpc : c.deadman.worker.pc = .recv n) (hn : n ≤ now) {deadman : OskDeadman}
    (hcalls' : deadman.worker.calls = c.deadman.worker.calls)
    (hpc' : deadman.worker.pc = .expire) : Mode eraseAfter { c with now, deadman } := by
  have hnext : NextCall deadman.worker.pc .stale := by
    intro random call hcall
    rw [hpc'] at hcall
    rw [← Option.some.inj hcall]
    rfl
  cases h with
  | waiting h1 hcalls _ => exact .waiting h1 (hcalls' ▸ hcalls) hnext
  | steady hq hcalls _ hdeadline =>
    exact .late hq ((hdeadline n hpc).trans hn) (hcalls' ▸ hcalls) hnext
  | late hq hlate hcalls _ => exact .late hq (hlate.trans hnow) (hcalls' ▸ hcalls) hnext
  | ended hended _ => exact absurd hended (not_ended (Or.inr ⟨n, hpc⟩))

/-- The channel is closed. -/
theorem mode_closed (h : Mode eraseAfter c) {n : ℕ} (hpc : c.deadman.worker.pc = .recv n)
    {deadman : OskDeadman} (hcalls' : deadman.worker.calls = c.deadman.worker.calls)
    (hpc' : deadman.worker.pc = .close) : Mode eraseAfter { c with now, deadman } := by
  cases h with
  | waiting h1 hcalls _ => exact .ended (Or.inl hpc') (hcalls' ▸ phases_of_stale hcalls)
  | steady hq hcalls _ _ => exact .ended (Or.inl hpc') (hcalls' ▸ hcalls)
  | late hq hlate hcalls _ => exact .ended (Or.inl hpc') (hcalls' ▸ hcalls)
  | ended hended _ => exact absurd hended (not_ended (Or.inr ⟨n, hpc⟩))

/-- The broker is called. -/
theorem mode_broker (h : Mode eraseAfter c) (hnow : c.now ≤ now) {random : Key}
    {res : BrokerResult} {call : SetOsk}
    (hcall : c.deadman.worker.pc.brokerCall random = some call) {deadman : OskDeadman}
    (hworker : deadman.worker =
      ⟨c.deadman.worker.pc.afterCall res, c.deadman.worker.calls ++ [call]⟩) :
    Mode eraseAfter { c with now, deadman } := by
  obtain ⟨hnone, hrecv, hstop⟩ := afterCall_cases c.deadman.worker.pc res
  have hpc' : deadman.worker.pc = c.deadman.worker.pc.afterCall res := by rw [hworker]
  have hcalls' : deadman.worker.calls = c.deadman.worker.calls ++ [call] := by rw [hworker]
  have hnext : ∀ reason, NextCall deadman.worker.pc reason := by
    intro reason
    rw [hpc']
    exact nextCall_of_none hnone reason
  cases h with
  | waiting h1 hcalls hreason =>
    refine .waiting h1 (fun x hx => ?_) (hnext _)
    simp only [hcalls'] at hx
    rcases List.mem_append.mp hx with hx | hx
    · exact hcalls x hx
    · rw [List.mem_singleton.mp hx]
      exact hreason random call hcall
  | steady hq hcalls hreason _ =>
    refine .steady hq (hcalls' ▸ hcalls.fresh (hreason random call hcall)) (hnext _) fun n hn => ?_
    exact absurd (hpc'.symm.trans hn) (hrecv n)
  | late hq hlate hcalls hreason =>
    exact .late hq (hlate.trans hnow) (hcalls' ▸ hcalls.erase (hreason random call hcall))
      (hnext _)
  | ended hended hcalls =>
    have hclose : c.deadman.worker.pc = .close := by
      refine hended.resolve_right fun hs => ?_
      revert hs hcall
      cases c.deadman.worker.pc <;> simp [WorkerPc.stopped, WorkerPc.brokerCall]
    have hstale : call.reason = .stale := by
      rw [hclose] at hcall
      rw [← Option.some.inj hcall]
      rfl
    exact .ended (Or.inr (hpc' ▸ hstop hclose)) (hcalls' ▸ hcalls.erase hstale)

/-- A step of the worker: what it takes is fresh, and in time. -/
theorem mode_worker (h : Mode t.eraseAfter c) (hacc : Accounts c) (hsleeps : Sleeps rekeyInterval c)
    (hnow : c.now ≤ now) (hE : t.eraseAfter = rekeyInterval + 30) {closed : Bool} {a : WorkerAct}
    {deadman : OskDeadman} (hreads : a.reads now = true)
    (hin : c.InTime (now, .worker a)) (hs : c.deadman.workerStep t closed a = some deadman) :
    Mode t.eraseAfter { c with
      now
      deadman
      takenAt := if (Clocked.Act.worker a).takes then c.takenAt ++ [now] else c.takenAt } := by
  obtain ⟨hw, hcases⟩ := workerStep_cases hs
  rcases step_cases hw with ⟨n, rfl, hpc, -, hw'⟩ | ⟨n, rfl, hpc, -, hw'⟩ |
    ⟨n, key, reason, rfl, hpc, hw'⟩ | ⟨n, rfl, hpc, hw'⟩ | ⟨n, m, rfl, hpc, hn, hw'⟩ |
    ⟨random, res, call, rfl, hcall, hw'⟩
  · obtain rfl : n = now := by simpa [WorkerAct.reads] using hreads
    exact mode_arm h hacc hnow hpc (by rw [hw']) (Or.inl (by rw [hw']))
  · exact mode_arm h hacc hnow hpc (by rw [hw']) (Or.inr (by rw [hw']))
  · obtain ⟨req, he, hq⟩ := hcases.resolve_right fun hne => hne.1 _ rfl
    obtain rfl := WorkerAct.received.inj he
    obtain rfl : reason = .fresh :=
      hacc.requests (.setOsk key reason) (by rw [hq]; exact List.mem_cons_self)
    have hqueue : c.deadman.queue ≠ [] := by simp [hq]
    refine mode_received h hacc hnow (fun q hlast => ?_) hpc hqueue (by rw [hw']) (by rw [hw'])
    rw [hE, ← Nat.add_assoc]
    exact lt_of_takes hsleeps hacc hin hqueue hlast
  · exact mode_closed h hpc (by rw [hw']) (by rw [hw'])
  · obtain rfl : m = now := by simpa [WorkerAct.reads] using hreads
    exact mode_elapsed h hnow hpc hn (by rw [hw']) (by rw [hw'])
  · exact mode_broker h hnow hcall hw'

/-- The accounts, the sleeps and the mode of the worker. -/
structure RekeyingInv (rekeyInterval : ℕ) (c : Clocked) : Prop where
  accounts : Accounts c
  sleeps : Sleeps rekeyInterval c
  mode : Mode (rekeyInterval + 30) c

theorem rekeyingInv_new (rekeyInterval start : ℕ) :
    RekeyingInv rekeyInterval (Clocked.new start) :=
  ⟨accounts_new start, sleeps_new rekeyInterval start, mode_new _ start⟩

/-- A step in time, with a sleep that ends on time, keeps the invariant. -/
theorem step_rekeyingInv (hE : t.eraseAfter = rekeyInterval + 30) {act : ℕ × Clocked.Act}
    (h : RekeyingInv rekeyInterval c) (hin : c.InTime act ∧ c.OnTime rekeyInterval act)
    (hs : c.step E params rekeyInterval t act = some c') : RekeyingInv rekeyInterval c' := by
  obtain ⟨now, a⟩ := act
  obtain ⟨hnow, hcases⟩ := Clocked.step_cases hs
  rcases hcases with ⟨sa, server, deadman, rfl, hstep, hacc, hd, rfl⟩ |
    ⟨wa, deadman, rfl, hr, hw, rfl⟩
  · refine ⟨accounts_server h.accounts hnow hstep hd, sleeps_server h.sleeps hstep hacc hin.2,
      h.mode.of_server hnow ?_ rfl fun q hq => ?_⟩
    · exact worker_of_server hd
    · obtain ⟨k, hk, hget⟩ := Clocked.lastQueued_eq_some.mp hq
      refine Clocked.lastQueued_eq_some.mpr ⟨k, hk, ?_⟩
      simp only
      split_ifs
      · exact (List.getElem?_append_left (List.getElem?_eq_some_iff.mp hget).1).trans hget
      · exact hget
  · refine ⟨accounts_worker h.accounts hnow hw, ⟨h.sleeps.one, h.sleeps.asleep, h.sleeps.awake,
      h.sleeps.onTime⟩, ?_⟩
    rw [← hE]
    exact mode_worker (hE ▸ h.mode) h.accounts h.sleeps hnow hE hr hin.1 hw

end Mode

/-! ### The main result -/

/-- The last instant of the clock: it counts seconds in a signed 64-bit range. -/
def lastInstant : ℕ := 2 ^ 63 - 1

/-- The constants of a deadman that was started, in a build where the sum wraps. -/
def timing (rekeyInterval : UInt64) : Timing := ⟨(rekeyInterval.toNat + 30) % 2 ^ 64, lastInstant⟩

section Main
variable (E : Externals) (params : DaisywayProtocolParameters) (rekeyInterval : UInt64)

/-- A step of the daemon configured with the interval. -/
def stepConfigured (c : Clocked) (act : ℕ × Clocked.Act) : Option Clocked :=
  c.step E params rekeyInterval.toNat (timing rekeyInterval) act

/-- The step is no computation of a deadline that panics. -/
def ArmsSafely (c : Clocked) (act : ℕ × Clocked.Act) : Prop :=
  ∀ n c', act.2 = .worker (.arm n) → stepConfigured E params rekeyInterval c act = some c' →
    c'.deadman.worker.pc ≠ .panicked

/-- The rekeying is steady: the sum of the interval and the slack does not overflow, no deadline is
beyond the range of the clock, and no erase comes between two fresh keys. -/
structure Steady (start : ℕ) (acts : List (ℕ × Clocked.Act)) (c : Clocked) : Prop where
  sum : ∀ overflowChecks, (startDeadman overflowChecks rekeyInterval : Outcome Empty ℕ) =
    .ok (rekeyInterval.toNat + 30)
  deadlines : Along (stepConfigured E params rekeyInterval) (ArmsSafely E params rekeyInterval)
    (Clocked.new start) acts
  erases : NoEraseBetween c.deadman.worker.calls

/-- The arithmetic is in range: that of the set-up, and that of the worker at each instant at which
it computes a deadline. -/
structure InRange (acts : List (ℕ × Clocked.Act)) : Prop where
  sum : rekeyInterval.toNat + 30 < 2 ^ 64
  deadlines : ∀ now n, (now, Clocked.Act.worker (.arm n)) ∈ acts →
    n + (rekeyInterval.toNat + 30) ≤ lastInstant

variable {E params rekeyInterval} {c c' : Clocked} {now : ℕ}

theorem timing_eraseAfter (h : rekeyInterval.toNat + 30 < 2 ^ 64) :
    (timing rekeyInterval).eraseAfter = rekeyInterval.toNat + 30 := Nat.mod_eq_of_lt h

/-- A daemon that the set-up starts sleeps for the configured interval and has a deadman with these
constants. -/
theorem fromConfig_timing {ε : Type} {decode : Etsi014.Base64Decode} {host : Host ε}
    {cfg : DaisywayConfig ε} {d : Daemon} (hd : Lib.Base64.StrictDecoder decode)
    (hfit : ∀ reads, cfg.pskFile = some (.ok reads) →
      Util.ReadExt.Fits Util.Keys.keyLengthB64 reads)
    (h : fromConfig decode host cfg = .ok d) :
    d.rekeyInterval = cfg.rekeyInterval ∧
      d.eraseAfter = (timing cfg.rekeyInterval).eraseAfter := by
  obtain ⟨-, -, -, hinterval, hdeadman⟩ := fromConfig_ok hd hfit h
  refine ⟨hinterval, ?_⟩
  unfold startDeadman at hdeadman
  split_ifs at hdeadman
  exact (Outcome.ok.inj hdeadman).symm

/-- A deadline is computed without a panic if it is within the range of the clock. -/
theorem arm_panicked_iff {n : ℕ}
    (hs : stepConfigured E params rekeyInterval c (now, .worker (.arm n)) = some c') :
    c'.deadman.worker.pc = .panicked ↔ ¬ n + (timing rekeyInterval).eraseAfter ≤ lastInstant := by
  obtain ⟨-, hcases⟩ := Clocked.step_cases hs
  rcases hcases with ⟨_, _, _, ha, -⟩ | ⟨wa, deadman, ha, -, hw, rfl⟩
  · cases ha
  obtain rfl := Clocked.Act.worker.inj ha
  obtain ⟨hstep, -⟩ := workerStep_cases hw
  rcases step_cases hstep with ⟨m, he, -, hle, hw'⟩ | ⟨m, he, -, hle, hw'⟩ | ⟨_, _, _, he, -⟩ |
    ⟨_, he, -⟩ | ⟨_, _, he, -⟩ | ⟨_, _, _, he, -⟩
  case inl =>
    obtain rfl := WorkerAct.arm.inj he
    simp only [hw', reduceCtorEq, false_iff, not_not]
    exact hle
  case inr.inl =>
    obtain rfl := WorkerAct.arm.inj he
    simp only [hw', true_iff]
    exact hle
  all_goals cases he

/-- The deadlines of a run are computed without a panic exactly if they are within the range. -/
theorem deadlines_iff (hsum : rekeyInterval.toNat + 30 < 2 ^ 64) {start : ℕ}
    {acts : List (ℕ × Clocked.Act)}
    (hrun : run (stepConfigured E params rekeyInterval) (Clocked.new start) acts = some c) :
    Along (stepConfigured E params rekeyInterval) (ArmsSafely E params rekeyInterval)
      (Clocked.new start) acts ↔
    ∀ now n, (now, Clocked.Act.worker (.arm n)) ∈ acts →
      n + (rekeyInterval.toNat + 30) ≤ lastInstant := by
  constructor
  · intro halong now n hmem
    obtain ⟨c1, c2, hs, hsafe⟩ := along_mem halong hrun hmem
    by_contra hle
    rw [← timing_eraseAfter hsum] at hle
    exact hsafe n c2 rfl hs ((arm_panicked_iff hs).mpr hle)
  · intro hrange
    refine along_of_invariant (I := fun _ => True)
      (P := fun act => ∀ n, act.2 = .worker (.arm n) → n + (rekeyInterval.toNat + 30) ≤ lastInstant)
      (fun _ _ => trivial) ?_ trivial ?_
    · intro c1 act _ hP n c2 ha hs hpanic
      obtain ⟨now, a⟩ := act
      obtain rfl : a = .worker (.arm n) := ha
      have hle := (arm_panicked_iff hs).mp hpanic
      rw [timing_eraseAfter hsum] at hle
      exact hle (hP n rfl)
    · rintro ⟨now, a⟩ hmem n ha
      obtain rfl : a = .worker (.arm n) := ha
      exact hrange now n hmem

/-- In a run in time whose sleeps end on time, no erase comes between two fresh keys. -/
theorem noEraseBetween_of_inTime (hsum : rekeyInterval.toNat + 30 < 2 ^ 64) {start : ℕ}
    {acts : List (ℕ × Clocked.Act)}
    (hrun : run (stepConfigured E params rekeyInterval) (Clocked.new start) acts = some c)
    (hin : Along (stepConfigured E params rekeyInterval) Clocked.InTime (Clocked.new start) acts)
    (honTime : Along (stepConfigured E params rekeyInterval) (Clocked.OnTime rekeyInterval.toNat)
      (Clocked.new start) acts) :
    NoEraseBetween c.deadman.worker.calls := by
  have hinv : RekeyingInv rekeyInterval.toNat c :=
    run_invariant_along (fun hI hC hs => step_rekeyingInv (timing_eraseAfter hsum) hI hC hs)
      (rekeyingInv_new _ _) (along_and hin honTime) hrun
  exact hinv.mode.noEraseBetween

/-- **Steady rekeying.** For every configured interval, or the default one, and every run on a
single connection in which each key reaches the worker less than 30 seconds after the end of the
sleep before it: if the rekeying is steady then the arithmetic is in range, and if the arithmetic is
in range and each sleep ends when its timer fires then the rekeying is steady. -/
theorem steady_rekeying {ε : Type} (cfg : DaisywayConfig ε) (start : ℕ)
    (acts : List (ℕ × Clocked.Act))
    (hrun : run (stepConfigured E params cfg.rekeyInterval) (Clocked.new start) acts = some c)
    (hin : Along (stepConfigured E params cfg.rekeyInterval) Clocked.InTime (Clocked.new start)
      acts) :
    (Steady E params cfg.rekeyInterval start acts c → InRange cfg.rekeyInterval acts) ∧
      (InRange cfg.rekeyInterval acts →
        Along (stepConfigured E params cfg.rekeyInterval) (Clocked.OnTime cfg.rekeyInterval.toNat)
          (Clocked.new start) acts →
        Steady E params cfg.rekeyInterval start acts c) := by
  constructor
  · intro h
    have hsum := startDeadman_ok_iff.mp (h.sum true)
    exact ⟨hsum, (deadlines_iff hsum hrun).mp h.deadlines⟩
  · intro h honTime
    exact ⟨fun _ => startDeadman_ok_iff.mpr h.sum, (deadlines_iff h.sum hrun).mpr h.deadlines,
      noEraseBetween_of_inTime h.sum hrun hin honTime⟩

end Main

/-! ### Sample runs -/

open Daisyway.Crypto.Lockstep (sampleExternals sampleKey sampleAnswer)
open Daisyway.Net.Zombies (sampleParams)

/-- A configuration with an interval beyond the range of the clock. -/
def largeIntervalConfig : DaisywayConfig Unit :=
  { sampleConfig with intervalSecs := some 9223372036854775807 }

/-- The worker erases the key at its start and computes its first deadline. -/
def sampleStart : List (ℕ × Clocked.Act) :=
  [(0, .worker (.broker (zeroed 32) .ok)), (0, .worker (.arm 0))]

/-- The key negotiated in a sample round. -/
def roundOsk : Key :=
  deriveDaisywayKey sampleExternals.shake256 sampleParams (zeroed 32) (sampleKey 1)

/-- A round on the connection, from the fetch at `t` to the call of the broker. -/
def sampleRound (t : ℕ) : List (ℕ × Clocked.Act) :=
  [(t, .server (.task 0 (.proto (.fetched (sampleAnswer (sampleKey 1)) (zeroed 32))))),
    (t, .server (.task 0 (.proto (.wrote 48)))),
    (t + 10, .server (.task 0 (.proto (.read rekeyAck.dummyData)))),
    (t + 15, .server (.task 0 .sendOsk)), (t + 20, .server .recv), (t + 20, .server .oskSent),
    (t + 25, .worker (.received (.setOsk roundOsk .fresh))),
    (t + 25, .worker (.broker (zeroed 32) .ok)), (t + 25, .worker (.arm (t + 25)))]

/-- The sample interval is in range in the first minutes. -/
theorem inRange_of_le {acts : List (ℕ × Clocked.Act)}
    (h : ∀ now n, (now, Clocked.Act.worker (.arm n)) ∈ acts → n ≤ 300) :
    InRange sampleConfig.rekeyInterval acts := by
  refine ⟨by decide +kernel, fun now n hmem => ?_⟩
  have hlast : 300 + (sampleConfig.rekeyInterval.toNat + 30) ≤ lastInstant := by decide +kernel
  have hn := h now n hmem
  omega

/-- Two rounds. The sleep of 120 seconds between them ends 64 seconds late, after the deadline at
176 has passed; the second key follows 25 seconds after it. -/
def lateSleep : List (ℕ × Clocked.Act) :=
  sampleStart ++ [(1, .server .accept)] ++ sampleRound 1 ++
    [(176, .worker (.elapsed 176)), (176, .worker (.broker (zeroed 32) .ok)),
      (176, .worker (.arm 176)), (200, .server (.task 0 (.proto .slept)))] ++ sampleRound 200

/-- Both conditions are needed: with the large interval the worker panics when it computes its first
deadline, and with the default interval there is an erase between two keys if the sleep ends too
late. -/
theorem large_interval_or_late_sleep_not_steady :
    (∃ c, run (stepConfigured sampleExternals sampleParams largeIntervalConfig.rekeyInterval)
        (Clocked.new 0) sampleStart = some c ∧
      Along (stepConfigured sampleExternals sampleParams largeIntervalConfig.rekeyInterval)
        Clocked.InTime (Clocked.new 0) sampleStart ∧
      c.deadman.worker.pc = .panicked ∧
      ¬ Steady sampleExternals sampleParams largeIntervalConfig.rekeyInterval 0 sampleStart c) ∧
    ∃ c, run (stepConfigured sampleExternals sampleParams sampleConfig.rekeyInterval)
        (Clocked.new 0) lateSleep = some c ∧
      Along (stepConfigured sampleExternals sampleParams sampleConfig.rekeyInterval)
        Clocked.InTime (Clocked.new 0) lateSleep ∧
      InRange sampleConfig.rekeyInterval lateSleep ∧
      c.deadman.worker.calls.map SetOsk.reason = [.stale, .fresh, .stale, .fresh] ∧
      ¬ Steady sampleExternals sampleParams sampleConfig.rekeyInterval 0 lateSleep c := by
  constructor
  · have h : ((run (stepConfigured sampleExternals sampleParams largeIntervalConfig.rekeyInterval)
        (Clocked.new 0) sampleStart).map fun c => c.deadman.worker.pc) = some .panicked := by
      decide +kernel
    obtain ⟨c, hrun, hpc⟩ := Option.map_eq_some_iff.mp h
    refine ⟨c, hrun, by decide +kernel, hpc, fun hsteady => ?_⟩
    have hrange := (deadlines_iff (by decide +kernel) hrun).mp hsteady.deadlines 0 0 (by decide)
    exact absurd hrange (by decide +kernel)
  · have h : ((run (stepConfigured sampleExternals sampleParams sampleConfig.rekeyInterval)
        (Clocked.new 0) lateSleep).map fun c => c.deadman.worker.calls.map SetOsk.reason) =
        some [.stale, .fresh, .stale, .fresh] := by
      decide +kernel
    obtain ⟨c, hrun, hcalls⟩ := Option.map_eq_some_iff.mp h
    have hrange : InRange sampleConfig.rekeyInterval lateSleep :=
      inRange_of_le fun now n hmem => by
        simp [lateSleep, sampleStart, sampleRound] at hmem
        omega
    refine ⟨c, hrun, by decide +kernel, hrange, hcalls, fun hsteady => ?_⟩
    have hreason : ∀ {k : ℕ} {reason : SetOskReason},
        [SetOskReason.stale, .fresh, .stale, .fresh][k]? = some reason →
        ∃ x, c.deadman.worker.calls[k]? = some x ∧ x.reason = reason := by
      intro k reason hk
      rw [← hcalls, List.getElem?_map] at hk
      exact Option.map_eq_some_iff.mp hk
    obtain ⟨x, hx, hxf⟩ := hreason (k := 1) rfl
    obtain ⟨e, he, hes⟩ := hreason (k := 2) rfl
    obtain ⟨y, hy, hyf⟩ := hreason (k := 3) rfl
    have := hsteady.erases 1 2 3 x e y (by decide) (by decide) hx he hy hxf hyf
    rw [hes] at this
    cases this

/-- Two rounds, with the sleep of 120 seconds between them. -/
def sampleRounds : List (ℕ × Clocked.Act) :=
  sampleStart ++ [(1, .server .accept)] ++ sampleRound 1 ++
    [(136, .server (.task 0 (.proto .slept)))] ++ sampleRound 136

theorem steady_rekeying_sample :
    ∃ c, run (stepConfigured sampleExternals sampleParams sampleConfig.rekeyInterval)
        (Clocked.new 0) sampleRounds = some c ∧
      c.deadman.worker.calls.map SetOsk.reason = [.stale, .fresh, .fresh] ∧
      Steady sampleExternals sampleParams sampleConfig.rekeyInterval 0 sampleRounds c := by
  have h : ((run (stepConfigured sampleExternals sampleParams sampleConfig.rekeyInterval)
      (Clocked.new 0) sampleRounds).map fun c => c.deadman.worker.calls.map SetOsk.reason) =
      some [.stale, .fresh, .fresh] := by
    decide +kernel
  obtain ⟨c, hrun, hcalls⟩ := Option.map_eq_some_iff.mp h
  refine ⟨c, hrun, hcalls, (steady_rekeying sampleConfig 0 sampleRounds hrun ?_).2 ?_ ?_⟩
  · decide +kernel
  · refine inRange_of_le fun now n hmem => ?_
    simp [sampleRounds, sampleStart, sampleRound] at hmem
    omega
  · decide +kernel

end Daisyway.Net.Rekeying
