import Daisyway.Crypto.Protocol
import Daisyway.Lib.Lists
import Daisyway.Lib.Run
import Daisyway.Net.Forwarding
import Daisyway.Net.Handles

/-! # The server

`DaisywayTcpServer` is the connection manager, the tasks it spawned and the queue between them. The
manager's loop waits for a stream or for a notification, processes it, and waits for its OSK handler
where it forwards a key. A task runs the server's protocol; its OSK handler puts the key into the
queue, and when the protocol has returned it puts an exit notification there. A task that is aborted
stops at an await, and a task that panics stops where it is; neither sends anything more.

The steps of the manager refine the runs of the manager alone (`Refines`): the state of the manager
is the one after the events it received. -/

namespace Daisyway.Net.Server

open Daisyway.Prim Daisyway.Etsi014 Daisyway.Crypto.Basics Daisyway.Crypto.Protocol
open Daisyway.Lib.Lists Daisyway.Lib.Maps Daisyway.Lib.Run Daisyway.Osk.Deadman
open Daisyway.Net.Manager Daisyway.Net.Handles Daisyway.Net.Forwarding

/-! ### The tasks -/

inductive ConnectionHandlerEvent where
  | exit (connectionId : ConnectionId)
  | osk (connectionId : ConnectionId) (key : Key) (reason : SetOskReason)
  deriving DecidableEq

def ConnectionHandlerEvent.toStreamEvent : ConnectionHandlerEvent → StreamEvent
  | .exit id => .exit id
  | .osk id key reason => .osk id key reason

inductive TaskPhase where
  /-- In the event loop of the protocol. -/
  | running
  /-- Before the exit notification. -/
  | exiting
  | finished
  | panicked
  | aborted
  deriving DecidableEq

/-- The task of `init_task`. -/
structure Task where
  connectionId : ConnectionId
  proto : ServerProtocol
  phase : TaskPhase
  /-- The handle was dropped. -/
  abortRequested : Bool
  deriving DecidableEq

def Task.new (id : ConnectionId) : Task := ⟨id, ServerProtocol.new, .running, false⟩

/-- The task has neither ended nor been aborted. -/
def Task.alive (t : Task) : Bool := t.phase = .running ∨ t.phase = .exiting

/-- The task after a step of its protocol: an error is logged, a panic unwinds the task. -/
def Task.afterStep (t : Task) (proto : ServerProtocol) : Task :=
  { t with
    proto
    phase := match proto.pc with
      | .failed _ => .exiting
      | .panicked => .panicked
      | _ => .running }

inductive TaskAct where
  /-- An await of the protocol other than its OSK handler returns. -/
  | proto (a : ServerProtocol.Act)
  /-- The send of the OSK handler returns. -/
  | sendOsk
  /-- The send of the exit notification returns. -/
  | sendExit
  /-- The abort takes effect. -/
  | cancel
  deriving DecidableEq

/-- The action of the protocol is the return of its OSK handler. -/
def isOskSet : ServerProtocol.Act → Bool
  | .oskSet _ => true
  | _ => false

/-- One step of a task, with what it puts into the queue; `closed` says that the receiver of the
queue is gone, and a send fails. -/
def Task.step (E : Externals) (params : DaisywayProtocolParameters) (closed : Bool) (t : Task) :
    TaskAct → Option (Task × List ConnectionHandlerEvent)
  | .proto a =>
    if t.phase = .running ∧ isOskSet a = false then
      (t.proto.step E params a).map fun proto => (t.afterStep proto, [])
    else none
  | .sendOsk =>
    match t.phase, t.proto.pc with
    | .running, .setOsk key =>
      (t.proto.step E params (.oskSet !closed)).map fun proto =>
        (t.afterStep proto, if closed then [] else [.osk t.connectionId key .fresh])
    | _, _ => none
  | .sendExit =>
    if t.phase = .exiting then
      some ({ t with phase := .finished }, if closed then [] else [.exit t.connectionId])
    else none
  | .cancel =>
    if t.alive = true ∧ t.abortRequested = true then some ({ t with phase := .aborted }, [])
    else none

section Task
variable {E : Externals} {params : DaisywayProtocolParameters} {closed : Bool} {t t' : Task}
  {a : TaskAct} {evs : List ConnectionHandlerEvent}

/-- What a step of a task can do. -/
inductive Task.Trans (E : Externals) (params : DaisywayProtocolParameters) (closed : Bool)
    (t : Task) : TaskAct → Task → List ConnectionHandlerEvent → Prop
  | proto {a : ServerProtocol.Act} {p : ServerProtocol} (hphase : t.phase = .running)
      (ha : isOskSet a = false) (hp : t.proto.step E params a = some p) :
      Trans E params closed t (.proto a) (t.afterStep p) []
  | sendOsk {key : Key} {p : ServerProtocol} (hphase : t.phase = .running)
      (hpc : t.proto.pc = .setOsk key) (hp : t.proto.step E params (.oskSet !closed) = some p) :
      Trans E params closed t .sendOsk (t.afterStep p)
        (if closed then [] else [.osk t.connectionId key .fresh])
  | sendExit (hphase : t.phase = .exiting) :
      Trans E params closed t .sendExit { t with phase := .finished }
        (if closed then [] else [.exit t.connectionId])
  | cancel (halive : t.alive = true) (hab : t.abortRequested = true) :
      Trans E params closed t .cancel { t with phase := .aborted } []

theorem Task.step_trans (hs : t.step E params closed a = some (t', evs)) :
    Task.Trans E params closed t a t' evs := by
  cases a with
  | proto a =>
    simp only [Task.step] at hs
    split_ifs at hs with hg
    obtain ⟨p, hp, he⟩ := Option.map_eq_some_iff.mp hs
    obtain ⟨rfl, rfl⟩ := Prod.mk.inj he
    exact .proto hg.1 hg.2 hp
  | sendOsk =>
    simp only [Task.step] at hs
    split at hs
    · next key hphase hpc =>
      obtain ⟨p, hp, he⟩ := Option.map_eq_some_iff.mp hs
      obtain ⟨rfl, rfl⟩ := Prod.mk.inj he
      exact .sendOsk hphase hpc hp
    · cases hs
  | sendExit =>
    simp only [Task.step] at hs
    split at hs
    · next hphase =>
      obtain ⟨rfl, rfl⟩ := Prod.mk.inj (Option.some.inj hs)
      exact .sendExit hphase
    · cases hs
  | cancel =>
    simp only [Task.step] at hs
    split_ifs at hs with hg
    obtain ⟨rfl, rfl⟩ := Prod.mk.inj (Option.some.inj hs)
    exact .cancel hg.1 hg.2

/-- A step changes neither the connection of a task nor whether it is asked to stop. -/
theorem Task.step_frame (hs : t.step E params closed a = some (t', evs)) :
    t'.connectionId = t.connectionId ∧ t'.abortRequested = t.abortRequested := by
  cases Task.step_trans hs <;> exact ⟨rfl, rfl⟩

end Task

/-- Dropping handles asks their tasks to stop. -/
def abort (handles : List AbortOnDropHandle) (tasks : List Task) : List Task :=
  tasks.mapIdx fun i t =>
    if i ∈ handles.map AbortOnDropHandle.stream then { t with abortRequested := true } else t

/-! ### The server -/

/-- Why the manager's loop has returned an error. -/
inductive LoopEnd where
  | accept
  | queueClosed
  | osk
  deriving DecidableEq

/-- The manager waits for its OSK handler; the handles in `removed` are dropped afterwards. -/
structure Sending where
  call : SetOsk
  removed : List AbortOnDropHandle
  deriving DecidableEq

structure TcpServer where
  manager : ConnectionManager
  sending : Option Sending
  queue : List ConnectionHandlerEvent
  /-- The tasks, in the order of their streams. -/
  tasks : List Task
  ended : Option LoopEnd
  /-- The events the manager has processed. -/
  received : List StreamEvent
  /-- The keys passed to the OSK handler, with the connection they came from. -/
  forwarded : List (ConnectionId × SetOsk)
  deriving DecidableEq

namespace TcpServer

def new : TcpServer := ⟨ConnectionManager.new, none, [], [], none, [], []⟩

/-- The capacity of the notification queue. -/
def queueCapacity : ℕ := 16

/-- The senders of the notification queue: one in the manager, one in each task. -/
def senders (s : TcpServer) : ℕ := 1 + (s.tasks.filter Task.alive).length

/-- The loop is in its `select!`. -/
def idle (s : TcpServer) : Bool := s.ended.isNone ∧ s.sending.isNone

/-- The manager processes an event, up to the call of its OSK handler. -/
def onEvent (s : TcpServer) (ev : StreamEvent) : TcpServer :=
  let (manager, e) := s.manager.onEvent ev
  { s with
    manager
    sending := e.setOsk.map fun call => ⟨call, e.removed⟩
    tasks := abort e.dropped s.tasks ++ (e.spawned.map fun spawn => Task.new spawn.1).toList
    received := s.received ++ [ev]
    forwarded := s.forwarded ++ forwardedBy ev e }

/-- The handles that are dropped when the OSK handler has returned. -/
def removed (s : TcpServer) : List AbortOnDropHandle :=
  match s.sending with
  | some sending => sending.removed
  | none => []

/-- The loop returns an error: the manager is dropped with all its handles, and so is the receiver
of the queue. What is left in the queue is never read. -/
def endLoop (s : TcpServer) (why : LoopEnd) : TcpServer :=
  { s with
    manager := { s.manager with activeConnection := none, buddingConnections := OrdMap.empty }
    sending := none
    tasks := abort (handles s.manager ++ s.removed) s.tasks
    ended := some why }

inductive Act where
  /-- `accept` returns a stream. -/
  | accept
  | acceptFailed
  /-- `recv` returns. -/
  | recv
  /-- The manager's OSK handler returns. -/
  | oskSent
  | oskFailed
  | task (i : StreamId) (a : TaskAct)
  deriving DecidableEq

variable (E : Externals) (params : DaisywayProtocolParameters)

/-- One step of the server. -/
def step (s : TcpServer) : Act → Option TcpServer
  | .accept => if s.idle then some (s.onEvent (.accept s.tasks.length)) else none
  | .acceptFailed => if s.idle then some (s.endLoop .accept) else none
  | .recv =>
    if s.idle then
      match s.queue with
      | ev :: rest => some ({ s with queue := rest }.onEvent ev.toStreamEvent)
      | [] => if s.senders = 0 then some (s.endLoop .queueClosed) else none
    else none
  | .oskSent =>
    if s.sending.isSome then some { s with sending := none, tasks := abort s.removed s.tasks }
    else none
  | .oskFailed => if s.sending.isSome then some (s.endLoop .osk) else none
  | .task i a =>
    (s.tasks[i]?).bind fun t =>
      (t.step E params s.ended.isSome a).bind fun (t', evs) =>
        if s.queue.length + evs.length ≤ queueCapacity then
          some { s with tasks := s.tasks.set i t', queue := s.queue ++ evs }
        else none

/-- What a step of the server can do. The queue is never found closed: the manager holds a sender.
-/
inductive Trans (s : TcpServer) : Act → TcpServer → Prop
  | accept (hi : s.idle = true) : Trans s .accept (s.onEvent (.accept s.tasks.length))
  | acceptFailed (hi : s.idle = true) : Trans s .acceptFailed (s.endLoop .accept)
  | recv {ev : ConnectionHandlerEvent} {rest : List ConnectionHandlerEvent} (hi : s.idle = true)
      (hq : s.queue = ev :: rest) :
      Trans s .recv ({ s with queue := rest }.onEvent ev.toStreamEvent)
  | oskSent (hs : s.sending.isSome = true) :
      Trans s .oskSent { s with sending := none, tasks := abort s.removed s.tasks }
  | oskFailed (hs : s.sending.isSome = true) : Trans s .oskFailed (s.endLoop .osk)
  | task {i : StreamId} {a : TaskAct} {t t' : Task} {evs : List ConnectionHandlerEvent}
      (ht : s.tasks[i]? = some t) (hs : t.step E params s.ended.isSome a = some (t', evs)) :
      Trans s (.task i a) { s with tasks := s.tasks.set i t', queue := s.queue ++ evs }

variable {E params}

theorem step_trans {s s' : TcpServer} {a : Act} (h : s.step E params a = some s') :
    Trans E params s a s' := by
  cases a with
  | accept =>
    simp only [step] at h
    split_ifs at h with hi
    cases h
    exact .accept hi
  | acceptFailed =>
    simp only [step] at h
    split_ifs at h with hi
    cases h
    exact .acceptFailed hi
  | recv =>
    have hpos : s.senders ≠ 0 := by unfold senders; omega
    simp only [step, if_neg hpos] at h
    split_ifs at h with hi
    split at h
    · next ev rest hq =>
      cases h
      exact .recv hi hq
    · cases h
  | oskSent =>
    simp only [step] at h
    split_ifs at h with hs
    cases h
    exact .oskSent hs
  | oskFailed =>
    simp only [step] at h
    split_ifs at h with hs
    cases h
    exact .oskFailed hs
  | task i a =>
    obtain ⟨t, ht, h⟩ := Option.bind_eq_some_iff.mp h
    obtain ⟨⟨t', evs⟩, hs, h⟩ := Option.bind_eq_some_iff.mp h
    simp only at h
    split_ifs at h with hcap
    cases h
    exact .task ht hs

/-! ### The manager in the server -/

/-- The manager in the server is the manager after the events it received, as long as the loop runs;
afterwards it holds no handles. -/
structure Refines (s : TcpServer) : Prop where
  manager_eq : s.ended = none → s.manager = (after s.received).manager
  ended_handles : s.ended ≠ none → handles s.manager = []
  forwarded_eq : s.forwarded = (after s.received).forwarded
  accepts_eq : accepts s.received = s.tasks.length

theorem length_abort (hs : List AbortOnDropHandle) (tasks : List Task) :
    (abort hs tasks).length = tasks.length := by
  simp [abort]

theorem getElem?_abort (hs : List AbortOnDropHandle) (tasks : List Task) (i : ℕ) :
    (abort hs tasks)[i]? = tasks[i]?.map fun t =>
      if i ∈ hs.map AbortOnDropHandle.stream then { t with abortRequested := true } else t := by
  simp [abort]

/-- An abort changes nothing but the request to stop. -/
theorem abort_frame {hs : List AbortOnDropHandle} {tasks : List Task} {i : ℕ} {t' : Task}
    (h : (abort hs tasks)[i]? = some t') :
    ∃ t, tasks[i]? = some t ∧ t'.connectionId = t.connectionId ∧ t'.proto = t.proto ∧
      t'.phase = t.phase := by
  rw [getElem?_abort] at h
  obtain ⟨t, ht, rfl⟩ := Option.map_eq_some_iff.mp h
  refine ⟨t, ht, ?_⟩
  split_ifs <;> exact ⟨rfl, rfl, rfl⟩

/-- A task whose handle is not dropped is not touched. -/
theorem getElem?_abort_of_notMem {hs : List AbortOnDropHandle} {tasks : List Task} {i : ℕ}
    (hi : i ∉ hs.map AbortOnDropHandle.stream) : (abort hs tasks)[i]? = tasks[i]? := by
  rw [getElem?_abort]
  simp only [hi, if_false, Option.map_id']

theorem idle_iff {s : TcpServer} : s.idle = true ↔ s.ended = none ∧ s.sending = none := by
  simp [idle]

theorem removed_onEvent_sublist (s : TcpServer) (ev : StreamEvent) :
    (s.onEvent ev).removed.Sublist (s.manager.onEvent ev).2.removed := by
  have hs : (s.onEvent ev).sending = (s.manager.onEvent ev).2.setOsk.map fun call =>
    ⟨call, (s.manager.onEvent ev).2.removed⟩ := rfl
  unfold removed
  rw [hs]
  cases (s.manager.onEvent ev).2.setOsk with
  | none => exact List.nil_sublist _
  | some call => exact List.Sublist.refl _

theorem refines_new : Refines new := ⟨fun _ => rfl, fun h => absurd rfl h, rfl, rfl⟩

/-- An event adds a task exactly if it is an accept. -/
theorem length_spawned (m : ConnectionManager) (ev : StreamEvent) :
    ((m.onEvent ev).2.spawned.map fun spawn => Task.new spawn.1).toList.length = accepts [ev] := by
  have ht := onEvent_trans m ev
  generalize m.onEvent ev = r at ht
  obtain ⟨m', e⟩ := r
  cases ht <;> rfl

theorem refines_onEvent {s : TcpServer} (h : Refines s) (hi : s.ended = none) (ev : StreamEvent) :
    Refines (s.onEvent ev) := by
  have hm := h.manager_eq hi
  refine ⟨fun _ => ?_, fun he => absurd hi he, ?_, ?_⟩
  · simp only [onEvent, after_concat, History.onEvent, hm]
  · simp only [onEvent, after_concat, History.onEvent, hm, h.forwarded_eq]
  · simp only [onEvent, accepts_append, h.accepts_eq, List.length_append, length_abort,
      length_spawned]

theorem refines_endLoop {s : TcpServer} (h : Refines s) (why : LoopEnd) :
    Refines (s.endLoop why) := by
  refine ⟨fun he => ?_, fun _ => rfl, h.forwarded_eq, ?_⟩
  · cases he
  · simp only [endLoop, length_abort, h.accepts_eq]

/-- **The manager in the server runs as the manager alone.** -/
theorem step_refines {s s' : TcpServer} {a : Act} (h : Refines s)
    (hs : s.step E params a = some s') : Refines s' := by
  cases step_trans hs with
  | accept hi => exact refines_onEvent h (idle_iff.mp hi).1 _
  | acceptFailed hi => exact refines_endLoop h _
  | @recv ev rest hi hq =>
    have hrest : Refines { s with queue := rest } :=
      ⟨h.manager_eq, h.ended_handles, h.forwarded_eq, h.accepts_eq⟩
    exact refines_onEvent hrest (idle_iff.mp hi).1 _
  | oskSent hsend =>
    exact ⟨h.manager_eq, h.ended_handles, h.forwarded_eq, by simp only [length_abort, h.accepts_eq]⟩
  | oskFailed hsend => exact refines_endLoop h _
  | task ht hs =>
    exact ⟨h.manager_eq, h.ended_handles, h.forwarded_eq,
      by simp only [List.length_set, h.accepts_eq]⟩

/-- The invariant of the manager holds in the server, as long as there are ids left. -/
theorem Refines.inv {s : TcpServer} (h : Refines s) (hi : s.ended = none)
    (hlt : s.tasks.length < connectionIds) :
    s.manager.nextConnectionId = s.tasks.length ∧ Inv s.manager (s.forwarded.map Prod.fst) := by
  rw [h.manager_eq hi, h.forwarded_eq, ← h.accepts_eq]
  exact run_inv (by rw [h.accepts_eq]; exact hlt)

/-- An accept adds a task, and no other step adds or removes one. -/
theorem step_tasks_length_eq {s s' : TcpServer} {a : Act} (hs : s.step E params a = some s') :
    s'.tasks.length = s.tasks.length + if a = .accept then 1 else 0 := by
  cases step_trans hs with
  | accept hi =>
    simp only [onEvent, List.length_append, length_abort, length_spawned, accepts, if_true]
  | @recv ev rest hi hq =>
    have hzero : accepts [ev.toStreamEvent] = 0 := by cases ev <;> rfl
    simp only [onEvent, List.length_append, length_abort, length_spawned, hzero, reduceCtorEq,
      if_false]
  | acceptFailed hi | oskSent hsend | oskFailed hsend =>
    simp only [endLoop, length_abort, reduceCtorEq, if_false, Nat.add_zero]
  | task ht hs => simp only [List.length_set, reduceCtorEq, if_false, Nat.add_zero]

theorem step_tasks_length {s s' : TcpServer} {a : Act} (hs : s.step E params a = some s') :
    s.tasks.length ≤ s'.tasks.length := by
  rw [step_tasks_length_eq hs]
  exact Nat.le_add_right _ _

/-- What a step makes of the protocols of the tasks: an accept adds a new one, a step of a task
changes that of the task, and all others stay. -/
theorem step_protos {s s' : TcpServer} {a : Act} (hs : s.step E params a = some s') {i : ℕ}
    {t' : Task} (ht' : s'.tasks[i]? = some t') :
    (∃ t, s.tasks[i]? = some t ∧ t'.proto = t.proto) ∨
      (a = .accept ∧ i = s.tasks.length ∧ t'.proto = ServerProtocol.new) ∨
      ∃ ta t evs, a = .task i ta ∧ s.tasks[i]? = some t ∧
        t.step E params s.ended.isSome ta = some (t', evs) := by
  have habort : ∀ {hs : List AbortOnDropHandle}, (abort hs s.tasks)[i]? = some t' →
      ∃ t, s.tasks[i]? = some t ∧ t'.proto = t.proto := by
    intro hs h
    obtain ⟨t, ht, -, hproto, -⟩ := abort_frame h
    exact ⟨t, ht, hproto⟩
  cases step_trans hs with
  | accept hi =>
    rcases getElem?_concat_cases ht' with ⟨-, hold⟩ | ⟨hi, rfl⟩
    · exact Or.inl (habort hold)
    · rw [length_abort] at hi
      exact Or.inr (Or.inl ⟨rfl, hi, rfl⟩)
  | @recv ev rest hi hq =>
    have hnone : (s.manager.onEvent ev.toStreamEvent).2.spawned = none := by
      have ht := onEvent_trans s.manager ev.toStreamEvent
      generalize s.manager.onEvent ev.toStreamEvent = r at ht
      obtain ⟨m', e⟩ := r
      cases ev <;> cases ht <;> rfl
    simp only [onEvent, hnone, Option.map_none, Option.toList_none, List.append_nil] at ht'
    exact Or.inl (habort ht')
  | acceptFailed hi | oskSent hsend | oskFailed hsend => exact Or.inl (habort ht')
  | @task j ta t u evs ht hstep =>
    rcases getElem?_set_cases ht' with ⟨rfl, rfl⟩ | ⟨-, hold⟩
    · exact Or.inr (Or.inr ⟨ta, t, evs, rfl, ht, hstep⟩)
    · exact Or.inl ⟨t', hold, rfl⟩

end TcpServer

end Daisyway.Net.Server
