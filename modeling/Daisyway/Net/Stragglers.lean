import Daisyway.Net.Delivery

/-! # Notifications that outlive their connection

The manager warns of a likely bug where a notification comes from a connection it does not track,
unless the notification is a key that is older than the active connection. A notification can be in
the queue while its connection is dropped, though: when a key of a newer connection is forwarded,
and when the connection is pruned to make space. `on_osk` discards what comes from a superseded
connection, `on_exit` has no such case.

Every task sends its keys first and then at most one exit (`ExitLast`), so a notification the
manager receives is from a connection that has been accepted and has not exited; then the connection
is tracked exactly if it has not been `Outlived` (`tracked_iff_not_outlived`). So the warnings are
unreachable exactly in the runs in which no notification outlives its connection
(`warnings_unreachable_iff`). -/

namespace Daisyway.Net.Stragglers

open Daisyway.Prim Daisyway.Crypto.Basics Daisyway.Crypto.Protocol
open Daisyway.Lib.Run Daisyway.Lib.Lists Daisyway.Lib.Maps Daisyway.Osk.Deadman
open Daisyway.Net.Manager Daisyway.Net.Forwarding Daisyway.Net.Server Daisyway.Net.Server.TcpServer
open Daisyway.Net.Delivery

/-! ### The warnings -/

/-- The branch of the manager that warns of a likely bug is taken. -/
def warns (m : ConnectionManager) : ConnectionHandlerEvent → Bool
  | .exit id => some id ≠ m.activeConnectionId ∧ m.buddingConnections.get? id = none
  | .osk id _ _ => (m.activeConnectionId.map fun active => compare id active).getD .gt = .gt ∧
    m.buddingConnections.get? id = none

/-- The connection of the notification is active or budding; a key older than the active connection
need not have one. -/
def Finds (m : ConnectionManager) : ConnectionHandlerEvent → Prop
  | .exit id => Tracked m id
  | .osk id _ _ => (∀ a ∈ m.activeConnectionId, a ≤ id) → Tracked m id

instance (m : ConnectionManager) : ∀ ev, Decidable (Finds m ev)
  | .exit id => inferInstanceAs (Decidable (Tracked m id))
  | .osk id _ _ => inferInstanceAs (Decidable ((∀ a ∈ m.activeConnectionId, a ≤ id) → Tracked m id))

theorem warns_iff (m : ConnectionManager) (ev : ConnectionHandlerEvent) :
    warns m ev = true ↔ ¬ Finds m ev := by
  cases ev with
  | exit id =>
    simp only [warns, Finds, Tracked, decide_eq_true_eq, OrdMap.get?_eq_none_iff]
    rw [not_or, ne_comm]
  | osk id key reason =>
    simp only [warns, Finds, Tracked, decide_eq_true_eq, OrdMap.get?_eq_none_iff, Classical.not_imp,
      not_or]
    cases ha : m.activeConnectionId with
    | none => simp
    | some a =>
      simp only [Option.map_some, Option.getD_some, compare_gt_iff_gt, Option.mem_def,
        Option.some.injEq, forall_eq']
      constructor
      · rintro ⟨hlt, hb⟩
        exact ⟨hlt.le, hlt.ne, hb⟩
      · rintro ⟨hle, hne, hb⟩
        exact ⟨lt_of_le_of_ne hle hne, hb⟩

/-! ### Connections that were dropped -/

/-- A key of a newer connection was forwarded, or the connection was pruned. -/
def Outlived (evs : List StreamEvent) (id : ConnectionId) : Prop :=
  (∃ j ∈ (after evs).forwardedIds, id < j) ∨
    ∃ before stream rest, evs = before ++ .accept stream :: rest ∧ Evicts (after before).manager id

section Outlived
variable {evs : List StreamEvent} {ev : StreamEvent} {id : ConnectionId}

theorem outlived_concat :
    Outlived (evs ++ [ev]) id ↔ Outlived evs id ∨ ¬ NotOvertaken evs ev id ∨
      ∃ stream, ev = .accept stream ∧ Evicts (after evs).manager id := by
  have hfwd : (∃ j ∈ (after (evs ++ [ev])).forwardedIds, id < j) ↔
      (∃ j ∈ (after evs).forwardedIds, id < j) ∨ ¬ NotOvertaken evs ev id := by
    unfold NotOvertaken
    rw [forwardedIds_concat]
    simp only [List.mem_append, not_forall, not_le, exists_prop]
    constructor
    · rintro ⟨j, hj | hj, hlt⟩
      · exact Or.inl ⟨j, hj, hlt⟩
      · exact Or.inr ⟨j, hj, hlt⟩
    · rintro (⟨j, hj, hlt⟩ | ⟨j, hj, hlt⟩)
      · exact ⟨j, Or.inl hj, hlt⟩
      · exact ⟨j, Or.inr hj, hlt⟩
  have hevict : (∃ before stream rest, evs ++ [ev] = before ++ .accept stream :: rest ∧
        Evicts (after before).manager id) ↔
      (∃ before stream rest, evs = before ++ .accept stream :: rest ∧
        Evicts (after before).manager id) ∨
      ∃ stream, ev = .accept stream ∧ Evicts (after evs).manager id := by
    constructor
    · rintro ⟨before, stream, rest, he, hev⟩
      rcases List.eq_nil_or_concat rest with rfl | ⟨rest', last, rfl⟩
      · obtain ⟨rfl, hlast⟩ := List.append_inj' he rfl
        exact Or.inr ⟨stream, (List.cons.inj hlast).1, hev⟩
      · have hsplit : evs ++ [ev] = (before ++ .accept stream :: rest') ++ [last] := by
          simpa using he
        exact Or.inl ⟨before, stream, rest', (List.append_inj' hsplit rfl).1, hev⟩
    · rintro (⟨before, stream, rest, rfl, hev⟩ | ⟨stream, rfl, hev⟩)
      · exact ⟨before, stream, rest ++ [ev], by simp, hev⟩
      · exact ⟨evs, stream, [], rfl, hev⟩
  unfold Outlived
  rw [hfwd, hevict]
  exact or_or_or_comm

/-- A new connection outlives the one that is pruned to make space for it. -/
theorem outlived_accept {stream : ℕ} : Outlived (evs ++ [.accept stream]) id ↔
    Outlived evs id ∨ Evicts (after evs).manager id := by
  have hover : NotOvertaken evs (.accept stream) id := by simp [NotOvertaken, forwardedBy]
  rw [outlived_concat]
  simp [hover]

/-- A key that is forwarded outlives the older connections. -/
theorem outlived_notice (hev : ∀ stream, ev ≠ .accept stream) :
    Outlived (evs ++ [ev]) id ↔ Outlived evs id ∨ ¬ NotOvertaken evs ev id := by
  rw [outlived_concat]
  simp [hev]

theorem evicts_lt (h : accepts evs < connectionIds) (he : Evicts (after evs).manager id) :
    id < accepts evs := by
  obtain ⟨hnext, hinv⟩ := run_inv h
  rw [← hnext]
  exact hinv.keys_lt (List.mem_of_mem_head? he.2)

/-- What was outlived had been accepted. -/
theorem outlived_lt (h : accepts evs < connectionIds) (ho : Outlived evs id) :
    id < accepts evs := by
  rcases ho with ⟨j, hj, hlt⟩ | ⟨before, stream, rest, rfl, he⟩
  · obtain ⟨hnext, hinv⟩ := run_inv h
    have hj' := hinv.fwd_lt j hj
    rw [hnext] at hj'
    exact hlt.trans hj'
  · have hlt := evicts_lt (accepts_lt_of_append h) he
    rw [accepts_append]
    exact hlt.trans_le (Nat.le_add_right _ _)

/-- **A connection that has not exited is tracked exactly if it was accepted and not outlived.** -/
theorem tracked_iff_not_outlived (h : accepts evs < connectionIds) (hexit : .exit id ∉ evs) :
    Tracked (after evs).manager id ↔ id < accepts evs ∧ ¬ Outlived evs id := by
  induction evs using List.reverseRecOn with
  | nil =>
    constructor
    · rintro (hi | hi) <;> cases hi
    · rintro ⟨hlt, -⟩
      exact absurd hlt (Nat.not_lt_zero _)
  | append_singleton evs ev ih =>
    have hlt : accepts evs < connectionIds := accepts_lt_of_append h
    obtain ⟨hnext, hinv⟩ := run_inv hlt
    have hne : ev ≠ .exit id := by
      rintro rfl
      exact hexit (List.mem_append_right _ (List.mem_singleton.mpr rfl))
    have ih' := ih hlt fun hm => hexit (List.mem_append_left _ hm)
    have hstep := tracked_trans hinv (onEvent_trans (after evs).manager ev) id
    rw [keeps_iff hinv, ih', hnext] at hstep
    rw [after_concat, accepts_append]
    refine hstep.trans ?_
    by_cases hacc : ∃ stream, ev = .accept stream
    · obtain ⟨stream, rfl⟩ := hacc
      rw [outlived_accept, not_or]
      constructor
      · rintro (⟨-, -, rfl⟩ | ⟨⟨hid, ho⟩, -, -, he⟩)
        · exact ⟨Nat.lt_succ_self _, fun ho => absurd (outlived_lt hlt ho) (lt_irrefl _),
            fun he => absurd (evicts_lt hlt he) (lt_irrefl _)⟩
        · exact ⟨Nat.lt_succ_of_lt hid, ho, he stream rfl⟩
      · rintro ⟨hid, ho, he⟩
        rcases Nat.lt_succ_iff_lt_or_eq.mp hid with hid | rfl
        · exact Or.inr ⟨⟨hid, ho⟩, hne, by simp [NotOvertaken, forwardedBy], fun _ _ => he⟩
        · exact Or.inl ⟨stream, rfl, rfl⟩
    · have hev : ∀ stream, ev ≠ .accept stream := fun stream hs => hacc ⟨stream, hs⟩
      have hzero : accepts [ev] = 0 := by
        cases ev with
        | accept stream => exact absurd rfl (hev stream)
        | exit | osk => rfl
      rw [hzero, Nat.add_zero, outlived_notice hev, not_or, not_not]
      constructor
      · rintro (⟨stream, hs, -⟩ | ⟨⟨hid, ho⟩, -, hover, -⟩)
        · exact absurd hs (hev stream)
        · exact ⟨hid, ho, hover⟩
      · rintro ⟨hid, ho, hover⟩
        exact Or.inr ⟨⟨hid, ho⟩, hne, hover, fun stream hs => absurd hs (hev stream)⟩

end Outlived

/-! ### A task exits last -/

/-- The sender of a notification, and whether it is an exit. -/
def notice : StreamEvent → Option (ConnectionId × Bool)
  | .accept _ => none
  | .exit id => some (id, true)
  | .osk id _ _ => some (id, false)

def notices (evs : List StreamEvent) : List (ConnectionId × Bool) := evs.filterMap notice

theorem notices_append (evs evs' : List StreamEvent) :
    notices (evs ++ evs') = notices evs ++ notices evs' := List.filterMap_append

/-- Only a finished task has sent an exit, and nothing of a connection comes after its exit. -/
structure ExitLast (s : TcpServer) : Prop where
  lt : ∀ n ∈ notices (events s), n.1 < s.tasks.length
  finished : ∀ (i : ℕ) (t : Task), s.tasks[i]? = some t → (i, true) ∈ notices (events s) →
    t.phase = .finished
  last : (notices (events s)).Pairwise fun a b => a.2 = true → b.1 ≠ a.1

theorem exitLast_new : ExitLast TcpServer.new where
  lt := by intro n hn; cases hn
  finished := by intro i t h; simp [TcpServer.new] at h
  last := List.Pairwise.nil

section Steps
variable {s s' : TcpServer}

/-- A step of the manager sends nothing and ends no task. -/
theorem ExitLast.of_manager (h : ExitLast s) (hev : notices (events s') = notices (events s))
    (hlen : s.tasks.length ≤ s'.tasks.length)
    (htasks : ∀ (i : ℕ) (t' : Task), s'.tasks[i]? = some t' →
      (∃ t, s.tasks[i]? = some t ∧ t'.connectionId = t.connectionId ∧ t'.proto = t.proto ∧
        t'.phase = t.phase) ∨ (s.tasks.length ≤ i ∧ t' = Task.new i)) : ExitLast s' := by
  refine ⟨fun n hn => ?_, fun i t' ht' hx => ?_, ?_⟩
  · rw [hev] at hn
    exact (h.lt n hn).trans_le hlen
  · rw [hev] at hx
    rcases htasks i t' ht' with ⟨t, ht, -, -, hphase⟩ | ⟨hi, -⟩
    · rw [hphase]
      exact h.finished i t ht hx
    · exact absurd (h.lt _ hx) (not_lt.mpr hi)
  · rw [hev]
    exact h.last

theorem ExitLast.abort (h : ExitLast s) (hs : List AbortOnDropHandle)
    (htasks : s'.tasks = Server.abort hs s.tasks) (hev : events s' = events s) : ExitLast s' := by
  refine h.of_manager (by rw [hev]) (by rw [htasks, length_abort]) fun i t' ht' => ?_
  rw [htasks] at ht'
  exact Or.inl (abort_frame ht')

/-- What a step of a task sends is its own, only an alive task sends, and an exit finishes it. -/
theorem notices_task_step {E : Externals} {params : DaisywayProtocolParameters} {closed : Bool}
    {t t' : Task} {a : TaskAct} {evs : List ConnectionHandlerEvent}
    (hs : t.step E params closed a = some (t', evs)) :
    t.phase ≠ .finished ∧
      (notices (evs.map ConnectionHandlerEvent.toStreamEvent) = [] ∨
        ∃ exit, notices (evs.map ConnectionHandlerEvent.toStreamEvent) = [(t.connectionId, exit)] ∧
          (exit = true → t'.phase = .finished)) := by
  cases Task.step_trans hs with
  | proto hphase ha hp => exact ⟨by rw [hphase]; decide, Or.inl rfl⟩
  | sendOsk hphase hpc hp =>
    refine ⟨by rw [hphase]; decide, ?_⟩
    cases closed with
    | true => exact Or.inl rfl
    | false => exact Or.inr ⟨false, rfl, fun h => by cases h⟩
  | sendExit hphase =>
    refine ⟨by rw [hphase]; decide, ?_⟩
    cases closed with
    | true => exact Or.inl rfl
    | false => exact Or.inr ⟨true, rfl, fun _ => rfl⟩
  | cancel halive hab =>
    refine ⟨fun hf => ?_, Or.inl rfl⟩
    simp [Task.alive, hf] at halive

theorem exitLast_task {E : Externals} {params : DaisywayProtocolParameters} (hd : Delivers s)
    (h : ExitLast s) {i : ℕ} {a : TaskAct} {t t' : Task} {evs : List ConnectionHandlerEvent}
    (ht : s.tasks[i]? = some t) (hs : t.step E params s.ended.isSome a = some (t', evs)) :
    ExitLast { s with tasks := s.tasks.set i t', queue := s.queue ++ evs } := by
  have hid := hd.ids i t ht
  have hlt : i < s.tasks.length := (List.getElem?_eq_some_iff.mp ht).1
  obtain ⟨halive, hsent⟩ := notices_task_step hs
  rw [hid] at hsent
  have hnot : (i, true) ∉ notices (events s) := fun hx => halive (h.finished i t ht hx)
  have hev : notices (events { s with tasks := s.tasks.set i t', queue := s.queue ++ evs }) =
      notices (events s) ++ notices (evs.map ConnectionHandlerEvent.toStreamEvent) := by
    simp only [events, List.map_append, ← List.append_assoc, notices_append]
  have hown : ∀ n ∈ notices (evs.map ConnectionHandlerEvent.toStreamEvent), n.1 = i := by
    intro n hn
    rcases hsent with hnil | ⟨exit, hone, -⟩
    · rw [hnil] at hn
      cases hn
    · rw [hone] at hn
      rw [List.mem_singleton.mp hn]
  refine ⟨fun n hn => ?_, fun j u hu hx => ?_, ?_⟩
  · rw [List.length_set]
    rw [hev] at hn
    rcases List.mem_append.mp hn with hn | hn
    · exact h.lt n hn
    · rw [hown n hn]
      exact hlt
  · rw [hev] at hx
    rcases getElem?_set_cases hu with ⟨rfl, rfl⟩ | ⟨hj, hu⟩
    · rcases List.mem_append.mp hx with hx | hx
      · exact absurd hx hnot
      · rcases hsent with hnil | ⟨exit, hone, hfin⟩
        · rw [hnil] at hx
          cases hx
        · rw [hone] at hx
          exact hfin (Prod.mk.inj (List.mem_singleton.mp hx)).2.symm
    · rcases List.mem_append.mp hx with hx | hx
      · exact h.finished j u hu hx
      · exact absurd (hown _ hx) hj
  · rw [hev, List.pairwise_append]
    refine ⟨h.last, ?_, fun n hn n' hn' hexit he => ?_⟩
    · rcases hsent with hnil | ⟨exit, hone, -⟩
      · rw [hnil]
        exact List.Pairwise.nil
      · rw [hone]
        exact List.pairwise_singleton _ _
    · -- the task has sent no exit before
      rw [hown n' hn'] at he
      exact hnot (by rw [he, ← hexit]; exact hn)

/-- **A step of the server keeps the exits last.** -/
theorem step_exitLast {E : Externals} {params : DaisywayProtocolParameters} {a : Act}
    (hr : Refines s) (hd : Delivers s) (h : ExitLast s) (hs : s.step E params a = some s')
    (hlt : s'.tasks.length < connectionIds) : ExitLast s' := by
  have hlt' : s.tasks.length < connectionIds := (step_tasks_length hs).trans_lt hlt
  cases step_trans hs with
  | accept hi =>
    refine h.of_manager ?_ (length_onEvent_le _ _) fun _ _ ht' =>
      tasks_onEvent (hr.inv (idle_iff.mp hi).1 hlt').1 ht'
    have hnone : notices [.accept s.tasks.length] = [] := rfl
    simp only [events, onEvent, notices_append, hnone, List.append_nil]
  | @recv ev rest hi hq =>
    refine h.of_manager ?_ (length_onEvent_le _ _) fun _ _ ht' =>
      tasks_onEvent (hr.inv (idle_iff.mp hi).1 hlt').1 ht'
    simp only [events, onEvent, hq, List.map_cons, List.append_assoc, List.singleton_append]
  | acceptFailed hi => exact h.abort _ rfl rfl
  | oskSent hsend => exact h.abort _ rfl rfl
  | oskFailed hsend => exact h.abort _ rfl rfl
  | task ht hstep => exact exitLast_task hd h ht hstep

/-- The notification the manager receives next is the first of its connection after no exit. -/
theorem exit_notMem_received (h : ExitLast s) {ev : ConnectionHandlerEvent}
    {rest : List ConnectionHandlerEvent} (hq : s.queue = ev :: rest) {id : ConnectionId} {b : Bool}
    (hn : notice ev.toStreamEvent = some (id, b)) :
    .exit id ∉ s.received ∧ id < s.tasks.length := by
  have hmem : (id, b) ∈ notices (s.queue.map ConnectionHandlerEvent.toStreamEvent) := by
    rw [hq]
    exact List.mem_filterMap.mpr ⟨_, List.mem_cons_self, hn⟩
  have hlast := h.last
  unfold events at hlast
  rw [notices_append] at hlast
  refine ⟨fun hexit => ?_, ?_⟩
  · have hx : (id, true) ∈ notices s.received := List.mem_filterMap.mpr ⟨_, hexit, rfl⟩
    exact (List.pairwise_append.mp hlast).2.2 _ hx _ hmem rfl rfl
  · refine h.lt (id, b) ?_
    unfold events
    rw [notices_append]
    exact List.mem_append_right _ hmem

end Steps

/-! ### Whole runs -/

/-- The notification has not outlived its connection; a key older than the active connection may. -/
def Timely (s : TcpServer) : ConnectionHandlerEvent → Prop
  | .exit id => ¬ Outlived s.received id
  | .osk id _ _ => (∀ a ∈ s.manager.activeConnectionId, a ≤ id) → ¬ Outlived s.received id

/-- If the manager receives a notification, it finds its connection. -/
def FindsNext (s : TcpServer) : Act → Prop
  | .recv => ∀ ev ∈ s.queue.head?, Finds s.manager ev
  | _ => True

instance (s : TcpServer) : ∀ a, Decidable (FindsNext s a)
  | .recv => inferInstanceAs (Decidable (∀ ev ∈ s.queue.head?, Finds s.manager ev))
  | .accept | .acceptFailed | .oskSent | .oskFailed | .task _ _ => isTrue trivial

/-- If the manager receives a notification, that has not outlived its connection. -/
def TimelyNext (s : TcpServer) : Act → Prop
  | .recv => ∀ ev ∈ s.queue.head?, Timely s ev
  | _ => True

section Runs
variable {E : Externals} {params : DaisywayProtocolParameters}

theorem finds_iff_timely {s : TcpServer} (hr : Refines s) (h : ExitLast s) (hi : s.ended = none)
    (hlt : s.tasks.length < connectionIds) {ev : ConnectionHandlerEvent}
    {rest : List ConnectionHandlerEvent} (hq : s.queue = ev :: rest) :
    Finds s.manager ev ↔ Timely s ev := by
  have htracked : ∀ {id b}, notice ev.toStreamEvent = some (id, b) →
      (Tracked s.manager id ↔ ¬ Outlived s.received id) := by
    intro id b hn
    obtain ⟨hexit, hid⟩ := exit_notMem_received h hq hn
    have hlt' : accepts s.received < connectionIds := by
      rw [hr.accepts_eq]
      exact hlt
    rw [hr.manager_eq hi, tracked_iff_not_outlived hlt' hexit, hr.accepts_eq]
    exact and_iff_right hid
  cases ev with
  | exit id => exact htracked rfl
  | osk id key reason => exact imp_congr_right fun _ => htracked rfl

theorem findsNext_iff_timelyNext {s s' : TcpServer} {a : Act} (hr : Refines s) (h : ExitLast s)
    (hlt : s.tasks.length < connectionIds) (hs : s.step E params a = some s') :
    FindsNext s a ↔ TimelyNext s a := by
  cases step_trans hs with
  | @recv ev rest hi hq =>
    simp only [FindsNext, TimelyNext, hq, List.head?_cons, Option.mem_def, Option.some.injEq,
      forall_eq']
    exact finds_iff_timely hr h (idle_iff.mp hi).1 hlt hq
  | accept | acceptFailed | oskSent | oskFailed | task => exact Iff.rfl

/-- **When the warnings are unreachable.** In every run of the server with fewer than `2 ^ 64`
connections, every notification the manager processes finds its connection if and only if none has
outlived its connection: no key of a newer connection was forwarded and the connection was not
pruned before. -/
theorem warnings_unreachable_iff {acts : List Act} {s : TcpServer}
    (hrun : run (TcpServer.step E params) TcpServer.new acts = some s)
    (hlt : s.tasks.length < connectionIds) :
    Along (TcpServer.step E params) FindsNext TcpServer.new acts ↔
      Along (TcpServer.step E params) TimelyNext TcpServer.new acts := by
  refine along_congr (I := fun s => Refines s ∧ Delivers s ∧ ExitLast s)
    (J := fun s => s.tasks.length < connectionIds) ?_ ?_ ?_
    ⟨refines_new, delivers_new, exitLast_new⟩ hrun hlt
  · rintro s a s' ⟨hr, hd, he⟩ hlt hs
    exact ⟨step_refines hr hs, step_delivers hr hd hs hlt, step_exitLast hr hd he hs hlt⟩
  · intro s a s' hlt hs
    exact (step_tasks_length hs).trans_lt hlt
  · rintro s a s' ⟨hr, -, he⟩ hlt hs
    exact findsNext_iff_timelyNext hr he hlt hs

end Runs

/-! ### Sample runs -/

open Daisyway.Crypto.Lockstep (sampleExternals sampleKey sampleAnswer)
open Daisyway.Net.Zombies (sampleParams)

/-- Two connections are accepted. The second one negotiates a key, the first one fails; the key is
in the queue before the exit. -/
def sampleRace : List Act :=
  [.accept, .accept,
    .task 1 (.proto (.fetched (sampleAnswer (sampleKey 1)) (zeroed 32))),
    .task 1 (.proto (.wrote 48)), .task 1 (.proto (.read rekeyAck.dummyData)), .task 1 .sendOsk,
    .task 0 (.proto (.fetched .sendFailed (zeroed 32))), .task 0 .sendExit, .recv, .oskSent]

/-- The key promotes the second connection and drops the first one, and the exit of the first one
runs into the warning. -/
theorem exit_outlives_connection :
    ∃ s s', run (TcpServer.step sampleExternals sampleParams) TcpServer.new sampleRace = some s ∧
      s.step sampleExternals sampleParams .recv = some s' ∧ s.queue = [.exit 0] ∧
      ¬ Finds s.manager (.exit 0) ∧ warns s.manager (.exit 0) = true := by
  have h : ((run (TcpServer.step sampleExternals sampleParams) TcpServer.new sampleRace).map
      fun s => ((s.step sampleExternals sampleParams .recv).isSome, s.queue,
        warns s.manager (.exit 0))) = some (true, [.exit 0], true) := by
    decide +kernel
  obtain ⟨s, hs, he⟩ := Option.map_eq_some_iff.mp h
  simp only [Prod.mk.injEq] at he
  obtain ⟨hstep, hq, hw⟩ := he
  obtain ⟨s', hs'⟩ := Option.isSome_iff_exists.mp hstep
  exact ⟨s, s', hs, hs', hq, (warns_iff _ _).mp hw, hw⟩

/-- One connection is accepted, fails and exits. -/
def sampleFailedTask : List Act :=
  [.accept, .task 0 (.proto (.fetched .sendFailed (zeroed 32))), .task 0 .sendExit, .recv]

theorem warnings_unreachable_iff_sample :
    (run (TcpServer.step sampleExternals sampleParams) TcpServer.new sampleFailedTask).isSome ∧
      Along (TcpServer.step sampleExternals sampleParams) TimelyNext TcpServer.new
        sampleFailedTask := by
  have hfinds : Along (TcpServer.step sampleExternals sampleParams) FindsNext TcpServer.new
      sampleFailedTask := by
    decide +kernel
  have h : ((run (TcpServer.step sampleExternals sampleParams) TcpServer.new
      sampleFailedTask).map fun s => s.tasks.length) = some 1 := by
    decide +kernel
  obtain ⟨s, hs, hlen⟩ := Option.map_eq_some_iff.mp h
  refine ⟨by rw [hs]; rfl, (warnings_unreachable_iff hs ?_).mp hfinds⟩
  rw [hlen]
  decide

end Daisyway.Net.Stragglers
