import Mathlib.Data.List.Perm.Basic
import Daisyway.Net.Zombies

/-! # Which tasks are asked to stop

A task is asked to stop when the handle of its connection is dropped. The manager holds the handles
of the active and of the budding connections; while it waits for its OSK handler it also holds those
it has removed and not dropped yet. In every run, a task is asked to stop exactly if the manager
does not hold its handle (`stopped_iff_dropped`): no task is forgotten, and none is stopped that is
still tracked. As the manager never holds more than `MAX_BUDDING_CONNECTIONS + 1` handles, there are
never more tasks than that which are not asked to stop, however many hosts connect. -/

namespace Daisyway.Net.Aborts

open Daisyway.Crypto.Basics Daisyway.Crypto.Protocol
open Daisyway.Lib.Lists Daisyway.Lib.Maps Daisyway.Lib.Run Daisyway.Osk.Deadman
open Daisyway.Net.Manager Daisyway.Net.Handles Daisyway.Net.Server Daisyway.Net.Server.TcpServer
open Daisyway.Net.Zombies (spawned_stream)

/-- The handles that are not dropped yet. -/
def heldHandles (s : TcpServer) : List AbortOnDropHandle := handles s.manager ++ s.removed

/-- The streams of the handles. -/
def streamsOf (hs : List AbortOnDropHandle) : List StreamId := hs.map AbortOnDropHandle.stream

/-- The account of the handles. -/
structure Held (s : TcpServer) : Prop where
  distinct : (streamsOf (heldHandles s)).Nodup
  lt : ∀ i ∈ streamsOf (heldHandles s), i < s.tasks.length
  stopped : ∀ (i : ℕ) (t : Task), s.tasks[i]? = some t →
    (t.abortRequested = true ↔ i ∉ streamsOf (heldHandles s))
  ended : s.ended ≠ none → heldHandles s = []

theorem held_new : Held TcpServer.new where
  distinct := List.nodup_nil
  lt := by intro i hi; cases hi
  stopped := by intro i t ht; simp [TcpServer.new] at ht
  ended := fun h => absurd rfl h

/-! ### An event -/

section Event
variable {s : TcpServer} {ev : StreamEvent}

/-- The handles an event removes are those the manager keeps until its OSK handler has returned. -/
theorem removed_onEvent (s : TcpServer) (ev : StreamEvent) :
    (s.onEvent ev).removed = (s.manager.onEvent ev).2.removed := by
  have hs : (s.onEvent ev).sending = (s.manager.onEvent ev).2.setOsk.map fun call =>
    ⟨call, (s.manager.onEvent ev).2.removed⟩ := rfl
  unfold removed
  rw [hs]
  have ht := onEvent_trans s.manager ev
  generalize s.manager.onEvent ev = r at ht
  obtain ⟨m', e⟩ := r
  cases ht <;> rfl

/-- **What is held after an event and what it drops at once** is what was held before, and the new
handle. -/
theorem perm_onEvent (hidle : s.sending = none) (ev : StreamEvent) :
    (streamsOf (heldHandles (s.onEvent ev)) ++ streamsOf (s.manager.onEvent ev).2.dropped).Perm
      (streamsOf (heldHandles s) ++ streamsOf (s.manager.onEvent ev).2.spawnedHandle) := by
  have hp := trans_handles (onEvent_trans s.manager ev)
  have hheld : heldHandles s = handles s.manager := by
    unfold heldHandles TcpServer.removed
    rw [hidle, List.append_nil]
  have hheld' : heldHandles (s.onEvent ev) =
      handles (s.manager.onEvent ev).1 ++ (s.manager.onEvent ev).2.removed := by
    unfold heldHandles
    rw [removed_onEvent]
    rfl
  rw [hheld, hheld']
  unfold streamsOf
  rw [← List.map_append, ← List.map_append]
  refine List.Perm.map _ (List.Perm.trans ?_ hp)
  unfold Effect.allDropped
  rw [List.append_assoc]
  exact List.perm_append_comm.append_left _

/-- A spawned task has the next stream, and its handle is not dropped. -/
theorem spawned_held (hev : ∀ stream, ev = .accept stream → stream = s.tasks.length) :
    (streamsOf (s.manager.onEvent ev).2.spawnedHandle = [] ∧ accepts [ev] = 0) ∨
      (streamsOf (s.manager.onEvent ev).2.spawnedHandle = [s.tasks.length] ∧ accepts [ev] = 1 ∧
        s.tasks.length ∈ streamsOf (heldHandles (s.onEvent ev))) := by
  have ht := onEvent_trans s.manager ev
  have hmanager : (s.onEvent ev).manager = (s.manager.onEvent ev).1 := rfl
  unfold heldHandles handles
  rw [hmanager]
  generalize s.manager.onEvent ev = r at ht
  obtain ⟨m', e⟩ := r
  cases ht with
  | @accept stream budding pruned hspace =>
    obtain rfl := hev stream rfl
    refine Or.inr ⟨rfl, rfl, ?_⟩
    have hnew : (s.manager.nextConnectionId, (⟨s.manager.nextConnectionId, s.tasks.length⟩ :
        AbortOnDropHandle)) ∈ (budding.insert s.manager.nextConnectionId
          ⟨s.manager.nextConnectionId, s.tasks.length⟩).entries :=
      OrdMap.mem_insert.mpr (Or.inl rfl)
    refine List.mem_map.mpr ⟨⟨s.manager.nextConnectionId, s.tasks.length⟩, ?_, rfl⟩
    refine List.mem_append_left _ (List.mem_append_right _ ?_)
    exact List.mem_map_of_mem (f := Prod.snd) hnew
  | exitActive | exitBudding | exitUnknown | oskActive | oskBudding | oskIgnored =>
    exact Or.inl ⟨rfl, rfl⟩

/-- The request to stop after an event: it is new for the tasks whose handle the event drops. -/
theorem abortRequested_onEvent {i : ℕ} {t' : Task} (ht' : (s.onEvent ev).tasks[i]? = some t') :
    (∃ t, s.tasks[i]? = some t ∧ (t'.abortRequested = true ↔
      t.abortRequested = true ∨ i ∈ streamsOf (s.manager.onEvent ev).2.dropped)) ∨
      (i = s.tasks.length ∧ accepts [ev] = 1 ∧ t'.abortRequested = false) := by
  have htasks : (s.onEvent ev).tasks = abort (s.manager.onEvent ev).2.dropped s.tasks ++
      ((s.manager.onEvent ev).2.spawned.map fun spawn => Task.new spawn.1).toList := rfl
  rw [htasks] at ht'
  by_cases hi : i < s.tasks.length
  · rw [List.getElem?_append_left (by rw [length_abort]; exact hi), getElem?_abort] at ht'
    obtain ⟨t, ht, rfl⟩ := Option.map_eq_some_iff.mp ht'
    refine Or.inl ⟨t, ht, ?_⟩
    unfold streamsOf
    split_ifs with hmem
    · simp [hmem]
    · simp [hmem]
  · rw [List.getElem?_append_right (by rw [length_abort]; omega), length_abort] at ht'
    have hlen := length_spawned s.manager ev
    have hone : accepts [ev] ≤ 1 := by cases ev <;> simp [accepts]
    have hlt := (List.getElem?_eq_some_iff.mp ht').1
    refine Or.inr ⟨by omega, by omega, ?_⟩
    obtain ⟨spawn, -, rfl⟩ :=
      Option.map_eq_some_iff.mp (Option.mem_toList.mp (List.mem_of_getElem? ht'))
    rfl

theorem held_onEvent (h : Held s) (hrun : s.ended = none) (hidle : s.sending = none)
    (hev : ∀ stream, ev = .accept stream → stream = s.tasks.length) : Held (s.onEvent ev) := by
  have hp := perm_onEvent hidle ev
  have hspawned := spawned_held hev
  have hnew : ∀ i ∈ streamsOf (s.manager.onEvent ev).2.spawnedHandle,
      i = s.tasks.length ∧ accepts [ev] = 1 := by
    intro i hi
    rcases hspawned with ⟨hnone, -⟩ | ⟨hnew, hone, -⟩
    · rw [hnone] at hi
      cases hi
    · rw [hnew] at hi
      exact ⟨List.mem_singleton.mp hi, hone⟩
  have hold : (streamsOf (heldHandles s) ++
      streamsOf (s.manager.onEvent ev).2.spawnedHandle).Nodup := by
    refine List.nodup_append.mpr ⟨h.distinct, ?_, fun i hi j hj => ?_⟩
    · rcases hspawned with ⟨hnone, -⟩ | ⟨hone, -⟩
      · rw [hnone]
        exact List.nodup_nil
      · rw [hone]
        exact List.nodup_singleton _
    · rw [(hnew j hj).1]
      exact (h.lt i hi).ne
  obtain ⟨hdistinct, -, hapart⟩ := List.nodup_append.mp (hp.symm.nodup hold)
  have hmem : ∀ i, i ∈ streamsOf (heldHandles (s.onEvent ev)) ∨
      i ∈ streamsOf (s.manager.onEvent ev).2.dropped ↔ i ∈ streamsOf (heldHandles s) ∨
        i ∈ streamsOf (s.manager.onEvent ev).2.spawnedHandle := by
    intro i
    rw [← List.mem_append, ← List.mem_append]
    exact hp.mem_iff
  have hlen : (s.onEvent ev).tasks.length = s.tasks.length + accepts [ev] := by
    simp only [TcpServer.onEvent, List.length_append, length_abort, length_spawned]
  refine ⟨hdistinct, fun i hi => ?_, fun i t' ht' => ?_, fun he => absurd hrun he⟩
  · rw [hlen]
    rcases (hmem i).mp (Or.inl hi) with hi | hi
    · exact Nat.lt_add_right _ (h.lt i hi)
    · obtain ⟨rfl, hone⟩ := hnew i hi
      rw [hone]
      exact Nat.lt_succ_self _
  · rcases abortRequested_onEvent ht' with ⟨t, ht, hstop⟩ | ⟨rfl, hone, hfalse⟩
    · have hlt : i < s.tasks.length := (List.getElem?_eq_some_iff.mp ht).1
      have hsame : i ∉ streamsOf (s.manager.onEvent ev).2.spawnedHandle :=
        fun hi => hlt.ne (hnew i hi).1
      have hi := hmem i
      have hnot := hapart i
      rw [hstop, h.stopped i t ht]
      grind
    · -- the new task
      rcases hspawned with ⟨-, hzero⟩ | ⟨-, -, hin⟩
      · omega
      · simp [hfalse, hin]

end Event

/-! ### Whole runs -/

section Runs
variable {E : Externals} {params : DaisywayProtocolParameters} {s s' : TcpServer} {a : Act}

/-- Dropping some of the handles. -/
theorem Held.drop (h : Held s) (kept : List AbortOnDropHandle) {dropped : List AbortOnDropHandle}
    (hsplit : heldHandles s = kept ++ dropped) (hheld : heldHandles s' = kept)
    (htasks : s'.tasks = abort dropped s.tasks) (hended : s'.ended ≠ none → kept = []) :
    Held s' := by
  have hd := h.distinct
  have hstopped := h.stopped
  have hlt := h.lt
  rw [hsplit] at hd hstopped hlt
  unfold streamsOf at hd hstopped hlt
  rw [List.map_append] at hd hlt
  obtain ⟨hkept, -, hapart⟩ := List.nodup_append.mp hd
  refine ⟨?_, fun i hi => ?_, fun i t' ht' => ?_, fun he => hheld.trans (hended he)⟩
  · rw [hheld]
    exact hkept
  · rw [hheld] at hi
    rw [htasks, length_abort]
    exact hlt i (List.mem_append_left _ hi)
  · rw [htasks, getElem?_abort] at ht'
    obtain ⟨t, ht, rfl⟩ := Option.map_eq_some_iff.mp ht'
    have hold := hstopped i t ht
    have hnot := hapart i
    rw [List.map_append, List.mem_append] at hold
    rw [hheld]
    unfold streamsOf
    split_ifs with hi
    · simp only [true_iff]
      exact fun hk => hnot hk i hi rfl
    · rw [hold, or_iff_left hi]

theorem held_endLoop (h : Held s) (why : LoopEnd) : Held (s.endLoop why) :=
  h.drop [] rfl rfl rfl fun _ => rfl

theorem held_oskSent (h : Held s) :
    Held { s with sending := none, tasks := abort s.removed s.tasks } := by
  have hkept : heldHandles { s with sending := none, tasks := abort s.removed s.tasks } =
      handles s.manager := List.append_nil _
  refine h.drop (handles s.manager) rfl hkept rfl fun he => ?_
  exact (List.append_eq_nil_iff.mp (h.ended he)).1

theorem held_task (h : Held s) {i : StreamId} {ta : TaskAct} {t t' : Task}
    {evs : List ConnectionHandlerEvent} (ht : s.tasks[i]? = some t)
    (hs : t.step E params s.ended.isSome ta = some (t', evs)) :
    Held { s with tasks := s.tasks.set i t', queue := s.queue ++ evs } := by
  refine ⟨h.distinct, fun j hj => ?_, fun j u hu => ?_, h.ended⟩
  · rw [List.length_set]
    exact h.lt j hj
  · rcases getElem?_set_cases hu with ⟨rfl, rfl⟩ | ⟨-, hu⟩
    · rw [(Task.step_frame hs).2]
      exact h.stopped j t ht
    · exact h.stopped j u hu

/-- **A step keeps the account of the handles.** -/
theorem step_held (h : Held s) (hs : s.step E params a = some s') : Held s' := by
  cases step_trans hs with
  | accept hi =>
    obtain ⟨hrun, hidle⟩ := idle_iff.mp hi
    refine held_onEvent h hrun hidle fun stream he => ?_
    cases he
    rfl
  | acceptFailed hi => exact held_endLoop h _
  | @recv ev rest hi hq =>
    obtain ⟨hrun, hidle⟩ := idle_iff.mp hi
    have hrest : Held { s with queue := rest } := ⟨h.distinct, h.lt, h.stopped, h.ended⟩
    refine held_onEvent hrest hrun hidle fun stream he => ?_
    cases ev <;> cases he
  | oskSent hsend => exact held_oskSent h
  | oskFailed hsend => exact held_endLoop h _
  | task ht hstep => exact held_task h ht hstep

/-- The manager holds the handle of the active connection and those of the budding ones. -/
theorem length_handles_le {m : ConnectionManager} {fwd : List ConnectionId} (h : Inv m fwd) :
    (handles m).length ≤ maxBuddingConnections + 1 := by
  have hactive : (activeHandles m).length ≤ 1 := by
    unfold activeHandles
    cases m.activeConnection <;> simp
  have hbudding := h.len_le
  unfold OrdMap.len at hbudding
  unfold handles
  rw [List.length_append, List.length_map]
  omega

/-- An event that is not an accept adds no handle. -/
theorem length_held_notice (hidle : s.sending = none) {ev : StreamEvent}
    (hev : ∀ stream, ev ≠ .accept stream) :
    (heldHandles (s.onEvent ev)).length ≤ (heldHandles s).length := by
  have hnone : (s.manager.onEvent ev).2.spawnedHandle = [] := by
    refine List.eq_nil_iff_forall_not_mem.mpr fun handle hh => ?_
    exact hev _ (spawned_stream hh).1
  have hlen := (perm_onEvent hidle ev).length_eq
  rw [hnone] at hlen
  simp only [streamsOf, List.map_nil, List.length_append, List.length_map, List.length_nil] at hlen
  omega

/-- **A step keeps the number of the handles bounded.** -/
theorem step_length_held (hr : Refines s)
    (h : (heldHandles s).length ≤ maxBuddingConnections + 1)
    (hs : s.step E params a = some s') (hlt : s'.tasks.length < connectionIds) :
    (heldHandles s').length ≤ maxBuddingConnections + 1 := by
  have hr' := step_refines hr hs
  cases step_trans hs with
  | accept hi =>
    -- nothing is removed, so the manager's own bound applies
    have hnone : (s.onEvent (.accept s.tasks.length)).removed = [] := by
      rw [removed_onEvent]
      rfl
    unfold heldHandles
    rw [hnone, List.append_nil]
    exact length_handles_le (hr'.inv (idle_iff.mp hi).1 hlt).2
  | @recv ev rest hi hq =>
    refine (length_held_notice (s := { s with queue := rest }) (idle_iff.mp hi).2 ?_).trans h
    intro stream he
    cases ev <;> cases he
  | oskSent hsend =>
    refine le_trans ?_ h
    unfold heldHandles
    simp only [TcpServer.removed, List.append_nil, List.length_append]
    omega
  | acceptFailed hi | oskFailed hsend => exact Nat.zero_le _
  | task ht hstep => exact h

theorem run_held {acts : List Act}
    (hrun : run (TcpServer.step E params) TcpServer.new acts = some s) :
    Held s ∧ (s.tasks.length < connectionIds →
      (heldHandles s).length ≤ maxBuddingConnections + 1) := by
  have hinv : Refines s ∧ Held s ∧ (s.tasks.length < connectionIds →
      (heldHandles s).length ≤ maxBuddingConnections + 1) := by
    refine run_invariant (I := fun s => Refines s ∧ Held s ∧ (s.tasks.length < connectionIds →
      (heldHandles s).length ≤ maxBuddingConnections + 1)) ?_
      ⟨refines_new, held_new, fun _ => Nat.zero_le _⟩ hrun
    intro s a s' hI hs
    refine ⟨step_refines hI.1 hs, step_held hI.2.1 hs, fun hlt => ?_⟩
    exact step_length_held hI.1 (hI.2.2 ((step_tasks_length hs).trans_lt hlt)) hs hlt
  exact hinv.2

/-- **Which tasks are asked to stop.** In every run of the server, a task is asked to stop exactly
if the manager does not hold its handle any more, and as many tasks are not asked to stop as handles
are held: at most `MAX_BUDDING_CONNECTIONS + 1`, however many connections (fewer than `2 ^ 64`) were
accepted, and none once the loop has ended. -/
theorem stopped_iff_dropped {acts : List Act}
    (hrun : run (TcpServer.step E params) TcpServer.new acts = some s) :
    (∀ (i : ℕ) (t : Task), s.tasks[i]? = some t →
      (t.abortRequested = true ↔ i ∉ streamsOf (heldHandles s))) ∧
    (s.tasks.filter fun t => !t.abortRequested).length = (heldHandles s).length ∧
    (s.tasks.length < connectionIds →
      (s.tasks.filter fun t => !t.abortRequested).length ≤ maxBuddingConnections + 1) ∧
    (s.ended ≠ none → ∀ t ∈ s.tasks, t.abortRequested = true) := by
  obtain ⟨hheld, hbound⟩ := run_held hrun
  have hcount : (s.tasks.filter fun t => !t.abortRequested).length = (heldHandles s).length := by
    have hlen : (streamsOf (heldHandles s)).length = (heldHandles s).length := List.length_map _
    rw [← hlen]
    refine length_filter_of_positions hheld.distinct hheld.lt fun i t ht => ?_
    have hi := hheld.stopped i t ht
    rw [Bool.not_eq_true', ← Bool.not_eq_true, hi, not_not]
  refine ⟨hheld.stopped, hcount, fun hlt => ?_, fun hended t ht => ?_⟩
  · rw [hcount]
    exact hbound hlt
  · obtain ⟨i, hi⟩ := List.getElem?_of_mem ht
    refine (hheld.stopped i t hi).mpr ?_
    rw [hheld.ended hended]
    exact List.not_mem_nil

end Runs

/-! ### A sample run -/

open Daisyway.Prim (zeroed)
open Daisyway.Crypto.Lockstep (sampleExternals sampleKey sampleAnswer)
open Daisyway.Net.Zombies (sampleParams)

/-- Two connections; the second one negotiates a key and supersedes the first. -/
def sampleTakeover : List Act :=
  [.accept, .accept, .task 1 (.proto (.fetched (sampleAnswer (sampleKey 1)) (zeroed 32))),
    .task 1 (.proto (.wrote 48)), .task 1 (.proto (.read rekeyAck.dummyData)), .task 1 .sendOsk,
    .recv, .oskSent]

theorem stopped_iff_dropped_sample :
    ∃ s, run (TcpServer.step sampleExternals sampleParams) TcpServer.new sampleTakeover = some s ∧
      s.tasks.map Task.abortRequested = [true, false] ∧ 0 ∉ streamsOf (heldHandles s) ∧
      (s.tasks.filter fun t => !t.abortRequested).length = (heldHandles s).length := by
  have h : ((run (TcpServer.step sampleExternals sampleParams) TcpServer.new sampleTakeover).map
      fun s => s.tasks.map Task.abortRequested) = some [true, false] := by
    decide +kernel
  obtain ⟨s, hs, hstop⟩ := Option.map_eq_some_iff.mp h
  obtain ⟨hiff, hcount, -⟩ := stopped_iff_dropped hs
  have hzero : (s.tasks.map Task.abortRequested)[0]? = some true := by rw [hstop]; rfl
  rw [List.getElem?_map] at hzero
  obtain ⟨t, ht, hab⟩ := Option.map_eq_some_iff.mp hzero
  exact ⟨s, hs, hstop, (hiff 0 t ht).mp hab, hcount⟩

end Daisyway.Net.Aborts
