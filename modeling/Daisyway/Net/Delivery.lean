import Daisyway.Lib.Lists
import Daisyway.Net.Zombies

/-! # From the tasks to the output

A task puts the keys of its negotiations into the queue, each once and in order; it stops when it is
aborted, but what it has put there stays. So the notifications of a connection carry a front of the
keys its protocol negotiated (`Delivers`). The manager forwards some of the notifications, in order
and with non-decreasing ids; hence the forwarded keys are a subsequence of the keys of the tasks,
one task after the other (`forwarded_sublist`). -/

namespace Daisyway.Net.Delivery

open Daisyway.Prim Daisyway.Crypto.Basics Daisyway.Crypto.Protocol
open Daisyway.Lib.Run Daisyway.Lib.Lists Daisyway.Osk.Deadman
open Daisyway.Net.Manager Daisyway.Net.Forwarding Daisyway.Net.Server Daisyway.Net.Server.TcpServer

/-! ### The manager forwards a subsequence -/

/-- The keys in the events, with the connection they come from. -/
def oskCalls : List StreamEvent → List (ConnectionId × SetOsk)
  | [] => []
  | .osk id key reason :: evs => (id, ⟨key, reason⟩) :: oskCalls evs
  | _ :: evs => oskCalls evs

theorem oskCalls_append : ∀ evs evs' : List StreamEvent,
    oskCalls (evs ++ evs') = oskCalls evs ++ oskCalls evs'
  | [], evs' => rfl
  | ev :: evs, evs' => by
    have ih := oskCalls_append evs evs'
    cases ev <;> simp only [List.cons_append, oskCalls, ih]

theorem forwardedBy_sublist {m m' : ConnectionManager} {ev : StreamEvent} {e : Effect}
    (ht : Manager.Trans m ev m' e) : (forwardedBy ev e).Sublist (oskCalls [ev]) := by
  cases ht with
  | accept | exitActive | exitBudding | exitUnknown | oskIgnored => exact List.nil_sublist _
  | oskActive | oskBudding => exact List.Sublist.refl _

/-- What is forwarded was received, in the same order. -/
theorem forwarded_sublist_oskCalls (evs : List StreamEvent) :
    (after evs).forwarded.Sublist (oskCalls evs) := by
  induction evs using List.reverseRecOn with
  | nil => exact List.Sublist.refl _
  | append_singleton evs ev ih =>
    rw [after_concat, oskCalls_append]
    exact ih.append (forwardedBy_sublist (onEvent_trans (after evs).manager ev))

/-! ### The keys of a task -/

/-- The key the protocol is passing to its OSK handler. -/
def pendingKey (p : ServerProtocol) : List Key :=
  match p.pc with
  | .setOsk key => [key]
  | _ => []

/-- An await other than the one of the OSK handler adds to the keys what it makes pending. -/
theorem step_keys {E : Externals} {params : DaisywayProtocolParameters} {p p' : ServerProtocol}
    {a : ServerProtocol.Act} (hs : p.step E params a = some p') (ha : isOskSet a = false) :
    pendingKey p = [] ∧ p'.keys = p.keys ++ pendingKey p' := by
  cases ServerProtocol.step_trans hs with
  | fetchOk hpc | fetchErr hpc | fetchPanic hpc | wroteSome hpc | wroteAll hpc | writeErr hpc
  | readOk hpc | readBad hpc | readErr hpc | slept hpc =>
    simp [pendingKey, hpc, ServerProtocol.complete]
  | oskOk | oskErr => cases ha

theorem oskSet_keys {E : Externals} {params : DaisywayProtocolParameters} {p p' : ServerProtocol}
    {ok : Bool} (hs : p.step E params (.oskSet ok) = some p') :
    p'.keys = p.keys ∧ pendingKey p' = [] := by
  cases ServerProtocol.step_trans hs <;> exact ⟨rfl, rfl⟩

/-- The notifications of the tasks: those the manager received, then those in the queue. -/
def events (s : TcpServer) : List StreamEvent :=
  s.received ++ s.queue.map ConnectionHandlerEvent.toStreamEvent

/-- What a task has put into the queue, `sent`, in relation to its negotiations. -/
structure SentBy (t : Task) (sent : List SetOsk) : Prop where
  front : sent <+: t.proto.keys.map setFreshOsk
  running : t.phase = .running → sent ++ (pendingKey t.proto).map setFreshOsk =
    t.proto.keys.map setFreshOsk

/-- A step of a task keeps the account of what it has sent. -/
theorem sentBy_step {E : Externals} {params : DaisywayProtocolParameters} {closed : Bool}
    {t t' : Task} {a : TaskAct} {evs : List ConnectionHandlerEvent} {sent : List SetOsk}
    (h : SentBy t sent) (hs : t.step E params closed a = some (t', evs)) :
    SentBy t' (sent ++ valuesOf t.connectionId
      (oskCalls (evs.map ConnectionHandlerEvent.toStreamEvent))) := by
  cases Task.step_trans hs with
  | @proto a p hphase ha hp =>
    obtain ⟨hnone, hkeys⟩ := step_keys hp ha
    have hsent := h.running hphase
    rw [hnone, List.map_nil, List.append_nil] at hsent
    simp only [List.map_nil, oskCalls, valuesOf_nil, List.append_nil]
    refine ⟨?_, fun _ => ?_⟩
    · simp only [Task.afterStep, hkeys, List.map_append, hsent]
      exact List.prefix_append _ _
    · simp only [Task.afterStep, hkeys, List.map_append, hsent]
  | @sendOsk key p hphase hpc hp =>
    obtain ⟨hkeys, hnone⟩ := oskSet_keys hp
    have hsent := h.running hphase
    have hpending : pendingKey t.proto = [key] := by simp [pendingKey, hpc]
    rw [hpending] at hsent
    cases closed with
    | true =>
      -- the send fails, and the protocol returns the error
      have hfailed : (t.afterStep p).phase ≠ .running := by
        cases ServerProtocol.step_trans hp
        simp [Task.afterStep]
      simp only [if_true, List.map_nil, oskCalls, valuesOf_nil, List.append_nil]
      refine ⟨?_, fun hr => absurd hr hfailed⟩
      simp only [Task.afterStep, hkeys]
      exact h.front
    | false =>
      have hval : valuesOf t.connectionId (oskCalls ([ConnectionHandlerEvent.osk t.connectionId key
          .fresh].map ConnectionHandlerEvent.toStreamEvent)) = [setFreshOsk key] := by
        simp [valuesOf, oskCalls, ConnectionHandlerEvent.toStreamEvent, setFreshOsk]
      simp only [Bool.false_eq_true, if_false, hval]
      refine ⟨?_, fun _ => ?_⟩
      · simp only [Task.afterStep, hkeys, ← hsent]
        exact List.prefix_rfl
      · simp only [Task.afterStep, hkeys, hnone, List.map_nil, List.append_nil]
        exact hsent
  | sendExit hphase =>
    have hnone : oskCalls ((if closed then [] else [ConnectionHandlerEvent.exit t.connectionId]).map
        ConnectionHandlerEvent.toStreamEvent) = [] := by
      cases closed <;> rfl
    rw [hnone, valuesOf_nil, List.append_nil]
    exact ⟨h.front, fun hr => by cases hr⟩
  | cancel halive hab =>
    simp only [List.map_nil, oskCalls, valuesOf_nil, List.append_nil]
    exact ⟨h.front, fun hr => by cases hr⟩

/-- A task speaks only for its own connection. -/
theorem task_step_ids {E : Externals} {params : DaisywayProtocolParameters} {closed : Bool}
    {t t' : Task} {a : TaskAct} {evs : List ConnectionHandlerEvent}
    (hs : t.step E params closed a = some (t', evs)) :
    ∀ c ∈ oskCalls (evs.map ConnectionHandlerEvent.toStreamEvent), c.1 = t.connectionId := by
  intro c hc
  cases Task.step_trans hs with
  | proto hphase ha hp => cases hc
  | sendOsk hphase hpc hp =>
    cases closed with
    | true => cases hc
    | false => rw [List.mem_singleton.mp hc]
  | sendExit hphase => cases closed <;> cases hc
  | cancel halive hab => cases hc

/-! ### All tasks -/

/-- The invariant of the tasks: each has its own id, and the notifications with its id are what it
has sent. -/
structure Delivers (s : TcpServer) : Prop where
  ids : ∀ (i : ℕ) (t : Task), s.tasks[i]? = some t → t.connectionId = i
  lt : ∀ c ∈ oskCalls (events s), c.1 < s.tasks.length
  sent : ∀ (i : ℕ) (t : Task), s.tasks[i]? = some t → SentBy t (valuesOf i (oskCalls (events s)))

theorem delivers_new : Delivers TcpServer.new where
  ids := by intro i t h; simp [TcpServer.new] at h
  lt := by intro c h; cases h
  sent := by intro i t h; simp [TcpServer.new] at h

section Steps
variable {s s' : TcpServer}

/-- A step of the manager: the notifications stay, tasks are asked to stop, and at most new tasks
are added. -/
theorem Delivers.of_manager (h : Delivers s) (hev : oskCalls (events s') = oskCalls (events s))
    (hlen : s.tasks.length ≤ s'.tasks.length)
    (htasks : ∀ (i : ℕ) (t' : Task), s'.tasks[i]? = some t' →
      (∃ t, s.tasks[i]? = some t ∧ t'.connectionId = t.connectionId ∧ t'.proto = t.proto ∧
        t'.phase = t.phase) ∨ (s.tasks.length ≤ i ∧ t' = Task.new i)) : Delivers s' := by
  refine ⟨fun i t' ht' => ?_, fun c hc => ?_, fun i t' ht' => ?_⟩
  · rcases htasks i t' ht' with ⟨t, ht, hid, -, -⟩ | ⟨-, rfl⟩
    · rw [hid]
      exact h.ids i t ht
    · rfl
  · rw [hev] at hc
    exact (h.lt c hc).trans_le hlen
  · rw [hev]
    rcases htasks i t' ht' with ⟨t, ht, -, hproto, hphase⟩ | ⟨hi, rfl⟩
    · obtain ⟨hfront, hrun⟩ := h.sent i t ht
      exact ⟨by rw [hproto]; exact hfront, by rw [hproto, hphase]; exact hrun⟩
    · -- no notification carries the id of a task that did not exist
      have hnil : valuesOf i (oskCalls (events s)) = [] := by
        refine valuesOf_eq_nil fun c hc he => ?_
        have hlt := h.lt c hc
        rw [he] at hlt
        exact absurd hlt (not_lt.mpr hi)
      rw [hnil]
      exact ⟨List.nil_prefix, fun _ => rfl⟩

theorem Delivers.abort (h : Delivers s) (hs : List AbortOnDropHandle)
    (htasks : s'.tasks = Server.abort hs s.tasks) (hev : events s' = events s) : Delivers s' := by
  refine h.of_manager (by rw [hev]) (by rw [htasks, length_abort]) fun i t' ht' => ?_
  rw [htasks] at ht'
  exact Or.inl (abort_frame ht')

/-- An event adds the task of the next id if it is an accept, and none otherwise. -/
theorem tasks_onEvent {queue : List ConnectionHandlerEvent} {ev : StreamEvent}
    (hnext : s.manager.nextConnectionId = s.tasks.length) {i : ℕ} {t' : Task}
    (ht' : ({ s with queue }.onEvent ev).tasks[i]? = some t') :
    (∃ t, s.tasks[i]? = some t ∧ t'.connectionId = t.connectionId ∧ t'.proto = t.proto ∧
      t'.phase = t.phase) ∨ (s.tasks.length ≤ i ∧ t' = Task.new i) := by
  have hnew : ∀ t ∈ ((s.manager.onEvent ev).2.spawned.map fun spawn => Task.new spawn.1).toList,
      t = Task.new s.tasks.length := by
    intro t ht
    have htrans := onEvent_trans s.manager ev
    generalize s.manager.onEvent ev = r at ht htrans
    obtain ⟨m', e⟩ := r
    cases htrans with
    | accept stream hspace =>
      rw [← hnext]
      exact List.mem_singleton.mp ht
    | exitActive | exitBudding | exitUnknown | oskActive | oskBudding | oskIgnored => cases ht
  have htasks : ({ s with queue }.onEvent ev).tasks =
      abort (s.manager.onEvent ev).2.dropped s.tasks ++
        ((s.manager.onEvent ev).2.spawned.map fun spawn => Task.new spawn.1).toList := rfl
  rw [htasks] at ht'
  by_cases hi : i < s.tasks.length
  · rw [List.getElem?_append_left (by rw [length_abort]; exact hi)] at ht'
    exact Or.inl (abort_frame ht')
  · rw [List.getElem?_append_right (by rw [length_abort]; omega), length_abort] at ht'
    -- the spawned task is alone at the end
    have hlen := length_spawned s.manager ev
    have hone : accepts [ev] ≤ 1 := by cases ev <;> simp [accepts]
    have hlt := (List.getElem?_eq_some_iff.mp ht').1
    obtain rfl : i = s.tasks.length := by omega
    exact Or.inr ⟨le_rfl, hnew t' (List.mem_of_getElem? ht')⟩

theorem length_onEvent_le (queue : List ConnectionHandlerEvent) (ev : StreamEvent) :
    s.tasks.length ≤ ({ s with queue }.onEvent ev).tasks.length := by
  simp only [onEvent, List.length_append, length_abort]
  omega

theorem delivers_onEvent (h : Delivers s) {queue : List ConnectionHandlerEvent} {ev : StreamEvent}
    (hnext : s.manager.nextConnectionId = s.tasks.length)
    (hev : oskCalls (s.received ++ [ev] ++ queue.map ConnectionHandlerEvent.toStreamEvent) =
      oskCalls (events s)) : Delivers ({ s with queue }.onEvent ev) :=
  h.of_manager hev (length_onEvent_le queue ev) fun _ _ ht' => tasks_onEvent hnext ht'

theorem delivers_task {E : Externals} {params : DaisywayProtocolParameters} (h : Delivers s) {i : ℕ}
    {a : TaskAct} {t t' : Task} {evs : List ConnectionHandlerEvent} (ht : s.tasks[i]? = some t)
    (hs : t.step E params s.ended.isSome a = some (t', evs)) :
    Delivers { s with tasks := s.tasks.set i t', queue := s.queue ++ evs } := by
  have hid := h.ids i t ht
  have hlt : i < s.tasks.length := (List.getElem?_eq_some_iff.mp ht).1
  have hframe := (Task.step_frame hs).1
  have hown := task_step_ids hs
  rw [hid] at hown
  have hev : oskCalls (events { s with tasks := s.tasks.set i t', queue := s.queue ++ evs }) =
      oskCalls (events s) ++ oskCalls (evs.map ConnectionHandlerEvent.toStreamEvent) := by
    simp only [events, List.map_append, ← List.append_assoc, oskCalls_append]
  refine ⟨fun j u hu => ?_, fun c hc => ?_, fun j u hu => ?_⟩
  · rcases getElem?_set_cases hu with ⟨rfl, rfl⟩ | ⟨-, hu⟩
    · rw [hframe, hid]
    · exact h.ids j u hu
  · rw [hev] at hc
    rw [List.length_set]
    rcases List.mem_append.mp hc with hc | hc
    · exact h.lt c hc
    · rw [hown c hc]
      exact hlt
  · rw [hev, valuesOf_append]
    rcases getElem?_set_cases hu with ⟨rfl, rfl⟩ | ⟨hj, hu⟩
    · have hsent := sentBy_step (h.sent j t ht) hs
      rwa [hid] at hsent
    · rw [valuesOf_eq_nil fun c hc he => hj (he.symm.trans (hown c hc)), List.append_nil]
      exact h.sent j u hu

/-- **A step of the server keeps the account of every task.** -/
theorem step_delivers {E : Externals} {params : DaisywayProtocolParameters} {a : Act}
    (hr : Refines s) (h : Delivers s) (hs : s.step E params a = some s')
    (hlt : s'.tasks.length < connectionIds) : Delivers s' := by
  have hlt' : s.tasks.length < connectionIds := (step_tasks_length hs).trans_lt hlt
  cases step_trans hs with
  | accept hi =>
    refine delivers_onEvent h (hr.inv (idle_iff.mp hi).1 hlt').1 ?_
    simp only [events, oskCalls_append, oskCalls, List.append_nil]
  | @recv ev rest hi hq =>
    refine delivers_onEvent h (hr.inv (idle_iff.mp hi).1 hlt').1 ?_
    simp only [events, hq, List.map_cons, List.append_assoc, List.singleton_append]
  | acceptFailed hi => exact h.abort _ rfl rfl
  | oskSent hsend => exact h.abort _ rfl rfl
  | oskFailed hsend => exact h.abort _ rfl rfl
  | task ht hstep => exact delivers_task h ht hstep

theorem run_delivers {E : Externals} {params : DaisywayProtocolParameters} {acts : List Act}
    (hrun : run (TcpServer.step E params) TcpServer.new acts = some s)
    (hlt : s.tasks.length < connectionIds) : Refines s ∧ Delivers s := by
  have hinv : Refines s ∧ (s.tasks.length < connectionIds → Delivers s) := by
    refine run_invariant (I := fun s => Refines s ∧ (s.tasks.length < connectionIds → Delivers s))
      ?_ ⟨refines_new, fun _ => delivers_new⟩ hrun
    intro s a s' hI hs
    refine ⟨step_refines hI.1 hs, fun hlt => ?_⟩
    exact step_delivers hI.1 (hI.2 ((step_tasks_length hs).trans_lt hlt)) hs hlt
  exact ⟨hinv.1, hinv.2 hlt⟩

/-- **The forwarded keys are a subsequence of the keys of the tasks, one after the other.** -/
theorem forwarded_sublist (hr : Refines s) (h : Delivers s) (hlt : s.tasks.length < connectionIds) :
    (s.forwarded.map Prod.snd).Sublist
      (s.tasks.map fun t => t.proto.keys.map setFreshOsk).flatten := by
  have hlt' : accepts s.received < connectionIds := by
    rw [hr.accepts_eq]
    exact hlt
  obtain ⟨hnext, hinv⟩ := run_inv hlt'
  have hsub : s.forwarded.Sublist (oskCalls (events s)) := by
    rw [hr.forwarded_eq]
    refine (forwarded_sublist_oskCalls s.received).trans ?_
    unfold events
    rw [oskCalls_append]
    exact List.sublist_append_left _ _
  rw [← flatMap_range_getElem?, List.length_map]
  refine sublist_flatMap_of_sorted ?_ (fun e he => h.lt e (hsub.subset he)) fun i hi => ?_
  · have hsorted := hinv.fwd_sorted
    unfold History.forwardedIds at hsorted
    rw [hr.forwarded_eq]
    exact List.pairwise_map.mp hsorted
  · obtain ⟨t, ht⟩ : ∃ t, s.tasks[i]? = some t := ⟨_, List.getElem?_eq_getElem hi⟩
    refine (valuesOf_sublist hsub).trans ?_
    rw [List.getElem?_map, ht]
    exact (h.sent i t ht).front.sublist

end Steps

end Daisyway.Net.Delivery
