import Daisyway.Net.Delivery

/-! # No key of a tracked connection is lost

`Delivery` says that nothing is forwarded that was not negotiated. This is the other direction: as
long as the loop of the manager runs, every key a task negotiated is in the notifications, except
the one it is about to send (`sent`), and every key the manager received from a connection it still
tracks has been forwarded (`forwarded`). So the keys of a tracked connection are those forwarded,
then those in the queue, then the one on its way into the queue (`no_lost_key`). -/

namespace Daisyway.Net.Completeness

open Daisyway.Prim Daisyway.Crypto.Basics Daisyway.Crypto.Protocol
open Daisyway.Lib.Run Daisyway.Lib.Lists Daisyway.Osk.Deadman
open Daisyway.Net.Manager Daisyway.Net.Forwarding Daisyway.Net.Server Daisyway.Net.Server.TcpServer
open Daisyway.Net.Delivery

/-- The keys of a connection that are in the queue. -/
def queuedKeys (s : TcpServer) (id : ConnectionId) : List SetOsk :=
  valuesOf id (oskCalls (s.queue.map ConnectionHandlerEvent.toStreamEvent))

/-- The key the task is about to put into the queue. -/
def pendingCall (t : Task) : List SetOsk := (pendingKey t.proto).map setFreshOsk

/-- The account of the keys while the loop runs. -/
structure Complete (s : TcpServer) : Prop where
  sent : ∀ (i : ℕ) (t : Task), s.tasks[i]? = some t →
    valuesOf i (oskCalls (events s)) ++ pendingCall t = t.proto.keys.map setFreshOsk
  forwarded : ∀ id, Tracked s.manager id →
    valuesOf id s.forwarded = valuesOf id (oskCalls s.received)

theorem complete_new : Complete TcpServer.new where
  sent := by intro i t h; simp [TcpServer.new] at h
  forwarded := by rintro id (h | h) <;> cases h

/-! ### The tasks -/

section Task
variable {E : Externals} {params : DaisywayProtocolParameters} {t t' : Task} {a : TaskAct}
  {evs : List ConnectionHandlerEvent} {sent : List SetOsk}

/-- A task sends every key it negotiates while the queue is open. -/
theorem sent_step (hs : t.step E params false a = some (t', evs))
    (h : sent ++ pendingCall t = t.proto.keys.map setFreshOsk) :
    sent ++ valuesOf t.connectionId (oskCalls (evs.map ConnectionHandlerEvent.toStreamEvent)) ++
      pendingCall t' = t'.proto.keys.map setFreshOsk := by
  cases Task.step_trans hs with
  | proto hphase ha hp =>
    obtain ⟨hnone, hkeys⟩ := step_keys hp ha
    rw [pendingCall, hnone, List.map_nil, List.append_nil] at h
    simp only [List.map_nil, oskCalls, valuesOf_nil, List.append_nil, pendingCall, Task.afterStep,
      hkeys, List.map_append, h]
  | @sendOsk key p hphase hpc hp =>
    obtain ⟨hkeys, hnone⟩ := oskSet_keys hp
    have hpending : pendingKey t.proto = [key] := by simp [pendingKey, hpc]
    rw [pendingCall, hpending] at h
    have hval : valuesOf t.connectionId (oskCalls ([ConnectionHandlerEvent.osk t.connectionId key
        .fresh].map ConnectionHandlerEvent.toStreamEvent)) = [setFreshOsk key] := by
      simp [valuesOf, oskCalls, ConnectionHandlerEvent.toStreamEvent, setFreshOsk]
    simp only [Bool.false_eq_true, if_false, hval, pendingCall, Task.afterStep, hkeys, hnone,
      List.map_nil, List.append_nil]
    exact h
  | sendExit hphase =>
    have hnone : oskCalls ([ConnectionHandlerEvent.exit t.connectionId].map
        ConnectionHandlerEvent.toStreamEvent) = [] := rfl
    simp only [Bool.false_eq_true, if_false, hnone, valuesOf_nil, List.append_nil]
    exact h
  | cancel halive hab =>
    simp only [List.map_nil, oskCalls, valuesOf_nil, List.append_nil]
    exact h

end Task

/-! ### The manager -/

section Manager
variable {m : ConnectionManager} {fwd : List ConnectionId}

/-- An event other than an accept makes no connection tracked. -/
theorem tracked_of_notice (h : Inv m fwd) {ev : ConnectionHandlerEvent} {id : ConnectionId}
    (ht : Tracked (m.onEvent ev.toStreamEvent).1 id) : Tracked m id := by
  rcases (tracked_trans h (onEvent_trans m ev.toStreamEvent) id).mp ht with ⟨stream, he, -⟩ | ht
  · cases ev <;> cases he
  · exact ht.1

/-- A key of a connection that is tracked afterwards is forwarded. -/
theorem valuesOf_forwardedBy (h : Inv m fwd) {ev : ConnectionHandlerEvent} {id : ConnectionId}
    (ht : Tracked m id) :
    valuesOf id (forwardedBy ev.toStreamEvent (m.onEvent ev.toStreamEvent).2) =
      valuesOf id (oskCalls [ev.toStreamEvent]) := by
  cases ev with
  | exit j => rfl
  | osk j key reason =>
    simp only [ConnectionHandlerEvent.toStreamEvent, oskCalls]
    rcases onOsk_cases h j key reason with ⟨-, hset, -⟩ | ⟨hj, hsame⟩
    · simp only [forwardedBy, hset, Option.map_some, Option.toList_some]
    · -- the key comes from another connection
      have hne : j ≠ id := fun he => hj (he ▸ ht)
      have hother : valuesOf id [(j, SetOsk.mk key reason)] = [] := by
        refine valuesOf_eq_nil fun e he => ?_
        rw [List.mem_singleton.mp he]
        exact hne
      rw [hsame, hother]
      rfl

end Manager

/-! ### The server -/

section Steps
variable {E : Externals} {params : DaisywayProtocolParameters} {s s' : TcpServer}

/-- A step of the manager keeps the account of the tasks: the notifications stay, and new tasks have
no keys. -/
theorem sent_onEvent (h : Complete s) (hd : Delivers s) (queue : List ConnectionHandlerEvent)
    {ev : StreamEvent} (hnext : s.manager.nextConnectionId = s.tasks.length)
    (hev : oskCalls (events ({ s with queue }.onEvent ev)) = oskCalls (events s))
    {i : ℕ} {t' : Task} (ht' : ({ s with queue }.onEvent ev).tasks[i]? = some t') :
    valuesOf i (oskCalls (events ({ s with queue }.onEvent ev))) ++ pendingCall t' =
      t'.proto.keys.map setFreshOsk := by
  rw [hev]
  rcases tasks_onEvent hnext ht' with ⟨t, ht, -, hproto, -⟩ | ⟨hi, rfl⟩
  · rw [pendingCall, hproto]
    exact h.sent i t ht
  · -- no notification carries the id of a task that did not exist
    rw [valuesOf_eq_nil fun c hc he => ?_]
    · rfl
    · have hlt := hd.lt c hc
      rw [he] at hlt
      exact absurd hlt (not_lt.mpr hi)

theorem complete_accept (h : Complete s) (hd : Delivers s) (hr : Refines s) (hrun : s.ended = none)
    (hlt : s.tasks.length < connectionIds) : Complete (s.onEvent (.accept s.tasks.length)) := by
  obtain ⟨hnext, hinv⟩ := hr.inv hrun hlt
  have hnotices : oskCalls (s.onEvent (.accept s.tasks.length)).received = oskCalls s.received := by
    simp only [onEvent, oskCalls_append, oskCalls, List.append_nil]
  have hforwarded : (s.onEvent (.accept s.tasks.length)).forwarded = s.forwarded := by
    simp only [onEvent, forwardedBy, List.append_nil]
  refine ⟨fun i t' ht' => ?_, fun id ht => ?_⟩
  · refine sent_onEvent h hd s.queue hnext ?_ ht'
    simp only [events, oskCalls_append, onEvent, oskCalls, List.append_nil]
  · rw [hnotices, hforwarded]
    rcases (tracked_accept hinv (onEvent_trans s.manager _) id).mp ht with rfl | ⟨ht, -⟩
    · -- nothing was received from the new connection
      rw [valuesOf_eq_nil fun e he => ?_, valuesOf_eq_nil fun e he => ?_]
      · have hmem : e ∈ oskCalls (events s) := by
          unfold events
          rw [oskCalls_append]
          exact List.mem_append_left _ he
        rw [hnext]
        exact (hd.lt e hmem).ne
      · exact (hinv.fwd_lt e.1 (List.mem_map_of_mem he)).ne
    · exact h.forwarded id ht

theorem complete_recv (h : Complete s) (hd : Delivers s) (hr : Refines s) (hrun : s.ended = none)
    (hlt : s.tasks.length < connectionIds) {ev : ConnectionHandlerEvent}
    {rest : List ConnectionHandlerEvent} (hq : s.queue = ev :: rest) :
    Complete ({ s with queue := rest }.onEvent ev.toStreamEvent) := by
  obtain ⟨hnext, hinv⟩ := hr.inv hrun hlt
  refine ⟨fun i t' ht' => ?_, fun id ht => ?_⟩
  · refine sent_onEvent h hd rest hnext ?_ ht'
    simp only [events, onEvent, hq, List.map_cons, List.append_assoc, List.singleton_append]
  · have ht : Tracked s.manager id := tracked_of_notice hinv ht
    simp only [onEvent, oskCalls_append, valuesOf_append, h.forwarded id ht,
      valuesOf_forwardedBy hinv ht]

theorem complete_task (h : Complete s) (hd : Delivers s) (hrun : s.ended = none) {i : ℕ}
    {a : TaskAct} {t t' : Task} {evs : List ConnectionHandlerEvent} (ht : s.tasks[i]? = some t)
    (hs : t.step E params s.ended.isSome a = some (t', evs)) :
    Complete { s with tasks := s.tasks.set i t', queue := s.queue ++ evs } := by
  have hid := hd.ids i t ht
  rw [hrun] at hs
  have hev : oskCalls (events { s with tasks := s.tasks.set i t', queue := s.queue ++ evs }) =
      oskCalls (events s) ++ oskCalls (evs.map ConnectionHandlerEvent.toStreamEvent) := by
    simp only [events, List.map_append, ← List.append_assoc, oskCalls_append]
  refine ⟨fun j u hu => ?_, h.forwarded⟩
  rw [hev, valuesOf_append]
  rcases getElem?_set_cases hu with ⟨rfl, rfl⟩ | ⟨hj, hu⟩
  · have hsent := sent_step hs (h.sent j t ht)
    rwa [hid] at hsent
  · have hown := task_step_ids hs
    rw [hid] at hown
    rw [valuesOf_eq_nil fun c hc he => hj (he.symm.trans (hown c hc)), List.append_nil]
    exact h.sent j u hu

/-- **A step that leaves the loop running keeps the account.** -/
theorem step_complete {a : Act} (hr : Refines s) (hd : Delivers s) (h : s.ended = none → Complete s)
    (hs : s.step E params a = some s') (hlt : s.tasks.length < connectionIds)
    (hrun' : s'.ended = none) : Complete s' := by
  cases step_trans hs with
  | accept hi =>
    obtain ⟨hrun, -⟩ := idle_iff.mp hi
    exact complete_accept (h hrun) hd hr hrun hlt
  | recv hi hq =>
    obtain ⟨hrun, -⟩ := idle_iff.mp hi
    exact complete_recv (h hrun) hd hr hrun hlt hq
  | acceptFailed hi | oskFailed hsend => cases hrun'
  | oskSent hsend =>
    refine ⟨fun i t' ht' => ?_, (h hrun').forwarded⟩
    obtain ⟨t, ht, -, hproto, -⟩ := abort_frame ht'
    rw [pendingCall, hproto]
    exact (h hrun').sent i t ht
  | task ht hstep => exact complete_task (h hrun') hd hrun' ht hstep

/-- The account holds in every run while the loop runs. -/
theorem run_complete {acts : List Act}
    (hrun : run (TcpServer.step E params) TcpServer.new acts = some s)
    (hlt : s.tasks.length < connectionIds) :
    Refines s ∧ Delivers s ∧ (s.ended = none → Complete s) := by
  have hinv : Refines s ∧ (s.tasks.length < connectionIds →
      Delivers s ∧ (s.ended = none → Complete s)) := by
    refine run_invariant (I := fun s => Refines s ∧ (s.tasks.length < connectionIds →
      Delivers s ∧ (s.ended = none → Complete s))) ?_
      ⟨refines_new, fun _ => ⟨delivers_new, fun _ => complete_new⟩⟩ hrun
    intro s a s' hI hs
    refine ⟨step_refines hI.1 hs, fun hlt => ?_⟩
    have hlt' : s.tasks.length < connectionIds := (step_tasks_length hs).trans_lt hlt
    obtain ⟨hd, hc⟩ := hI.2 hlt'
    exact ⟨step_delivers hI.1 hd hs hlt, step_complete hI.1 hd hc hs hlt'⟩
  exact ⟨hinv.1, hinv.2 hlt⟩

/-- A tracked connection has been accepted. -/
theorem tracked_task (hr : Refines s) (hrun : s.ended = none)
    (hlt : s.tasks.length < connectionIds) {id : ConnectionId} (ht : Tracked s.manager id) :
    ∃ t, s.tasks[id]? = some t := by
  obtain ⟨hnext, hinv⟩ := hr.inv hrun hlt
  have hid : id < s.tasks.length := by
    rw [← hnext]
    rcases ht with ht | ht
    · exact hinv.activeId_lt ht
    · exact hinv.keys_lt ht
  exact ⟨_, List.getElem?_eq_getElem hid⟩

/-- The keys of a tracked connection, and where they are. -/
theorem Complete.keys_eq (h : Complete s) {id : ConnectionId} {t : Task}
    (ht : s.tasks[id]? = some t) (htracked : Tracked s.manager id) :
    t.proto.keys.map setFreshOsk =
      valuesOf id s.forwarded ++ queuedKeys s id ++ pendingCall t := by
  rw [← h.sent id t ht, h.forwarded id htracked]
  simp only [events, oskCalls_append, valuesOf_append, queuedKeys]

/-- **No lost key.** In every run of the server with fewer than `2 ^ 64` connections, while the loop
of the manager runs: the keys negotiated on a connection that is active or budding are, in order and
each once, those passed to the OSK handler, those in the notification queue, and the one its task is
about to put there. -/
theorem no_lost_key {acts : List Act}
    (hrun : run (TcpServer.step E params) TcpServer.new acts = some s)
    (hlt : s.tasks.length < connectionIds) (hended : s.ended = none) :
    ∀ id, Tracked s.manager id → ∃ t, s.tasks[id]? = some t ∧ t.connectionId = id ∧
      t.proto.keys.map setFreshOsk =
        valuesOf id s.forwarded ++ queuedKeys s id ++ pendingCall t := by
  intro id htracked
  obtain ⟨hr, hd, hc⟩ := run_complete hrun hlt
  obtain ⟨t, ht⟩ := tracked_task hr hended hlt htracked
  exact ⟨t, ht, hd.ids id t ht, (hc hended).keys_eq ht htracked⟩

end Steps

/-! ### A sample run -/

open Daisyway.Crypto.Lockstep (sampleExternals sampleKey sampleAnswer)
open Daisyway.Net.Zombies (sampleParams)

/-- A task negotiates two keys: the first one is forwarded, the second one is in the queue. -/
def sampleRekeying : List Act :=
  let negotiate (b : UInt8) : List Act :=
    [.task 0 (.proto (.fetched (sampleAnswer (sampleKey b)) (zeroed 32))),
      .task 0 (.proto (.wrote 48)), .task 0 (.proto (.read rekeyAck.dummyData)), .task 0 .sendOsk]
  .accept :: negotiate 1 ++ [.recv, .oskSent, .task 0 (.proto .slept)] ++ negotiate 2

theorem no_lost_key_sample :
    ∃ s t, run (TcpServer.step sampleExternals sampleParams) TcpServer.new sampleRekeying =
        some s ∧ s.tasks[0]? = some t ∧ t.proto.keys.length = 2 ∧ s.forwarded.length = 1 ∧
      t.proto.keys.map setFreshOsk = valuesOf 0 s.forwarded ++ queuedKeys s 0 ++ pendingCall t := by
  have h : ((run (TcpServer.step sampleExternals sampleParams) TcpServer.new sampleRekeying).map
      fun s => (s.tasks.map fun t => t.proto.keys.length, s.forwarded.length, s.ended,
        decide (Tracked s.manager 0))) = some ([2], 1, none, true) := by
    decide +kernel
  obtain ⟨s, hs, he⟩ := Option.map_eq_some_iff.mp h
  obtain ⟨htasks, he⟩ := Prod.mk.inj he
  obtain ⟨hforwarded, he⟩ := Prod.mk.inj he
  obtain ⟨hended, htracked⟩ := Prod.mk.inj he
  have hlen : s.tasks.length = 1 := by simpa using congrArg List.length htasks
  obtain ⟨t, ht, -, hkeys⟩ := no_lost_key hs (by rw [hlen]; decide) hended 0
    (of_decide_eq_true htracked)
  have htwo : (s.tasks.map fun t => t.proto.keys.length)[0]? = some 2 := by rw [htasks]; rfl
  rw [List.getElem?_map, ht] at htwo
  exact ⟨s, t, hs, ht, Option.some.inj htwo, hforwarded, hkeys⟩

end Daisyway.Net.Completeness
