import Daisyway.Crypto.Lockstep
import Daisyway.Net.Server

/-! # Zombie connections

A connection the manager tracks is removed when its exit notification arrives, so each tracked
connection needs a task that is alive or whose notification is in the queue. A task sends the
notification when its protocol has returned; a task that panics does not, and the conversion of a
key of the KME panics on some answers (`fetch_panicked_iff`). Where no such answer occurs there are
no zombies (`no_zombies`).

The invariant `Attended` also says that the handles of tracked connections are distinct from those
that were dropped, so that no tracked task is ever asked to stop. -/

namespace Daisyway.Net.Zombies

open Daisyway.Prim Daisyway.Etsi014 Daisyway.Crypto.Basics Daisyway.Crypto.Protocol
open Daisyway.Lib.Maps Daisyway.Lib.Run Daisyway.Osk.Deadman
open Daisyway.Net.Manager Daisyway.Net.Handles Daisyway.Net.Forwarding Daisyway.Net.Server
open Daisyway.Net.Server.TcpServer

/-- The manager tracks the connection with the handle. -/
def Entry (m : ConnectionManager) (id : ConnectionId) (handle : AbortOnDropHandle) : Prop :=
  m.activeConnection = some (id, handle) ∨ (id, handle) ∈ m.buddingConnections.entries

/-- Every tracked connection has a task that runs or is about to send its exit notification, or the
notification is in the queue. -/
def NoZombie (s : TcpServer) : Prop :=
  ∀ id handle, Entry s.manager id handle → ∃ t, s.tasks[handle.stream]? = some t ∧
    t.connectionId = id ∧ (t.alive = true ∨ .exit id ∈ s.queue)

/-- No task is given an answer of the KME on which the conversion of the key panics. -/
def GoodAnswer (E : Externals) : Act → Prop
  | .task _ (.proto (.fetched answer _)) => ¬ BadAnswer E.base64Decode answer
  | _ => True

/-! ### One task -/

section Task
variable {E : Externals} {params : DaisywayProtocolParameters} {t t' : Task} {a : TaskAct}
  {evs : List ConnectionHandlerEvent}

theorem alive_afterStep {p : ServerProtocol} (hp : p.pc ≠ .panicked) :
    (t.afterStep p).alive = true := by
  unfold Task.alive Task.afterStep
  cases hpc : p.pc <;> simp_all

/-- The protocol panics only on a bad answer. -/
theorem panicked_of_step {p p' : ServerProtocol} {a : ServerProtocol.Act}
    (hs : p.step E params a = some p') (hp : p'.pc = .panicked) :
    ∃ answer nonce, a = .fetched answer nonce ∧ BadAnswer E.base64Decode answer := by
  cases ServerProtocol.step_trans hs with
  | @fetchPanic answer nonce hpc hf => exact ⟨answer, nonce, rfl, fetch_panicked_iff.mp hf⟩
  | fetchOk | fetchErr | wroteSome | wroteAll | writeErr | readOk | readBad | readErr | oskOk
  | oskErr | slept => cases hp

/-- A task that is not asked to stop stays alive, or it leaves its exit notification. -/
theorem task_step_alive (hs : t.step E params false a = some (t', evs))
    (hab : t.abortRequested = false) {i : StreamId} (hgood : GoodAnswer E (.task i a)) :
    t'.alive = true ∨ .exit t.connectionId ∈ evs := by
  cases Task.step_trans hs with
  | proto hphase ha hp =>
    refine Or.inl (alive_afterStep fun hpanic => ?_)
    obtain ⟨answer, nonce, rfl, hbad⟩ := panicked_of_step hp hpanic
    exact hgood hbad
  | sendOsk hphase hpc hp =>
    refine Or.inl (alive_afterStep fun hpanic => ?_)
    obtain ⟨answer, nonce, ha, -⟩ := panicked_of_step hp hpanic
    cases ha
  | sendExit hphase => exact Or.inr (List.mem_singleton.mpr rfl)
  | cancel halive habort =>
    rw [hab] at habort
    cases habort

end Task

/-! ### The invariant -/

/-- The handles the manager holds or is about to drop are distinct, and each it holds is the one of
a task that is not asked to stop and is alive or has left its exit notification. -/
structure Attended (s : TcpServer) : Prop where
  distinct : ((handles s.manager ++ s.removed).map AbortOnDropHandle.stream).Nodup
  task : ∀ handle ∈ handles s.manager, ∃ t, s.tasks[handle.stream]? = some t ∧
    t.connectionId = handle.connectionId ∧ t.abortRequested = false ∧
      (t.alive = true ∨ .exit handle.connectionId ∈ s.queue)

theorem attended_new : Attended TcpServer.new :=
  ⟨List.nodup_nil, fun handle hh => by cases hh⟩

/-- The stream of a spawned task is the one of the event. -/
theorem spawned_stream {m : ConnectionManager} {ev : StreamEvent} {handle : AbortOnDropHandle}
    (hh : handle ∈ (m.onEvent ev).2.spawnedHandle) :
    ev = .accept handle.stream ∧
      ((m.onEvent ev).2.spawned.map fun spawn => Task.new spawn.1).toList =
        [Task.new handle.connectionId] := by
  have ht := onEvent_trans m ev
  generalize m.onEvent ev = r at ht hh ⊢
  obtain ⟨m', e⟩ := r
  cases ht with
  | accept stream hspace =>
    obtain rfl := List.mem_singleton.mp hh
    exact ⟨rfl, rfl⟩
  | exitActive | exitBudding | exitUnknown | oskActive | oskBudding | oskIgnored => cases hh

section Event
variable {s : TcpServer} {ev : StreamEvent}

/-- A handle the manager holds after an event was held before or is new. -/
theorem mem_handles_onEvent {m : ConnectionManager} {handle : AbortOnDropHandle}
    (hh : handle ∈ handles (m.onEvent ev).1) :
    handle ∈ handles m ∨ handle ∈ (m.onEvent ev).2.spawnedHandle := by
  have hp := trans_handles (onEvent_trans m ev)
  exact List.mem_append.mp (hp.subset (List.mem_append_left _ hh))

/-- After an event, what the manager holds and what it dropped are distinct. -/
theorem distinct_onEvent (h : Attended s) (hev : ∀ stream, ev = .accept stream →
    stream = s.tasks.length) :
    ((handles (s.manager.onEvent ev).1 ++ (s.manager.onEvent ev).2.allDropped).map
      AbortOnDropHandle.stream).Nodup := by
  have hp := (trans_handles (onEvent_trans s.manager ev)).map AbortOnDropHandle.stream
  refine hp.symm.nodup ?_
  rw [List.map_append]
  have hold : ((handles s.manager).map AbortOnDropHandle.stream).Nodup := by
    have := h.distinct
    rw [List.map_append] at this
    exact (List.nodup_append.mp this).1
  -- the stream of the new task is not in use
  refine List.nodup_append.mpr ⟨hold, ?_, ?_⟩
  · unfold Effect.spawnedHandle
    cases (s.manager.onEvent ev).2.spawned <;> simp
  · intro i hi j hj hij
    obtain ⟨handle, hh, rfl⟩ := List.mem_map.mp hi
    obtain ⟨new, hn, rfl⟩ := List.mem_map.mp hj
    obtain ⟨t, ht, -⟩ := h.task handle hh
    have hlt := (List.getElem?_eq_some_iff.mp ht).1
    rw [hij, hev new.stream (spawned_stream hn).1] at hlt
    exact lt_irrefl _ hlt

theorem attended_onEvent {queue : List ConnectionHandlerEvent} (h : Attended s)
    (hev : ∀ stream, ev = .accept stream → stream = s.tasks.length)
    (hq : ∀ handle ∈ handles (s.manager.onEvent ev).1,
      .exit handle.connectionId ∈ s.queue → .exit handle.connectionId ∈ queue) :
    Attended ({ s with queue }.onEvent ev) := by
  have hd := distinct_onEvent h hev
  refine ⟨?_, ?_⟩
  · refine hd.sublist (List.Sublist.map _ ?_)
    refine List.Sublist.append (List.Sublist.refl _) ?_
    exact (removed_onEvent_sublist _ ev).trans (List.sublist_append_right _ _)
  · intro handle hh
    rw [List.map_append] at hd
    have hnot : handle.stream ∉ (s.manager.onEvent ev).2.dropped.map AbortOnDropHandle.stream := by
      intro hmem
      refine (List.nodup_append.mp hd).2.2 handle.stream (List.mem_map_of_mem hh)
        handle.stream ?_ rfl
      unfold Effect.allDropped
      rw [List.map_append]
      exact List.mem_append_left _ hmem
    simp only [TcpServer.onEvent]
    rcases mem_handles_onEvent hh with hold | hnew
    · obtain ⟨t, ht, hid, hab, halive⟩ := h.task handle hold
      have hlt := (List.getElem?_eq_some_iff.mp ht).1
      refine ⟨t, ?_, hid, hab, halive.imp_right (hq handle hh)⟩
      rw [List.getElem?_append_left (by rw [length_abort]; exact hlt),
        getElem?_abort_of_notMem hnot]
      exact ht
    · obtain ⟨hstream, hspawned⟩ := spawned_stream hnew
      refine ⟨Task.new handle.connectionId, ?_, rfl, rfl, Or.inl rfl⟩
      rw [hspawned, hev handle.stream hstream, List.getElem?_append_right (by rw [length_abort]),
        length_abort, Nat.sub_self]
      rfl

end Event

/-! ### Whole runs -/

section Runs
variable {E : Externals} {params : DaisywayProtocolParameters} {s s' : TcpServer} {a : Act}

/-- An exit notification that is processed leaves its connection untracked. -/
theorem exit_untracks {m : ConnectionManager} {fwd : List ConnectionId} (h : Inv m fwd)
    {id : ConnectionId} {handle : AbortOnDropHandle}
    (hh : handle ∈ handles (m.onEvent (.exit id)).1) : handle.connectionId ≠ id := by
  have ht := onEvent_trans m (.exit id)
  have hinv := trans_inv h ht fun stream he => by cases he
  have htracked : Tracked (m.onEvent (.exit id)).1 handle.connectionId := by
    rcases List.mem_append.mp hh with hh | hh
    · obtain ⟨p, hp, rfl⟩ := Option.map_eq_some_iff.mp (Option.mem_toList.mp hh)
      refine Or.inl ?_
      unfold ConnectionManager.activeConnectionId
      rw [hp, Option.map_some, (hinv.active_lt p hp).2]
    · obtain ⟨p, hp, rfl⟩ := List.mem_map.mp hh
      refine Or.inr ?_
      rw [(hinv.budding_lt p hp).2]
      exact OrdMap.mem_keys_of_mem hp
  exact ((tracked_exit h ht handle.connectionId).mp htracked).2

theorem attended_endLoop (why : LoopEnd) : Attended (s.endLoop why) :=
  ⟨List.nodup_nil, fun handle hh => by cases hh⟩

theorem attended_oskSent (h : Attended s) :
    Attended { s with sending := none, tasks := abort s.removed s.tasks } := by
  have hd := h.distinct
  rw [List.map_append] at hd
  refine ⟨?_, ?_⟩
  · simp only [TcpServer.removed, List.append_nil]
    exact (List.nodup_append.mp hd).1
  · intro handle hh
    obtain ⟨t, ht, hrest⟩ := h.task handle hh
    refine ⟨t, ?_, hrest⟩
    rw [getElem?_abort_of_notMem]
    · exact ht
    · intro hmem
      exact (List.nodup_append.mp hd).2.2 _ (List.mem_map_of_mem hh) _ hmem rfl

theorem attended_task {i : StreamId} {ta : TaskAct} {t t' : Task}
    {evs : List ConnectionHandlerEvent} (hr : Refines s) (h : Attended s)
    (hgood : GoodAnswer E (.task i ta)) (ht : s.tasks[i]? = some t)
    (hs : t.step E params s.ended.isSome ta = some (t', evs)) :
    Attended { s with tasks := s.tasks.set i t', queue := s.queue ++ evs } := by
  refine ⟨h.distinct, fun handle hh => ?_⟩
  obtain ⟨u, hu, hid, hab, halive⟩ := h.task handle hh
  have hrun : s.ended = none := by
    by_contra hne
    rw [hr.ended_handles hne] at hh
    cases hh
  by_cases hi : handle.stream = i
  · -- it is the task of this connection that takes the step
    subst hi
    obtain rfl : t = u := Option.some.inj (ht.symm.trans hu)
    obtain ⟨hid', hab'⟩ := Task.step_frame hs
    have hlt := (List.getElem?_eq_some_iff.mp ht).1
    refine ⟨t', List.getElem?_set_self hlt, hid'.trans hid, hab'.trans hab, ?_⟩
    rw [hrun] at hs
    rcases task_step_alive hs hab hgood with hal | hexit
    · exact Or.inl hal
    · rw [hid] at hexit
      exact Or.inr (List.mem_append_right _ hexit)
  · refine ⟨u, ?_, hid, hab, halive.imp_right fun hm => List.mem_append_left _ hm⟩
    rw [List.getElem?_set_ne (Ne.symm hi)]
    exact hu

/-- **A step keeps every tracked connection attended.** -/
theorem step_attended (hr : Refines s) (h : Attended s) (hgood : GoodAnswer E a)
    (hs : s.step E params a = some s') (hlt : s'.tasks.length < connectionIds) : Attended s' := by
  have hlt' : s.tasks.length < connectionIds := (step_tasks_length hs).trans_lt hlt
  cases step_trans hs with
  | accept hi =>
    refine attended_onEvent h (fun stream he => ?_) fun handle _ hq => hq
    cases he
    rfl
  | acceptFailed hi => exact attended_endLoop _
  | @recv ev rest hi hq =>
    have hinv := (hr.inv (idle_iff.mp hi).1 hlt').2
    refine attended_onEvent h (fun stream he => ?_) fun handle hh hmem => ?_
    · cases ev <;> cases he
    · rw [hq] at hmem
      rcases List.mem_cons.mp hmem with he | hmem
      · rw [← he] at hh
        exact absurd rfl (exit_untracks hinv hh)
      · exact hmem
  | oskSent hsend => exact attended_oskSent h
  | oskFailed hsend => exact attended_endLoop _
  | task ht hstep => exact attended_task hr h hgood ht hstep

/-- The handle of a tracked connection is one the manager holds. -/
theorem mem_handles_of_entry {m : ConnectionManager} {id : ConnectionId}
    {handle : AbortOnDropHandle} (h : Entry m id handle) : handle ∈ handles m := by
  rcases h with ha | hb
  · refine List.mem_append_left _ ?_
    unfold activeHandles
    rw [ha]
    exact List.mem_singleton.mpr rfl
  · exact List.mem_append_right _ (List.mem_map_of_mem (f := Prod.snd) hb)

/-- Where the handles are attended to, there is no zombie. -/
theorem Attended.noZombie (h : Attended s) (hr : Refines s) (hlt : s.tasks.length < connectionIds) :
    NoZombie s := by
  intro id handle hentry
  have hh := mem_handles_of_entry hentry
  have hrunning : s.ended = none := by
    by_contra hne
    rw [hr.ended_handles hne] at hh
    cases hh
  have hid : handle.connectionId = id := by
    have hm := (hr.inv hrunning hlt).2
    rcases hentry with ha | hb
    · exact (hm.active_lt _ ha).2
    · exact (hm.budding_lt _ hb).2
  obtain ⟨t, ht, hc, -, halive⟩ := h.task handle hh
  rw [hid] at hc halive
  exact ⟨t, ht, hc, halive⟩

/-- **No zombies.** In every run of the server in which no task is given a bad answer of the KME,
and with fewer than `2 ^ 64` connections, every tracked connection is attended to; once the queue is
empty, every tracked connection has a task that is alive. -/
theorem no_zombies {acts : List Act}
    (hrun : run (TcpServer.step E params) TcpServer.new acts = some s)
    (hgood : Along (TcpServer.step E params) (fun _ a => GoodAnswer E a) TcpServer.new acts)
    (hlt : s.tasks.length < connectionIds) :
    NoZombie s ∧ (s.queue = [] → ∀ id handle, Entry s.manager id handle →
      ∃ t, s.tasks[handle.stream]? = some t ∧ t.connectionId = id ∧ t.alive = true) := by
  have hinv : Refines s ∧ (s.tasks.length < connectionIds → Attended s) := by
    refine run_invariant_along
      (I := fun s => Refines s ∧ (s.tasks.length < connectionIds → Attended s)) ?_
      ⟨refines_new, fun _ => attended_new⟩ hgood hrun
    intro s a s' hI hC hs
    refine ⟨step_refines hI.1 hs, fun hlt => ?_⟩
    exact step_attended hI.1 (hI.2 ((step_tasks_length hs).trans_lt hlt)) hC hs hlt
  have hzombie : NoZombie s := (hinv.2 hlt).noZombie hinv.1 hlt
  refine ⟨hzombie, fun hq id handle hentry => ?_⟩
  obtain ⟨t, ht, hc, halive⟩ := hzombie id handle hentry
  refine ⟨t, ht, hc, halive.resolve_right fun hm => ?_⟩
  rw [hq] at hm
  cases hm

end Runs

/-! ### A sample panic -/

open Daisyway.Crypto.Lockstep (sampleExternals sampleKey sampleAnswer)

def sampleParams : DaisywayProtocolParameters :=
  ⟨zeroed 32, Vector.replicate 32 2, Vector.replicate 32 3⟩

/-- The answer of a KME that gives out a key of 16 bytes; its text has 24 characters. -/
def shortKeyAnswer : KmeAnswer :=
  .response 200 none (some ⟨[⟨(sampleKey 1).id, Lib.Base64.encode (List.replicate 16 1)⟩]⟩)

/-- A connection is accepted, and its task gets the answer. -/
def sampleFetch (answer : KmeAnswer) : List Act :=
  [.accept, .task 0 (.proto (.fetched answer (zeroed 32)))]

/-- The task panics, no exit notification is on its way, and the connection stays tracked. -/
theorem short_key_leaves_zombie :
    ∃ s, run (TcpServer.step sampleExternals sampleParams) TcpServer.new
        (sampleFetch shortKeyAnswer) = some s ∧
      Entry s.manager 0 ⟨0, 0⟩ ∧ ¬ NoZombie s := by
  have h : ((run (TcpServer.step sampleExternals sampleParams) TcpServer.new
      (sampleFetch shortKeyAnswer)).map fun s =>
        (s.manager.buddingConnections.entries, s.tasks.map Task.alive, s.queue)) =
      some ([(0, ⟨0, 0⟩)], [false], []) := by
    decide +kernel
  obtain ⟨s, hs, he⟩ := Option.map_eq_some_iff.mp h
  simp only [Prod.mk.injEq] at he
  obtain ⟨hb, htasks, hq⟩ := he
  have hentry : Entry s.manager 0 ⟨0, 0⟩ := Or.inr (by rw [hb]; exact List.mem_singleton.mpr rfl)
  refine ⟨s, hs, hentry, fun hno => ?_⟩
  obtain ⟨t, ht, -, halive | hexit⟩ := hno 0 ⟨0, 0⟩ hentry
  · have hm : t.alive ∈ s.tasks.map Task.alive := List.mem_map_of_mem (List.mem_of_getElem? ht)
    rw [htasks, halive] at hm
    exact absurd hm (by decide)
  · rw [hq] at hexit
    cases hexit

/-- With a key of 32 bytes the connection is attended to. -/
theorem no_zombies_sample :
    ∃ s, run (TcpServer.step sampleExternals sampleParams) TcpServer.new
        (sampleFetch (sampleAnswer (sampleKey 1))) = some s ∧
      s.manager.buddingConnections.keys = [0] ∧ NoZombie s := by
  have h : ((run (TcpServer.step sampleExternals sampleParams) TcpServer.new
      (sampleFetch (sampleAnswer (sampleKey 1)))).map fun s =>
        (s.manager.buddingConnections.keys, s.tasks.length)) = some ([0], 1) := by
    decide +kernel
  obtain ⟨s, hs, he⟩ := Option.map_eq_some_iff.mp h
  obtain ⟨hkeys, hlen⟩ := Prod.mk.inj he
  have hgood : GoodAnswer sampleExternals
      (.task 0 (.proto (.fetched (sampleAnswer (sampleKey 1)) (zeroed 32)))) := by
    intro hbad
    exact absurd (fetch_panicked_iff.mpr hbad) (by decide +kernel)
  refine ⟨s, hs, hkeys, (no_zombies hs ?_ ?_).1⟩
  · exact ⟨trivial, fun _ _ => ⟨hgood, fun _ _ => trivial⟩⟩
  · rw [hlen]
    decide

end Daisyway.Net.Zombies
