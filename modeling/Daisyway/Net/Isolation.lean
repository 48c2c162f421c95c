import Daisyway.Net.Zombies

/-! # Fault isolation

Faults of the server are failing accepts, tasks that fail, panic or are aborted, and their exit
notifications. A fault of a task changes nothing but that task and the queue; an exit notification
removes its own connection and no other. A failing accept, however, is propagated out of the loop
with `?`: it ends the server. So the server isolates its faults exactly in the runs without a
failing accept (`faults_isolated_iff`). -/

namespace Daisyway.Net.Isolation

open Daisyway.Crypto.Basics Daisyway.Crypto.Protocol
open Daisyway.Lib.Maps Daisyway.Lib.Run Daisyway.Osk.Deadman
open Daisyway.Net.Manager Daisyway.Net.Handles Daisyway.Net.Server Daisyway.Net.Server.TcpServer
open Daisyway.Net.Zombies (Entry)

/-- The step leaves the manager, the keys passed on and the loop as they are. -/
structure Untouched (s s' : TcpServer) : Prop where
  manager : s'.manager = s.manager
  sending : s'.sending = s.sending
  forwarded : s'.forwarded = s.forwarded
  ended : s'.ended = s.ended

/-- An exit notification of `id` leaves the loop running, the keys passed on as they are, and every
other tracked connection tracked, in its place and with its task as it was. -/
structure OthersUntouched (s s' : TcpServer) (id : ConnectionId) : Prop where
  sending : s'.sending = s.sending
  forwarded : s'.forwarded = s.forwarded
  active : ∀ j handle, j ≠ id → (s'.manager.activeConnection = some (j, handle) ↔
    s.manager.activeConnection = some (j, handle))
  budding : ∀ j handle, j ≠ id → ((j, handle) ∈ s'.manager.buddingConnections.entries ↔
    (j, handle) ∈ s.manager.buddingConnections.entries)
  tasks : ∀ (i : ℕ) (t : Task), s.tasks[i]? = some t → t.connectionId ≠ id → s'.tasks[i]? = some t

/-- The step is no fault, or the fault is isolated; the loop ends only where the OSK handler fails.
-/
def Isolated (s s' : TcpServer) : Act → Prop
  | .acceptFailed => s' = s
  | .task i _ => Untouched s s' ∧ ∀ j ≠ i, s'.tasks[j]? = s.tasks[j]?
  | .recv => s'.ended = s.ended ∧ ∀ id, s.queue.head? = some (.exit id) → OthersUntouched s s' id
  | .accept | .oskSent => s'.ended = s.ended
  | .oskFailed => True

/-! ### Whose task a handle is -/

/-- The handle of a tracked connection belongs to a task of that connection. -/
def Owned (s : TcpServer) : Prop :=
  ∀ id handle, Entry s.manager id handle →
    ∃ t, s.tasks[handle.stream]? = some t ∧ t.connectionId = id

/-- A connection that is tracked after an event was tracked before or is new. -/
theorem entry_trans {m m' : ConnectionManager} {ev : StreamEvent} {e : Effect}
    (ht : Manager.Trans m ev m' e) {id : ConnectionId} {handle : AbortOnDropHandle}
    (h : Entry m' id handle) :
    Entry m id handle ∨ ∃ stream, ev = .accept stream ∧ handle = ⟨id, stream⟩ ∧
      e.spawned = some (id, stream) := by
  cases ht with
  | @accept stream budding pruned hspace =>
    rcases h with h | h
    · exact Or.inl (Or.inl h)
    · rcases OrdMap.mem_insert.mp h with he | ⟨h, -⟩
      · obtain ⟨rfl, rfl⟩ := Prod.mk.inj he
        exact Or.inr ⟨stream, rfl, rfl, rfl⟩
      · refine Or.inl (Or.inr ?_)
        rcases makeSpace_cases hspace with ⟨-, rfl, -⟩ | ⟨-, i, hd, hp, -⟩
        · exact h
        · rw [OrdMap.popFirst_some.mp hp]
          exact List.mem_cons_of_mem _ h
  | exitActive ha => exact Or.inl (h.elim (fun h => by cases h) Or.inr)
  | exitBudding ha hb => exact Or.inl (h.imp_right fun h => (OrdMap.mem_erase.mp h).1)
  | @oskBudding i hd key reason ha hb =>
    rcases h with h | h
    · obtain ⟨rfl, rfl⟩ := Prod.mk.inj (Option.some.inj h)
      exact Or.inl (Or.inr hb)
    · exact Or.inl (Or.inr (OrdMap.mem_filterKeys.mp h).1)
  | exitUnknown | oskActive | oskIgnored => exact Or.inl h

/-- An abort keeps the connection of a task. -/
theorem abort_connectionId (hs : List AbortOnDropHandle) {tasks : List Task} {i : ℕ} {t : Task}
    (h : tasks[i]? = some t) :
    ∃ t', (abort hs tasks)[i]? = some t' ∧ t'.connectionId = t.connectionId := by
  rw [getElem?_abort, h, Option.map_some]
  refine ⟨_, rfl, ?_⟩
  split_ifs <;> rfl

theorem owned_onEvent {s : TcpServer} {ev : StreamEvent} (h : Owned s)
    (hev : ∀ stream, ev = .accept stream → stream = s.tasks.length) : Owned (s.onEvent ev) := by
  intro id handle hentry
  simp only [TcpServer.onEvent] at hentry ⊢
  rcases entry_trans (onEvent_trans s.manager ev) hentry with hold | ⟨stream, he, rfl, hsp⟩
  · obtain ⟨t, ht, hid⟩ := h id handle hold
    obtain ⟨t', ht', hid'⟩ := abort_connectionId (s.manager.onEvent ev).2.dropped ht
    have hlt := (List.getElem?_eq_some_iff.mp ht').1
    exact ⟨t', by rw [List.getElem?_append_left hlt]; exact ht', hid'.trans hid⟩
  · refine ⟨Task.new id, ?_, rfl⟩
    rw [hsp, hev stream he, List.getElem?_append_right (by rw [length_abort]), length_abort,
      Nat.sub_self]
    rfl

section Runs
variable {E : Externals} {params : DaisywayProtocolParameters} {s s' : TcpServer} {a : Act}

theorem step_owned (h : Owned s) (hs : s.step E params a = some s') : Owned s' := by
  cases step_trans hs with
  | accept hi =>
    refine owned_onEvent h fun stream he => ?_
    cases he
    rfl
  | @recv ev rest hi hq =>
    have hrest : Owned { s with queue := rest } := h
    refine owned_onEvent hrest fun stream he => ?_
    cases ev <;> cases he
  | acceptFailed hi | oskFailed hsend =>
    intro id handle hentry
    rcases hentry with h | h <;> cases h
  | oskSent hsend =>
    intro id handle hentry
    obtain ⟨t, ht, hid⟩ := h id handle hentry
    obtain ⟨t', ht', hid'⟩ := abort_connectionId s.removed ht
    exact ⟨t', ht', hid'.trans hid⟩
  | @task i ta t t' evs ht hstep =>
    intro id handle hentry
    obtain ⟨u, hu, hid⟩ := h id handle hentry
    by_cases hi : handle.stream = i
    · subst hi
      obtain rfl : t = u := Option.some.inj (ht.symm.trans hu)
      have hlt := (List.getElem?_eq_some_iff.mp ht).1
      exact ⟨t', List.getElem?_set_self hlt, (Task.step_frame hstep).1.trans hid⟩
    · exact ⟨u, by rw [List.getElem?_set_ne (Ne.symm hi)]; exact hu, hid⟩

/-! ### One step -/

/-- What processing an exit notification drops is the handle of that connection. -/
theorem exit_dropped {m m' : ConnectionManager} {id : ConnectionId} {e : Effect}
    (ht : Manager.Trans m (.exit id) m' e) {handle : AbortOnDropHandle} (hd : handle ∈ e.dropped) :
    Entry m id handle := by
  cases ht with
  | exitActive ha =>
    rw [List.mem_singleton.mp hd]
    exact Or.inl ha
  | exitBudding ha hb =>
    rw [List.mem_singleton.mp hd]
    exact Or.inr hb
  | exitUnknown => cases hd

/-- **An exit notification touches no other connection.** -/
theorem exit_othersUntouched {rest : List ConnectionHandlerEvent} (h : Owned s)
    (hi : s.idle = true) (id : ConnectionId) :
    OthersUntouched s ({ s with queue := rest }.onEvent (.exit id)) id := by
  have ht := onEvent_trans s.manager (.exit id)
  have hdrop : ∀ handle ∈ (s.manager.onEvent (.exit id)).2.dropped, Entry s.manager id handle :=
    fun handle hd => exit_dropped ht hd
  simp only [TcpServer.onEvent]
  generalize s.manager.onEvent (.exit id) = r at ht hdrop
  obtain ⟨m', e⟩ := r
  -- an exit neither forwards a key nor spawns a task
  have hnone : e.setOsk = none ∧ e.spawned = none := by cases ht <;> exact ⟨rfl, rfl⟩
  refine ⟨?_, ?_, ?_, ?_, ?_⟩
  · simp only [hnone.1, Option.map_none]
    exact (idle_iff.mp hi).2.symm
  · simp [forwardedBy]
  · intro j handle hj
    cases ht with
    | @exitActive i hd ha =>
      simp only [ha, Option.some.injEq, Prod.mk.injEq, reduceCtorEq, false_iff]
      exact fun he => hj he.1.symm
    | exitBudding | exitUnknown => exact Iff.rfl
  · intro j handle hj
    cases ht with
    | exitBudding ha hb =>
      simp only [OrdMap.mem_erase]
      exact and_iff_left hj
    | exitActive | exitUnknown => exact Iff.rfl
  · intro i t hti hne
    simp only [hnone.2, Option.map_none, Option.toList_none, List.append_nil]
    rw [getElem?_abort_of_notMem]
    · exact hti
    · -- the dropped handle belongs to a task of `id`
      intro hmem
      obtain ⟨handle, hd, rfl⟩ := List.mem_map.mp hmem
      obtain ⟨u, hu, hid⟩ := h id handle (hdrop handle hd)
      obtain rfl : t = u := Option.some.inj (hti.symm.trans hu)
      exact hne hid

/-- **Every step but a failing accept is isolated.** -/
theorem step_isolated (h : Owned s) (hs : s.step E params a = some s') (ha : a ≠ .acceptFailed) :
    Isolated s s' a := by
  cases step_trans hs with
  | accept hi => rfl
  | acceptFailed hi => exact absurd rfl ha
  | @recv ev rest hi hq =>
    refine ⟨rfl, fun id hid => ?_⟩
    rw [hq, List.head?_cons, Option.some.injEq] at hid
    subst hid
    exact exit_othersUntouched h hi id
  | oskSent hsend => rfl
  | oskFailed hsend => trivial
  | task ht hstep =>
    refine ⟨⟨rfl, rfl, rfl, rfl⟩, fun j hj => ?_⟩
    exact List.getElem?_set_ne (Ne.symm hj)

/-- A failing accept ends the loop, so it is not isolated. -/
theorem acceptFailed_not_isolated (hs : s.step E params .acceptFailed = some s') :
    ¬ Isolated s s' .acceptFailed := by
  intro heq
  cases step_trans hs with
  | acceptFailed hi =>
    have hended : (s.endLoop .accept).ended = s.ended := congrArg TcpServer.ended heq
    rw [(idle_iff.mp hi).1] at hended
    cases hended

/-- Without a failing accept, only a failing OSK handler ends the loop. -/
theorem step_ended (h : s.ended ≠ none → s.ended = some .osk) (ha : a ≠ .acceptFailed)
    (hs : s.step E params a = some s') : s'.ended ≠ none → s'.ended = some .osk := by
  cases step_trans hs with
  | accept | recv | oskSent | task => exact h
  | acceptFailed => exact absurd rfl ha
  | oskFailed => exact fun _ => rfl

/-- **Fault isolation.** In a run of the server every fault is isolated and the loop ends only
because the OSK handler failed, exactly if no accept fails in the run. -/
theorem faults_isolated_iff {acts : List Act}
    (hrun : run (TcpServer.step E params) TcpServer.new acts = some s) :
    (Along (TcpServer.step E params)
        (fun s a => ∀ s', s.step E params a = some s' → Isolated s s' a) TcpServer.new acts ∧
      (s.ended ≠ none → s.ended = some .osk)) ↔ .acceptFailed ∉ acts := by
  have hnew : Owned TcpServer.new := by
    intro id handle hentry
    rcases hentry with h | h <;> cases h
  constructor
  · rintro ⟨halong, -⟩ hmem
    obtain ⟨s1, s2, hs, hC⟩ := along_mem halong hrun hmem
    exact acceptFailed_not_isolated hs (hC s2 hs)
  · intro hnot
    have hne : ∀ a ∈ acts, a ≠ .acceptFailed := fun a ha he => hnot (he ▸ ha)
    refine ⟨along_of_invariant step_owned (fun h ha s' hs => step_isolated h hs ha) hnew hne, ?_⟩
    have halong :
        Along (TcpServer.step E params) (fun _ a => a ≠ .acceptFailed) TcpServer.new acts :=
      along_of_invariant (I := fun _ => True) (fun _ _ => trivial) (fun _ ha => ha) trivial hne
    exact run_invariant_along (I := fun s => s.ended ≠ none → s.ended = some .osk) step_ended
      (fun h => absurd rfl h) halong hrun

/-! ### A sample fault -/

/-- A connection is accepted, and the next accept fails. -/
def sampleFault : List Act := [.accept, .acceptFailed]

/-- The failing accept ends the loop though the OSK handler was never called, and the accepted
connection is dropped. -/
theorem accept_failure_ends_server :
    ∃ s, run (TcpServer.step Crypto.Lockstep.sampleExternals Zombies.sampleParams) TcpServer.new
        sampleFault = some s ∧
      s.ended = some .accept ∧ s.forwarded = [] ∧ s.tasks.map Task.abortRequested = [true] := by
  have h : ((run (TcpServer.step Crypto.Lockstep.sampleExternals Zombies.sampleParams) TcpServer.new
      sampleFault).map fun s => (s.ended, s.forwarded, s.tasks.map Task.abortRequested)) =
        some (some .accept, [], [true]) := by
    decide +kernel
  obtain ⟨s, hs, he⟩ := Option.map_eq_some_iff.mp h
  simp only [Prod.mk.injEq] at he
  exact ⟨s, hs, he⟩

/-- The task of the first connection fails to write its request and exits while a second connection
is tracked; its exit is the last notification taken. -/
def sampleExit : List Act :=
  [.accept, .accept,
    .task 0 (.proto (.fetched (Crypto.Lockstep.sampleAnswer (Crypto.Lockstep.sampleKey 1))
      (Prim.zeroed 32))),
    .task 0 (.proto .writeFailed), .task 0 .sendExit, .recv]

/-- The second connection is tracked as before, and the loop goes on. -/
theorem faults_isolated_iff_sample :
    ∃ s s', run (TcpServer.step Crypto.Lockstep.sampleExternals Zombies.sampleParams) TcpServer.new
        sampleExit.dropLast = some s ∧
      s.step Crypto.Lockstep.sampleExternals Zombies.sampleParams .recv = some s' ∧
      s.queue = [.exit 0] ∧ OthersUntouched s s' 0 ∧
      s'.manager.buddingConnections.keys = [1] ∧ s'.ended = none := by
  have h : ((run (TcpServer.step Crypto.Lockstep.sampleExternals Zombies.sampleParams) TcpServer.new
      sampleExit.dropLast).bind fun s =>
        (s.step Crypto.Lockstep.sampleExternals Zombies.sampleParams .recv).map fun s' =>
          (s.queue, s'.manager.buddingConnections.keys, s'.ended)) =
      some ([.exit 0], [1], none) := by
    decide +kernel
  obtain ⟨s, hs, he⟩ := Option.bind_eq_some_iff.mp h
  obtain ⟨s', hs', he⟩ := Option.map_eq_some_iff.mp he
  obtain ⟨hqueue, he⟩ := Prod.mk.inj he
  obtain ⟨hkeys, hended⟩ := Prod.mk.inj he
  have hrun : run (TcpServer.step Crypto.Lockstep.sampleExternals Zombies.sampleParams)
      TcpServer.new sampleExit = some s' := run_concat_some.mpr ⟨s, hs, hs'⟩
  have halong := ((faults_isolated_iff hrun).mpr (by decide)).1
  refine ⟨s, s', hs, hs', hqueue, ?_, hkeys, hended⟩
  have hlast : sampleExit = sampleExit.dropLast ++ [.recv] := rfl
  rw [hlast] at halong
  have hisolated : Isolated s s' .recv := along_concat halong hs s' hs'
  exact hisolated.2 0 (by rw [hqueue]; rfl)

end Runs

end Daisyway.Net.Isolation
