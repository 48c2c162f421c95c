import Daisyway.Net.Aborts
import Daisyway.Net.Completeness
import Daisyway.Net.Isolation
import Daisyway.Net.Stragglers

/-! # What other connections can do to one

Anybody can open connections to the server. What this can do to a connection follows from the three
ways in which the manager loses track of one (`why_untracked`): its exit, the key of a newer
connection, and 2000 newer connections. So a connection is not disturbed by newer ones that are
silent, as long as they are fewer: the server goes on with it, and every key negotiated on it is
passed on (`undisturbed`). -/

namespace Daisyway.Net.Availability

open Daisyway.Prim Daisyway.Crypto.Basics Daisyway.Crypto.Protocol Daisyway.Lib.Run
open Daisyway.Lib.Lists Daisyway.Lib.Maps Daisyway.Osk.Deadman
open Daisyway.Net.Manager Daisyway.Net.Forwarding Daisyway.Net.Handles Daisyway.Net.Server
open Daisyway.Net.Server.TcpServer Daisyway.Net.Delivery Daisyway.Net.Completeness
open Daisyway.Net.Aborts Daisyway.Net.Stragglers
open Daisyway.Net.Isolation (Owned step_owned)
open Daisyway.Net.Zombies (Entry mem_handles_of_entry)

/-! ### The manager -/

section Manager
variable {m : ConnectionManager} {fwd : List ConnectionId} {id : ConnectionId}

/-- The oldest budding connection is pruned only if 2000 connections were accepted from it on. -/
theorem next_of_evicts (h : Inv m fwd) (he : Evicts m id) :
    id + maxBuddingConnections ≤ m.nextConnectionId := by
  obtain ⟨hfull, hhead⟩ := he
  obtain ⟨rest, hkeys⟩ : ∃ rest, m.buddingConnections.keys = id :: rest := by
    cases hk : m.buddingConnections.keys with
    | nil =>
      rw [hk] at hhead
      cases hhead
    | cons j rest =>
      rw [hk] at hhead
      exact ⟨rest, by rw [Option.some.inj hhead]⟩
  have hsorted := m.buddingConnections.keys_pairwise
  have hid : id < m.nextConnectionId := h.keys_lt (by rw [hkeys]; exact List.mem_cons_self)
  have hlen : m.buddingConnections.keys.length ≤ (m.nextConnectionId - 1 - id) / 1 + 1 := by
    refine length_le_of_spaced Nat.one_pos hsorted fun j hj => ⟨?_, Nat.le_sub_one_of_lt ?_⟩
    · rw [hkeys] at hj hsorted
      rcases List.mem_cons.mp hj with rfl | hj
      · exact le_rfl
      · exact ((List.pairwise_cons.mp hsorted).1 j hj).le
    · exact h.keys_lt hj
  have harith : ∀ a b c : ℕ, c ≤ (b - 1 - a) / 1 + 1 → a < b → a + c ≤ b := by omega
  rw [m.buddingConnections.length_keys] at hlen
  exact harith id m.nextConnectionId _ (hfull.trans hlen) hid

end Manager

/-- **Why a connection is not tracked any more.** -/
theorem why_untracked {evs : List StreamEvent} (h : accepts evs < connectionIds)
    {id : ConnectionId} (hid : id < accepts evs) (hnot : ¬ Tracked (after evs).manager id) :
    .exit id ∈ evs ∨ id + maxBuddingConnections < accepts evs ∨
      ∃ j ∈ (after evs).forwardedIds, id < j := by
  induction evs using List.reverseRecOn with
  | nil => cases hid
  | append_singleton evs ev ih =>
    have hlt : accepts evs < connectionIds := accepts_lt_of_append h
    obtain ⟨hnext, hinv⟩ := run_inv hlt
    have hstep := tracked_trans hinv (onEvent_trans (after evs).manager ev) id
    have hgone : ¬ ((∃ stream, ev = .accept stream ∧ id = (after evs).manager.nextConnectionId) ∨
        (Tracked (after evs).manager id ∧ Keeps (after evs).manager id ev)) := by
      rw [after_concat] at hnot
      exact fun hkept => hnot (hstep.mpr hkept)
    rw [accepts_append] at hid ⊢
    rw [forwardedIds_concat]
    by_cases ht : Tracked (after evs).manager id
    · -- the event that ends it
      have hkeeps : ¬ Keeps (after evs).manager id ev := fun hk => hgone (Or.inr ⟨ht, hk⟩)
      cases ev with
      | accept stream =>
        have hev := next_of_evicts hinv (not_not.mp hkeeps)
        rw [hnext] at hev
        exact Or.inr (Or.inl (Nat.lt_succ_of_le hev))
      | exit j =>
        obtain rfl : id = j := not_not.mp hkeeps
        exact Or.inl (List.mem_append_right _ (List.mem_singleton.mpr rfl))
      | osk j key reason =>
        obtain ⟨hj, hlt'⟩ := Classical.not_imp.mp hkeeps
        refine Or.inr (Or.inr ⟨j, List.mem_append_right _ ?_, not_le.mp hlt'⟩)
        rcases onOsk_cases hinv j key reason with ⟨-, hset, -⟩ | ⟨hno, -⟩
        · simp [forwardedBy, hset]
        · exact absurd hj hno
    · have hold : id < accepts evs := by
        by_contra hge
        cases ev with
        | accept stream =>
          refine hgone (Or.inl ⟨stream, rfl, ?_⟩)
          rw [hnext]
          exact Nat.le_antisymm (Nat.le_of_lt_succ hid) (not_lt.mp hge)
        | exit j => exact hge hid
        | osk j key reason => exact hge hid
      rcases ih hlt hold ht with hexit | hmany | ⟨j, hj, hlt'⟩
      · exact Or.inl (List.mem_append_left _ hexit)
      · exact Or.inr (Or.inl (hmany.trans_le (Nat.le_add_right _ _)))
      · exact Or.inr (Or.inr ⟨j, List.mem_append_left _ hj, hlt'⟩)

/-! ### The server -/

section Server
variable {E : Externals} {params : DaisywayProtocolParameters} {s s' : TcpServer} {acts : List Act}

/-- No newer connection has a key, and there are fewer than 2000 of them. -/
structure Silent (s : TcpServer) (i : StreamId) : Prop where
  few : s.tasks.length ≤ i + maxBuddingConnections
  silent : ∀ (j : ℕ) (u : Task), i < j → s.tasks[j]? = some u → u.proto.keys = []

theorem run_exitLast (hrun : run (TcpServer.step E params) TcpServer.new acts = some s)
    (hlt : s.tasks.length < connectionIds) : ExitLast s := by
  have hinv : Refines s ∧ (s.tasks.length < connectionIds → Delivers s ∧ ExitLast s) := by
    refine run_invariant (I := fun s => Refines s ∧ (s.tasks.length < connectionIds →
      Delivers s ∧ ExitLast s)) ?_ ⟨refines_new, fun _ => ⟨delivers_new, exitLast_new⟩⟩ hrun
    intro s a s' hI hs
    refine ⟨step_refines hI.1 hs, fun hlt => ?_⟩
    obtain ⟨hd, he⟩ := hI.2 ((step_tasks_length hs).trans_lt hlt)
    exact ⟨step_delivers hI.1 hd hs hlt, step_exitLast hI.1 hd he hs hlt⟩
  exact (hinv.2 hlt).2

/-- A connection whose key was passed on has negotiated one. -/
theorem keys_of_forwarded (hd : Delivers s) (hc : Complete s) {j : ConnectionId}
    (hj : j ∈ (after s.received).forwardedIds) :
    ∃ u, s.tasks[j]? = some u ∧ u.proto.keys ≠ [] := by
  obtain ⟨e, he, rfl⟩ := List.mem_map.mp hj
  have hmem : e ∈ oskCalls (events s) := by
    unfold events
    rw [oskCalls_append]
    exact List.mem_append_left _ ((forwarded_sublist_oskCalls s.received).subset he)
  obtain ⟨u, hu⟩ : ∃ u, s.tasks[e.1]? = some u :=
    ⟨_, List.getElem?_eq_getElem (hd.lt e hmem)⟩
  refine ⟨u, hu, fun hnil => ?_⟩
  have hsent := hc.sent e.1 u hu
  rw [hnil, List.map_nil] at hsent
  have hvalue : e.2 ∈ valuesOf e.1 (oskCalls (events s)) :=
    List.mem_map.mpr ⟨e, List.mem_filter.mpr ⟨hmem, decide_eq_true rfl⟩, rfl⟩
  rw [(List.append_eq_nil_iff.mp hsent).1] at hvalue
  cases hvalue

theorem entry_of_tracked {m : ConnectionManager} {id : ConnectionId} (h : Tracked m id) :
    ∃ handle, Entry m id handle := by
  rcases h with h | h
  · unfold ConnectionManager.activeConnectionId at h
    obtain ⟨⟨j, handle⟩, ha, rfl⟩ := Option.map_eq_some_iff.mp h
    exact ⟨handle, Or.inl ha⟩
  · obtain ⟨handle, hb⟩ := OrdMap.mem_keys.mp h
    exact ⟨handle, Or.inr hb⟩

theorem owned_new : Owned TcpServer.new := by
  rintro id handle (h | h) <;> cases h

/-- The task of a tracked connection is not asked to stop. -/
theorem not_stopped (hd : Delivers s) (ho : Owned s) (hh : Held s) {i : StreamId} {t : Task}
    (ht : s.tasks[i]? = some t) (htracked : Tracked s.manager i) : t.abortRequested = false := by
  obtain ⟨handle, hentry⟩ := entry_of_tracked htracked
  obtain ⟨u, hu, hid⟩ := ho i handle hentry
  obtain rfl : handle.stream = i := (hd.ids _ u hu).symm.trans hid
  have hheld : handle.stream ∈ streamsOf (heldHandles s) :=
    List.mem_map_of_mem (List.mem_append_left _ (mem_handles_of_entry hentry))
  by_contra hstop
  exact (hh.stopped _ t ht).mp (Bool.of_not_eq_false hstop) hheld

/-- **Silent connections do not disturb.** In every run of the server with fewer than `2 ^ 64`
connections, while the loop of the manager runs: a connection whose task has not finished, after
which fewer than 2000 connections were accepted, none of which has negotiated a key, is tracked by
the manager, its task is not asked to stop, and none of its keys is lost. -/
theorem undisturbed (hrun : run (TcpServer.step E params) TcpServer.new acts = some s)
    (hlt : s.tasks.length < connectionIds) (hended : s.ended = none) {i : StreamId} {t : Task}
    (ht : s.tasks[i]? = some t) (hphase : t.phase ≠ .finished) (hs : Silent s i) :
    Tracked s.manager i ∧ t.abortRequested = false ∧
      t.proto.keys.map setFreshOsk =
        valuesOf i s.forwarded ++ queuedKeys s i ++ pendingCall t := by
  obtain ⟨hr, hd, hc⟩ := run_complete hrun hlt
  have htracked : Tracked s.manager i := by
    by_contra hnot
    rw [hr.manager_eq hended] at hnot
    have hi : i < accepts s.received := by
      rw [hr.accepts_eq]
      exact (List.getElem?_eq_some_iff.mp ht).1
    rcases why_untracked (by rw [hr.accepts_eq]; exact hlt) hi hnot with
      hexit | hmany | ⟨j, hj, hij⟩
    · refine hphase ((run_exitLast hrun hlt).finished i t ht ?_)
      unfold events
      rw [notices_append]
      exact List.mem_append_left _ (List.mem_filterMap.mpr ⟨_, hexit, rfl⟩)
    · rw [hr.accepts_eq] at hmany
      exact absurd hs.few (not_le.mpr hmany)
    · obtain ⟨u, hu, hkeys⟩ := keys_of_forwarded hd (hc hended) hj
      exact hkeys (hs.silent j u hij hu)
  have howned : Owned s := run_invariant step_owned owned_new hrun
  exact ⟨htracked, not_stopped hd howned (run_held hrun).1 ht htracked,
    (hc hended).keys_eq ht htracked⟩

end Server

/-! ### A sample run -/

open Daisyway.Crypto.Lockstep (sampleExternals)
open Daisyway.Net.Zombies (sampleParams)
open Daisyway.Net.Completeness (sampleRekeying)

/-- Two other hosts connect after two keys were negotiated; the task of one of them has fetched a
key, but it gets no acknowledgement. -/
def sampleSilence : List Act :=
  sampleRekeying ++ [.accept, .accept,
    .task 1 (.proto (.fetched (Crypto.Lockstep.sampleAnswer (Crypto.Lockstep.sampleKey 3))
      (zeroed 32)))]

theorem undisturbed_sample :
    ∃ s t, run (TcpServer.step sampleExternals sampleParams) TcpServer.new sampleSilence = some s ∧
      s.tasks.length = 3 ∧ s.tasks[0]? = some t ∧ t.proto.keys.length = 2 ∧
      Tracked s.manager 0 ∧
      t.proto.keys.map setFreshOsk =
        valuesOf 0 s.forwarded ++ queuedKeys s 0 ++ pendingCall t := by
  have h : (run (TcpServer.step sampleExternals sampleParams) TcpServer.new sampleSilence).any
      (fun s => decide (s.ended = none ∧
        (s.tasks.map fun t => (t.phase, t.proto.keys.length)) =
          [(.running, 2), (.running, 0), (.running, 0)])) = true := by
    decide +kernel
  obtain ⟨s, hrun, he⟩ := (Option.any_eq_true _ _).mp h
  obtain ⟨hended, htasks⟩ := of_decide_eq_true he
  have hlen : s.tasks.length = 3 := by simpa using congrArg List.length htasks
  have hget : ∀ (j : ℕ) (u : Task), s.tasks[j]? = some u →
      [(TaskPhase.running, 2), (.running, 0), (.running, 0)][j]? =
        some (u.phase, u.proto.keys.length) := by
    intro j u hu
    rw [← htasks, List.getElem?_map, hu]
    rfl
  obtain ⟨t, ht⟩ : ∃ t, s.tasks[0]? = some t := ⟨_, List.getElem?_eq_getElem (by omega)⟩
  obtain ⟨hphase, hkeys⟩ := Prod.mk.inj (Option.some.inj (hget 0 t ht))
  have hsilent : Silent s 0 := by
    refine ⟨by rw [hlen]; decide, fun j u hj hu => ?_⟩
    have hj3 : j < 3 := hlen ▸ (List.getElem?_eq_some_iff.mp hu).1
    have hu' := hget j u hu
    obtain rfl | rfl : j = 1 ∨ j = 2 :=
      Nat.lt_or_eq_of_le (Nat.le_of_lt_succ hj3) |>.imp_left fun h =>
        Nat.le_antisymm (Nat.le_of_lt_succ h) hj
    · exact List.eq_nil_of_length_eq_zero (Prod.mk.inj (Option.some.inj hu')).2.symm
    · exact List.eq_nil_of_length_eq_zero (Prod.mk.inj (Option.some.inj hu')).2.symm
  obtain ⟨htracked, -, hall⟩ := undisturbed hrun (by rw [hlen]; decide) hended ht
    (by rw [← hphase]; decide) hsilent
  exact ⟨s, t, hrun, hlen, ht, hkeys.symm, htracked, hall⟩

end Daisyway.Net.Availability
