import Daisyway.Net.Manager

/-! # The handles of the connection manager

A handle moves from the budding connections to the active slot, or it is dropped and its task is
aborted. No operation of the manager duplicates or loses one (`trans_handles`), and what an event
drops is known exactly (`allDropped_ids`): an exit its own connection, a promotion the connections
it supersedes, an accept the oldest budding connection if there is no space. -/

namespace Daisyway.Net.Handles

open Daisyway.Prim Daisyway.Lib.Maps Daisyway.Osk.Deadman Daisyway.Net.Manager

/-! ### Conservation -/

/-- The handles the manager holds: the active one and the budding ones. -/
def handles (m : ConnectionManager) : List AbortOnDropHandle :=
  activeHandles m ++ m.buddingConnections.entries.map Prod.snd

theorem perm_insert_handles (b : OrdMap ConnectionId AbortOnDropHandle) (id : ConnectionId)
    (handle : AbortOnDropHandle) :
    ((b.insert id handle).entries.map Prod.snd ++ (b.get? id).toList).Perm
      (handle :: b.entries.map Prod.snd) := by
  have h1 : ((b.insert id handle).entries.map Prod.snd).Perm
      (handle :: (b.erase id).entries.map Prod.snd) := OrdMap.perm_insert.map Prod.snd
  have h2 : (b.entries.map Prod.snd).Perm
      ((b.get? id).toList ++ (b.erase id).entries.map Prod.snd) := by
    have := (OrdMap.perm_get?_erase (m := b) (k := id)).map Prod.snd
    simpa [Function.comp_def] using this
  refine (h1.append_right _).trans ?_
  rw [List.cons_append]
  exact ((h2.trans List.perm_append_comm).symm).cons handle

theorem perm_makeSpace {b budding : OrdMap ConnectionId AbortOnDropHandle}
    {pruned : List AbortOnDropHandle}
    (h : ConnectionManager.makeSpace b = (budding, pruned)) :
    (budding.entries.map Prod.snd ++ pruned).Perm (b.entries.map Prod.snd) := by
  rcases makeSpace_cases h with ⟨-, rfl, rfl⟩ | ⟨-, id, handle, hp, rfl⟩
  · rw [List.append_nil]
  · rw [OrdMap.popFirst_some.mp hp, List.map_cons]
    exact List.perm_append_singleton _ _

/-- **An event conserves the handles**: those the manager held and the new one are those it holds
afterwards and those it dropped. -/
theorem trans_handles {m m' : ConnectionManager} {ev : StreamEvent} {e : Effect}
    (ht : Trans m ev m' e) :
    (handles m' ++ e.allDropped).Perm (handles m ++ e.spawnedHandle) := by
  -- every handle is counted on both sides
  refine List.perm_iff_count.mpr fun x => ?_
  unfold handles Effect.allDropped Effect.spawnedHandle
  cases ht with
  | @accept stream budding pruned hspace =>
    have h1 := (perm_insert_handles budding m.nextConnectionId
      ⟨m.nextConnectionId, stream⟩).count_eq x
    have h2 := (perm_makeSpace hspace).count_eq x
    simp only [activeHandles, List.count_append, List.count_cons, List.count_nil, Option.map_some,
      Option.toList_some] at h1 h2 ⊢
    omega
  | @exitActive id handle ha =>
    simp only [activeHandles, ha, List.count_append, List.count_cons, List.count_nil,
      Option.map_some, Option.map_none, Option.toList_some, Option.toList_none]
    omega
  | @exitBudding id handle ha hb =>
    have h1 := ((OrdMap.perm_erase hb).map Prod.snd).count_eq x
    simp only [activeHandles, List.map_cons, List.count_append, List.count_cons, List.count_nil,
      Option.map_none, Option.toList_none] at h1 ⊢
    omega
  | @oskBudding id handle key reason ha hb =>
    have h1 := ((OrdMap.perm_split hb).map Prod.snd).count_eq x
    simp only [activeHandles, List.map_cons, List.map_append, List.count_append, List.count_cons,
      List.count_nil, Option.map_some, Option.map_none, Option.toList_some, Option.toList_none]
      at h1 ⊢
    omega
  | exitUnknown | oskActive | oskIgnored => simp

/-! ### Dropped handles -/

/-- The connections whose handles an event drops. -/
def drops (m : ConnectionManager) : StreamEvent → List ConnectionId
  | .accept _ =>
    if maxBuddingConnections ≤ m.buddingConnections.len then m.buddingConnections.keys.head?.toList
    else []
  | .exit id => if Tracked m id then [id] else []
  | .osk id _ _ =>
    if id ∈ m.buddingConnections.keys then
      m.activeConnectionId.toList ++ m.buddingConnections.keys.filter (· < id)
    else []

section Drops
variable {m m' : ConnectionManager} {fwd : List ConnectionId} {ev : StreamEvent} {e : Effect}

theorem activeHandles_ids (h : Inv m fwd) :
    (activeHandles m).map AbortOnDropHandle.connectionId = m.activeConnectionId.toList := by
  unfold activeHandles ConnectionManager.activeConnectionId
  cases ha : m.activeConnection with
  | none => rfl
  | some a =>
    have hid := (h.active_lt a ha).2
    simp only [Option.map_some, Option.toList_some, List.map_cons, List.map_nil, hid]

theorem filterKeys_ids (h : Inv m fwd) (p : ConnectionId → Bool) :
    ((m.buddingConnections.filterKeys p).entries.map Prod.snd).map AbortOnDropHandle.connectionId =
      m.buddingConnections.keys.filter p := by
  rw [← OrdMap.keys_filterKeys]
  unfold OrdMap.keys
  rw [List.map_map]
  refine List.map_congr_left fun e he => ?_
  exact (h.budding_lt e (OrdMap.mem_filterKeys.mp he).1).2

/-- **What an event drops.** -/
theorem allDropped_ids (h : Inv m fwd) (ht : Trans m ev m' e) :
    e.allDropped.map AbortOnDropHandle.connectionId = drops m ev := by
  unfold Effect.allDropped
  cases ht with
  | @accept stream budding pruned hspace =>
    -- nothing is replaced: the new id is above all budding ones
    have hnone : budding.get? m.nextConnectionId = none := by
      refine OrdMap.get?_eq_none_iff.mpr fun hmem => ?_
      exact absurd ((h.makeSpace hspace).1.keys_lt hmem) (lt_irrefl _)
    simp only [drops, hnone, Option.toList_none, List.append_nil]
    rcases makeSpace_cases hspace with ⟨hl, -, rfl⟩ | ⟨hl, id, handle, hp, rfl⟩
    · rw [if_neg (by omega)]
      rfl
    · have hb : (id, handle) ∈ m.buddingConnections.entries := by
        rw [OrdMap.popFirst_some.mp hp]
        exact List.mem_cons_self
      have hid : handle.connectionId = id := (h.budding_lt _ hb).2
      rw [if_pos hl, OrdMap.keys_of_popFirst hp, List.map_singleton, hid]
      rfl
  | @exitActive id handle ha =>
    have hid : m.activeConnectionId = some id := by
      unfold ConnectionManager.activeConnectionId
      rw [ha]
      rfl
    have htracked : Tracked m id := Or.inl hid
    have hh : handle.connectionId = id := (h.active_lt _ ha).2
    simp only [drops]
    rw [if_pos htracked, List.append_nil, List.map_singleton, hh]
  | @exitBudding id handle ha hb =>
    have htracked : Tracked m id := Or.inr (OrdMap.mem_keys.mpr ⟨handle, hb⟩)
    simp only [drops]
    have hh : handle.connectionId = id := (h.budding_lt _ hb).2
    rw [if_pos htracked, List.append_nil, List.map_singleton, hh]
  | exitUnknown hid =>
    simp only [drops]
    rw [if_neg hid]
    rfl
  | @oskActive id key reason ha =>
    simp only [drops]
    rw [if_neg fun hmem => absurd (h.budding_gt_active id hmem id ha) (lt_irrefl id)]
    rfl
  | @oskBudding id handle key reason ha hb =>
    simp only [drops]
    rw [if_pos (OrdMap.mem_keys.mpr ⟨handle, hb⟩), List.map_append, activeHandles_ids h,
      filterKeys_ids h]
  | @oskIgnored id key reason hid =>
    simp only [drops]
    rw [if_neg fun hmem => ?_]
    · rfl
    · rcases hid with ⟨a, ha, hlt⟩ | hid
      · exact absurd (h.budding_gt_active id hmem a ha) hlt.asymm
      · exact hid (Or.inr hmem)

/-- An event of a connection drops no newer connection. -/
theorem drops_le (h : Inv m fwd) {id : ConnectionId}
    (hev : ev = .exit id ∨ ∃ key reason, ev = .osk id key reason) {j : ConnectionId}
    (hj : j ∈ drops m ev) : j ≤ id := by
  rcases hev with rfl | ⟨key, reason, rfl⟩
  · simp only [drops] at hj
    split_ifs at hj
    · exact (List.mem_singleton.mp hj).le
    · exact absurd hj List.not_mem_nil
  · simp only [drops] at hj
    split_ifs at hj with hb
    · rcases List.mem_append.mp hj with hj | hj
      · exact (h.budding_gt_active id hb j (Option.mem_toList.mp hj)).le
      · have hlt : j < id := by simpa using (List.mem_filter.mp hj).2
        exact hlt.le
    · exact absurd hj List.not_mem_nil

/-- An accept drops a budding connection or none. -/
theorem drops_accept (h : Inv m fwd) {stream : StreamId} {j : ConnectionId}
    (hj : j ∈ drops m (.accept stream)) :
    m.activeConnectionId ≠ some j ∧ j < m.nextConnectionId := by
  simp only [drops] at hj
  split_ifs at hj with hfull
  · have hmem : j ∈ m.buddingConnections.keys :=
      List.mem_of_mem_head? (Option.mem_toList.mp hj)
    exact ⟨fun ha => absurd (h.budding_gt_active j hmem j ha) (lt_irrefl j), h.keys_lt hmem⟩
  · exact absurd hj List.not_mem_nil

end Drops

/-! ### Runs -/

theorem trans_spawned {m m' : ConnectionManager} {ev : StreamEvent} {e : Effect}
    (ht : Trans m ev m' e) :
    e.spawnedHandle.map AbortOnDropHandle.connectionId =
      List.range' m.nextConnectionId (accepts [ev]) := by
  cases ht <;> rfl

/-- The ids are given out in order, and the handles of all of them are accounted for. -/
theorem run_handles {evs : List StreamEvent} (h : accepts evs < connectionIds) :
    (after evs).spawned.map AbortOnDropHandle.connectionId = List.range (accepts evs) ∧
      (handles (after evs).manager ++ (after evs).dropped).Perm (after evs).spawned := by
  induction evs using List.reverseRecOn with
  | nil => exact ⟨rfl, List.Perm.refl _⟩
  | append_singleton evs ev ih =>
    have hlt : accepts evs < connectionIds := accepts_lt_of_append h
    obtain ⟨hspawned, hperm⟩ := ih hlt
    have ht := onEvent_trans (after evs).manager ev
    have hsp := trans_spawned ht
    rw [(run_inv hlt).1] at hsp
    rw [after_concat, accepts_append]
    simp only [History.onEvent]
    refine ⟨?_, ?_⟩
    · rw [List.map_append, hsp, hspawned, List.range_eq_range', List.range_eq_range',
        ← List.range'_append]
      simp
    · refine List.perm_iff_count.mpr fun x => ?_
      have h1 := hperm.count_eq x
      have h2 := (trans_handles ht).count_eq x
      simp only [List.count_append] at h1 h2 ⊢
      omega

/-- **Conservation of handles.** After every sequence of events with fewer than `2 ^ 64` accepts,
the handles in the active slot, in the budding map and among the dropped ones are, each once, the
handles of the ids allocated so far; what the next event drops is `drops`, never a newer connection
than the one it is about, and an accept drops neither the active connection nor the one just
accepted. -/
theorem handle_conservation (evs : List StreamEvent) (h : accepts evs < connectionIds) :
    (handles (after evs).manager ++ (after evs).dropped).Perm (after evs).spawned ∧
      (after evs).spawned.map AbortOnDropHandle.connectionId = List.range (accepts evs) ∧
      (∀ a, (after evs).manager.activeConnection = some a → a.2.connectionId = a.1) ∧
      (∀ b ∈ (after evs).manager.buddingConnections.entries, b.2.connectionId = b.1) ∧
      (∀ a, (after evs).manager.activeConnectionId = some a →
        a ∉ (after evs).manager.buddingConnections.keys ∧
          ∀ id ∈ (after evs).manager.buddingConnections.keys, a < id) ∧
      (after evs).manager.buddingConnections.len ≤ maxBuddingConnections ∧
      ∀ ev,
        ((after evs).manager.onEvent ev).2.allDropped.map AbortOnDropHandle.connectionId =
          drops (after evs).manager ev ∧
        (∀ id, (ev = .exit id ∨ ∃ key reason, ev = .osk id key reason) →
          ∀ handle ∈ ((after evs).manager.onEvent ev).2.allDropped, handle.connectionId ≤ id) ∧
        (∀ stream, ev = .accept stream →
          ∀ handle ∈ ((after evs).manager.onEvent ev).2.allDropped,
            (after evs).manager.activeConnectionId ≠ some handle.connectionId ∧
              ((after evs).manager.onEvent ev).2.spawned ≠ some (handle.connectionId, stream)) := by
  obtain ⟨hnext, hinv⟩ := run_inv h
  obtain ⟨hspawned, hperm⟩ := run_handles h
  refine ⟨hperm, hspawned, fun a ha => (hinv.active_lt a ha).2,
    fun b hb => (hinv.budding_lt b hb).2, fun a ha => ⟨fun hmem => ?_, fun id hid => ?_⟩,
    hinv.len_le, fun ev => ?_⟩
  · exact absurd (hinv.budding_gt_active a hmem a ha) (lt_irrefl a)
  · exact hinv.budding_gt_active id hid a ha
  · have hdrop := allDropped_ids hinv (onEvent_trans (after evs).manager ev)
    have hmem : ∀ handle ∈ ((after evs).manager.onEvent ev).2.allDropped,
        handle.connectionId ∈ drops (after evs).manager ev := by
      intro handle hh
      rw [← hdrop]
      exact List.mem_map_of_mem hh
    refine ⟨hdrop, fun id hev handle hh => drops_le hinv hev (hmem handle hh), ?_⟩
    rintro stream rfl handle hh
    obtain ⟨hne, hlt⟩ := drops_accept hinv (hmem handle hh)
    refine ⟨hne, fun hs => ?_⟩
    have hid : (after evs).manager.nextConnectionId = handle.connectionId :=
      congrArg Prod.fst (Option.some.inj hs)
    exact absurd hlt (hid ▸ lt_irrefl _)

/-- Two connections, the second of which supersedes the first. -/
theorem handle_conservation_promotion :
    (after [.accept 0, .accept 1, .osk 0 (zeroed 32) .fresh, .osk 1 (zeroed 32) .fresh]).dropped =
        [⟨0, 0⟩] ∧
      (handles (after [.accept 0, .accept 1, .osk 0 (zeroed 32) .fresh,
          .osk 1 (zeroed 32) .fresh]).manager ++ [AbortOnDropHandle.mk 0 0]).Perm
        [⟨0, 0⟩, ⟨1, 1⟩] :=
  ⟨by decide +kernel, (handle_conservation
    [.accept 0, .accept 1, .osk 0 (zeroed 32) .fresh, .osk 1 (zeroed 32) .fresh] (by decide)).1⟩

end Daisyway.Net.Handles
