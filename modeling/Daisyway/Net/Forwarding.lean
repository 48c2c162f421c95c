import Daisyway.Net.Manager

/-! # Which keys the connection manager forwards

The manager looks only at the connections it tracks now. `Live` says the same in terms of what has
happened: the connection was accepted, has not exited since, was not pruned, and no key of a newer
connection was ever forwarded. The two agree after every sequence of events (`tracked_iff_live`),
because a step changes both in the same way (`tracked_trans`, `live_concat`). -/

namespace Daisyway.Net.Forwarding

open Daisyway.Prim Daisyway.Lib.Maps Daisyway.Osk.Deadman Daisyway.Net.Manager

/-- An accept prunes the connection: there is no space, and it is the oldest budding one. -/
def Evicts (m : ConnectionManager) (id : ConnectionId) : Prop :=
  maxBuddingConnections ≤ m.buddingConnections.len ∧ m.buddingConnections.keys.head? = some id

/-- The id was allocated by an accept, no exit of it was processed since, no key of a larger id was
forwarded, and no accept evicted it. -/
def Live (evs : List StreamEvent) (id : ConnectionId) : Prop :=
  ∃ before stream since, evs = before ++ .accept stream :: since ∧
    ((after before).manager.onEvent (.accept stream)).2.spawned = some (id, stream) ∧
    .exit id ∉ since ∧
    (∀ j ∈ (after evs).forwardedIds, j ≤ id) ∧
    ∀ since' s rest, since = since' ++ .accept s :: rest →
      ¬ Evicts (after (before ++ .accept stream :: since')).manager id

/-! ### One event -/

section Step
variable {m m' : ConnectionManager} {fwd : List ConnectionId} {ev : StreamEvent} {e : Effect}

/-- The event leaves the connection `j` in the manager. -/
def Keeps (m : ConnectionManager) (j : ConnectionId) : StreamEvent → Prop
  | .accept _ => ¬ Evicts m j
  | .exit id => j ≠ id
  | .osk id _ _ => Tracked m id → id ≤ j

theorem mem_makeSpace_iff {budding : OrdMap ConnectionId AbortOnDropHandle}
    {pruned : List AbortOnDropHandle}
    (hs : ConnectionManager.makeSpace m.buddingConnections = (budding, pruned))
    (j : ConnectionId) :
    j ∈ budding.keys ↔ j ∈ m.buddingConnections.keys ∧ ¬ Evicts m j := by
  unfold Evicts
  rcases makeSpace_cases hs with ⟨hl, rfl, -⟩ | ⟨hl, id, handle, hp, -⟩
  · constructor
    · intro hj
      exact ⟨hj, fun hev => absurd hev.1 (by omega)⟩
    · exact fun hj => hj.1
  · have hkeys := OrdMap.keys_of_popFirst hp
    have hnodup := m.buddingConnections.keys_nodup
    rw [hkeys] at hnodup
    have hid : id ∉ budding.keys := (List.nodup_cons.mp hnodup).1
    rw [hkeys]
    simp only [List.head?_cons, Option.some.injEq, hl, true_and, List.mem_cons]
    constructor
    · intro hj
      refine ⟨Or.inr hj, fun he => hid ?_⟩
      rw [he]
      exact hj
    · rintro ⟨rfl | hj, hne⟩
      · exact absurd rfl hne
      · exact hj

/-- An accept adds the next id, and removes the connection it evicts. -/
theorem tracked_accept (h : Inv m fwd) {stream : StreamId} (ht : Trans m (.accept stream) m' e)
    (j : ConnectionId) :
    Tracked m' j ↔ j = m.nextConnectionId ∨ (Tracked m j ∧ ¬ Evicts m j) := by
  unfold Tracked
  cases ht with
  | @accept _ budding pruned hspace =>
    have hmem := mem_makeSpace_iff hspace j
    have hinv := (h.makeSpace hspace).1
    have hkeys : (budding.insert m.nextConnectionId ⟨m.nextConnectionId, stream⟩).keys =
        budding.keys ++ [m.nextConnectionId] :=
      OrdMap.keys_insert_of_lt fun i hi => hinv.keys_lt hi
    -- the active connection is not budding, so it is not evicted
    have hactive : m.activeConnectionId = some j → ¬ Evicts m j := by
      intro ha hev
      exact absurd (h.budding_gt_active j (List.mem_of_mem_head? hev.2) j ha) (lt_irrefl j)
    simp only [ConnectionManager.activeConnectionId] at hactive ⊢
    rw [hkeys, List.mem_append, List.mem_singleton, hmem]
    tauto

/-- An exit removes its connection. -/
theorem tracked_exit (h : Inv m fwd) {id : ConnectionId} (ht : Trans m (.exit id) m' e)
    (j : ConnectionId) : Tracked m' j ↔ Tracked m j ∧ j ≠ id := by
  cases ht with
  | @exitActive _ handle ha =>
    have hid : m.activeConnectionId = some id := by
      unfold ConnectionManager.activeConnectionId
      rw [ha]
      rfl
    have hnot : j ∈ m.buddingConnections.keys → j ≠ id := fun hj =>
      (h.budding_gt_active j hj id hid).ne'
    constructor
    · rintro (hj | hj)
      · cases hj
      · exact ⟨Or.inr hj, hnot hj⟩
    · rintro ⟨hj | hj, hne⟩
      · exact absurd (Option.some.inj (hj.symm.trans hid)) hne
      · exact Or.inr hj
  | @exitBudding _ handle ha hb =>
    have hactive : m.activeConnectionId = some j → j ≠ id := by
      rintro hj rfl
      exact ha hj
    have hkeys : j ∈ (m.buddingConnections.erase id).keys ↔
        j ∈ m.buddingConnections.keys ∧ j ≠ id := by
      rw [OrdMap.erase_eq_filterKeys, OrdMap.keys_filterKeys, List.mem_filter, decide_eq_true_eq]
    constructor
    · rintro (hj | hj)
      · exact ⟨Or.inl hj, hactive hj⟩
      · exact ⟨Or.inr (hkeys.mp hj).1, (hkeys.mp hj).2⟩
    · rintro ⟨hj | hj, hne⟩
      · exact Or.inl hj
      · exact Or.inr (hkeys.mpr ⟨hj, hne⟩)
  | exitUnknown hid =>
    have hne : Tracked m j → j ≠ id := by
      rintro hj rfl
      exact hid hj
    exact (and_iff_left_of_imp hne).symm

/-- A key of a tracked connection removes the older connections. -/
theorem tracked_osk (h : Inv m fwd) {id : ConnectionId} {key : Key} {reason : SetOskReason}
    (ht : Trans m (.osk id key reason) m' e) (j : ConnectionId) :
    Tracked m' j ↔ Tracked m j ∧ (Tracked m id → id ≤ j) := by
  cases ht with
  | oskActive _ _ ha =>
    have hle : Tracked m j → id ≤ j := by
      rintro (hj | hj)
      · exact (Option.some.inj (ha.symm.trans hj)).le
      · exact (h.budding_gt_active j hj id ha).le
    exact (and_iff_left_of_imp fun hj _ => hle hj).symm
  | @oskBudding _ handle _ _ ha hb =>
    have hid : id ∈ m.buddingConnections.keys := OrdMap.mem_keys.mpr ⟨handle, hb⟩
    have hkeys : j ∈ (m.buddingConnections.filterKeys fun i => id < i).keys ↔
        j ∈ m.buddingConnections.keys ∧ id < j := by
      rw [OrdMap.keys_filterKeys, List.mem_filter, decide_eq_true_eq]
    constructor
    · rintro (hj | hj)
      · obtain rfl : id = j := Option.some.inj hj
        exact ⟨Or.inr hid, fun _ => le_rfl⟩
      · exact ⟨Or.inr (hkeys.mp hj).1, fun _ => (hkeys.mp hj).2.le⟩
    · rintro ⟨hj | hj, hle⟩
      · exact absurd (ha j hj) (not_lt.mpr (hle (Or.inr hid)))
      · rcases (hle (Or.inr hid)).eq_or_lt with rfl | hlt
        · exact Or.inl rfl
        · exact Or.inr (hkeys.mpr ⟨hj, hlt⟩)
  | oskIgnored _ _ hid =>
    have hnot : ¬ Tracked m id := h.not_tracked hid
    exact (and_iff_left_of_imp fun _ hi => absurd hi hnot).symm

/-- **What an event does to the tracked connections.** -/
theorem tracked_trans (h : Inv m fwd) (ht : Trans m ev m' e) (j : ConnectionId) :
    Tracked m' j ↔ (∃ stream, ev = .accept stream ∧ j = m.nextConnectionId) ∨
      (Tracked m j ∧ Keeps m j ev) := by
  cases ev with
  | accept stream => simpa [Keeps] using tracked_accept h ht j
  | exit id => simpa [Keeps] using tracked_exit h ht j
  | osk id key reason => simpa [Keeps] using tracked_osk h ht j

/-- **A key is forwarded exactly if its connection is tracked**; then the connection is the active
one afterwards, and otherwise nothing happens. -/
theorem onOsk_cases (h : Inv m fwd) (id : ConnectionId) (key : Key) (reason : SetOskReason) :
    (Tracked m id ∧ (m.onEvent (.osk id key reason)).2.setOsk = some ⟨key, reason⟩ ∧
        (m.onEvent (.osk id key reason)).1.activeConnectionId = some id) ∨
      (¬ Tracked m id ∧ m.onEvent (.osk id key reason) = (m, {})) := by
  have ht := onEvent_trans m (.osk id key reason)
  generalize hr : m.onEvent (.osk id key reason) = r at ht
  obtain ⟨m', e⟩ := r
  cases ht with
  | oskActive key reason ha => exact Or.inl ⟨Or.inl ha, rfl, ha⟩
  | @oskBudding id handle key reason ha hb =>
    exact Or.inl ⟨Or.inr (OrdMap.mem_keys.mpr ⟨handle, hb⟩), rfl, rfl⟩
  | oskIgnored key reason hid => exact Or.inr ⟨h.not_tracked hid, rfl⟩

end Step

/-! ### Whole runs -/

section Runs
variable {evs : List StreamEvent} {ev : StreamEvent} {id : ConnectionId}

theorem forwardedIds_concat (evs : List StreamEvent) (ev : StreamEvent) :
    (after (evs ++ [ev])).forwardedIds = (after evs).forwardedIds ++
      (forwardedBy ev ((after evs).manager.onEvent ev).2).map Prod.fst := by
  rw [after_concat]
  simp [History.forwardedIds, History.onEvent]

/-- The newly forwarded id, if any, is not larger. -/
def NotOvertaken (evs : List StreamEvent) (ev : StreamEvent) (id : ConnectionId) : Prop :=
  ∀ j ∈ (forwardedBy ev ((after evs).manager.onEvent ev).2).map Prod.fst, j ≤ id

/-- An accepted connection is live. -/
theorem live_accept {stream : StreamId} (hnext : (after evs).manager.nextConnectionId = id)
    (hfwd : ∀ j ∈ (after evs).forwardedIds, j ≤ id) : Live (evs ++ [.accept stream]) id := by
  refine ⟨evs, stream, [], rfl, ?_, List.not_mem_nil, ?_, ?_⟩
  · rw [← hnext]
    rfl
  · rw [forwardedIds_concat]
    simpa [forwardedBy] using hfwd
  · intro q s rest hq
    simp at hq

/-- A live connection stays live if it neither exits nor is overtaken nor evicted. -/
theorem Live.concat (h : Live evs id) (hne : ev ≠ .exit id) (hover : NotOvertaken evs ev id)
    (hevict : ∀ stream, ev = .accept stream → ¬ Evicts (after evs).manager id) :
    Live (evs ++ [ev]) id := by
  obtain ⟨before, stream, since, rfl, hsp, hexit, hfwd, hev⟩ := h
  refine ⟨before, stream, since ++ [ev], by simp, hsp, ?_, ?_, ?_⟩
  · intro hmem
    rcases List.mem_append.mp hmem with hmem | hmem
    · exact hexit hmem
    · exact hne (List.mem_singleton.mp hmem).symm
  · rw [forwardedIds_concat]
    intro j hj
    rcases List.mem_append.mp hj with hj | hj
    · exact hfwd j hj
    · exact hover j hj
  · intro q s rest hq
    rcases List.eq_nil_or_concat rest with rfl | ⟨rest', last, rfl⟩
    · obtain ⟨rfl, hlast⟩ := List.append_inj' hq rfl
      exact hevict s (List.cons.inj hlast).1
    · have hsplit : since ++ [ev] = (q ++ .accept s :: rest') ++ [last] := by
        simpa using hq
      exact hev q s rest' (List.append_inj' hsplit rfl).1

/-- **What an event does to `Live`.** -/
theorem live_concat :
    Live (evs ++ [ev]) id ↔
      (∃ stream, ev = .accept stream ∧ (after evs).manager.nextConnectionId = id ∧
        ∀ j ∈ (after evs).forwardedIds, j ≤ id) ∨
      (Live evs id ∧ ev ≠ .exit id ∧ NotOvertaken evs ev id ∧
        ∀ stream, ev = .accept stream → ¬ Evicts (after evs).manager id) := by
  constructor
  · rintro ⟨before, stream, since, hevs, hsp, hexit, hfwd, hev⟩
    rw [forwardedIds_concat] at hfwd
    rcases List.eq_nil_or_concat since with rfl | ⟨since', last, rfl⟩
    · -- the id was allocated just now
      left
      obtain ⟨rfl, hlast⟩ := List.append_inj' hevs rfl
      obtain rfl : ev = .accept stream := (List.cons.inj hlast).1
      refine ⟨stream, rfl, congrArg Prod.fst (Option.some.inj hsp), fun j hj => ?_⟩
      exact hfwd j (List.mem_append_left _ hj)
    · right
      rw [List.concat_eq_append] at hevs hexit hev
      have hsplit : evs ++ [ev] = (before ++ .accept stream :: since') ++ [last] := by
        simpa using hevs
      obtain ⟨rfl, hlast⟩ := List.append_inj' hsplit rfl
      obtain rfl : ev = last := (List.cons.inj hlast).1
      refine ⟨⟨before, stream, since', rfl, hsp, ?_, ?_, ?_⟩, ?_, ?_, ?_⟩
      · exact fun hmem => hexit (List.mem_append_left _ hmem)
      · exact fun j hj => hfwd j (List.mem_append_left _ hj)
      · intro q s rest hq
        exact hev q s (rest ++ [ev]) (by rw [hq]; simp)
      · rintro rfl
        exact hexit (List.mem_append_right _ (List.mem_singleton.mpr rfl))
      · exact fun j hj => hfwd j (List.mem_append_right _ hj)
      · rintro s rfl
        exact hev since' s [] rfl
  · rintro (⟨stream, rfl, hnext, hfwd⟩ | ⟨hlive, hne, hover, hevict⟩)
    · exact live_accept hnext hfwd
    · exact hlive.concat hne hover hevict

/-- An event keeps a tracked connection exactly if it keeps it live. -/
theorem keeps_iff {fwd : List ConnectionId} (hinv : Inv (after evs).manager fwd) :
    Keeps (after evs).manager id ev ↔
      ev ≠ .exit id ∧ NotOvertaken evs ev id ∧
        ∀ stream, ev = .accept stream → ¬ Evicts (after evs).manager id := by
  unfold NotOvertaken
  cases ev with
  | accept stream => simp [Keeps, forwardedBy]
  | exit j =>
    simp only [Keeps, forwardedBy, List.map_nil, List.not_mem_nil, false_implies, implies_true,
      reduceCtorEq, and_true, ne_eq, StreamEvent.exit.injEq]
    exact ⟨fun hne he => hne he.symm, fun hne he => hne he.symm⟩
  | osk j key reason =>
    rcases onOsk_cases hinv j key reason with ⟨hj, hset, -⟩ | ⟨hj, hnone⟩
    · simp [Keeps, forwardedBy, hset, hj]
    · simp [Keeps, forwardedBy, hnone, hj]

/-- **The tracked connections are the live ones.** -/
theorem tracked_iff_live (h : accepts evs < connectionIds) (id : ConnectionId) :
    Tracked (after evs).manager id ↔ Live evs id := by
  induction evs using List.reverseRecOn with
  | nil =>
    constructor
    · rintro (hi | hi) <;> cases hi
    · rintro ⟨before, stream, since, hevs, -⟩
      simp at hevs
  | append_singleton evs ev ih =>
    have hlt : accepts evs < connectionIds := accepts_lt_of_append h
    obtain ⟨hnext, hinv⟩ := run_inv hlt
    have hstep := tracked_trans hinv (onEvent_trans (after evs).manager ev) id
    rw [keeps_iff hinv, ih hlt] at hstep
    rw [after_concat, live_concat]
    refine hstep.trans (or_congr_left ?_)
    constructor
    · rintro ⟨stream, rfl, rfl⟩
      exact ⟨stream, rfl, rfl, fun j hj => (hinv.fwd_lt j hj).le⟩
    · rintro ⟨stream, rfl, rfl, -⟩
      exact ⟨stream, rfl, rfl⟩

/-- A connection that is not tracked any more is never tracked again. -/
theorem untracked_append {evs' : List StreamEvent} (h : accepts (evs ++ evs') < connectionIds)
    (hid : id < (after evs).manager.nextConnectionId) (ht : ¬ Tracked (after evs).manager id) :
    ¬ Tracked (after (evs ++ evs')).manager id := by
  induction evs' using List.reverseRecOn with
  | nil => rwa [List.append_nil]
  | append_singleton evs' ev ih =>
    rw [← List.append_assoc] at h ⊢
    have hlt : accepts (evs ++ evs') < connectionIds := accepts_lt_of_append h
    obtain ⟨hnext, hinv⟩ := run_inv hlt
    have hnext' := (run_inv (accepts_lt_of_append hlt)).1
    have hstep := tracked_trans hinv (onEvent_trans (after (evs ++ evs')).manager ev) id
    rw [after_concat]
    intro ht'
    rcases hstep.mp ht' with ⟨stream, -, heq⟩ | ⟨ht', -⟩
    · rw [hnext, accepts_append, ← hnext'] at heq
      exact absurd hid (not_lt.mpr (heq ▸ Nat.le_add_right _ _))
    · exact ih hlt ht'

/-- The id of a connection that was tracked has been allocated. -/
theorem tracked_lt {evs' : List StreamEvent} (h : accepts (evs ++ evs') < connectionIds)
    (ht : Tracked (after evs).manager id) :
    id < (after (evs ++ evs')).manager.nextConnectionId := by
  obtain ⟨hnext, hinv⟩ := run_inv (accepts_lt_of_append h)
  have hlt : id < (after evs).manager.nextConnectionId := by
    rcases ht with ht | ht
    · exact hinv.activeId_lt ht
    · exact hinv.keys_lt ht
  rw [hnext] at hlt
  rw [(run_inv h).1, accepts_append]
  exact Nat.lt_add_right _ hlt

end Runs

/-- **Exact forwarding.** After every sequence of events with fewer than `2 ^ 64` accepts: a key is
passed on, once and unchanged, exactly if its connection is live; its connection is then active. A
key that is not passed on changes nothing, and no other event passes on a key. The ids whose keys
were forwarded never decrease, and a connection that has left the manager contributes no key any
more. -/
theorem exact_forwarding (evs : List StreamEvent) (h : accepts evs < connectionIds) :
    (∀ id key reason,
      (((after evs).manager.onEvent (.osk id key reason)).2.setOsk = some ⟨key, reason⟩ ↔
        Live evs id) ∧
      (Live evs id → ((after evs).manager.onEvent (.osk id key reason)).1.activeConnectionId =
        some id) ∧
      (¬ Live evs id → (after evs).manager.onEvent (.osk id key reason) =
        ((after evs).manager, {}))) ∧
    (∀ ev, (∀ id key reason, ev ≠ .osk id key reason) →
      ((after evs).manager.onEvent ev).2.setOsk = none) ∧
    (after evs).forwardedIds.Pairwise (· ≤ ·) ∧
    ∀ before since rest id, evs = before ++ since ++ rest → Tracked (after before).manager id →
      ¬ Tracked (after (before ++ since)).manager id →
      ∀ key reason, ((after evs).manager.onEvent (.osk id key reason)).2.setOsk = none := by
  obtain ⟨hnext, hinv⟩ := run_inv h
  refine ⟨fun id key reason => ?_, fun ev hev => ?_, hinv.fwd_sorted, ?_⟩
  · rw [← tracked_iff_live h id]
    rcases onOsk_cases hinv id key reason with ⟨ht, hset, hact⟩ | ⟨ht, hsame⟩
    · exact ⟨⟨fun _ => ht, fun _ => hset⟩, fun _ => hact, fun hn => absurd ht hn⟩
    · refine ⟨⟨fun hset => ?_, fun ht' => absurd ht' ht⟩, fun ht' => absurd ht' ht, fun _ => hsame⟩
      rw [hsame] at hset
      cases hset
  · have ht := onEvent_trans (after evs).manager ev
    generalize (after evs).manager.onEvent ev = r at ht
    obtain ⟨m', e⟩ := r
    cases ht with
    | accept | exitActive | exitBudding | exitUnknown | oskIgnored => rfl
    | oskActive | oskBudding => exact absurd rfl (hev _ _ _)
  · rintro before since rest id rfl hin hout key reason
    have hnot := untracked_append h ?_ hout
    · rcases onOsk_cases hinv id key reason with ⟨ht, -, -⟩ | ⟨-, hsame⟩
      · exact absurd ht hnot
      · rw [hsame]
    · exact tracked_lt (accepts_lt_of_append h) hin

/-- A key of a superseded connection is not forwarded, one of the active connection is. -/
theorem exact_forwarding_superseded :
    ¬ Live [.accept 0, .accept 1, .osk 1 (zeroed 32) .fresh] 0 ∧
      Live [.accept 0, .accept 1, .osk 1 (zeroed 32) .fresh] 1 := by
  have hf := (exact_forwarding [.accept 0, .accept 1, .osk 1 (zeroed 32) .fresh] (by decide)).1
  refine ⟨fun hlive => ?_, ?_⟩
  · exact absurd ((hf 0 (zeroed 32) .fresh).1.mpr hlive) (by decide +kernel)
  · exact (hf 1 (zeroed 32) .fresh).1.mp (by decide +kernel)

end Daisyway.Net.Forwarding
