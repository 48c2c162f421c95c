import Daisyway.Lib.Maps
import Mathlib.Data.List.Induction
import Daisyway.Osk.Deadman

/-! # The connection manager

The server's `ConnectionManager` numbers the connections it accepts, keeps the handle of the task of
each, and decides which keys reach the output: the first key of a budding connection makes it the
active one, and every older connection is dropped. A handle aborts its task when it is dropped, so
every operation returns, beside the new state, the handles it dropped (`Effect`).

`Trans` says once what an event can do, and `Inv` is the invariant: every budding id is above the
active one and above every id whose key was ever forwarded. `run_inv` carries it through every
sequence of events with fewer than `2 ^ 64` accepts. -/

namespace Daisyway.Net.Manager

open Daisyway.Prim Daisyway.Lib.Maps Daisyway.Osk.Deadman

/-! ### The model -/

abbrev ConnectionId := ℕ

/-- The number of values of a `ConnectionId`. -/
def connectionIds : ℕ := 2 ^ 64

def maxBuddingConnections : ℕ := 2000

/-- The number of an accepted TCP stream. -/
abbrev StreamId := ℕ

/-- The handle of the task spawned for a connection and its stream; dropping it aborts the task. -/
structure AbortOnDropHandle where
  connectionId : ConnectionId
  stream : StreamId
  deriving DecidableEq

inductive StreamEvent where
  | accept (stream : StreamId)
  | exit (connectionId : ConnectionId)
  | osk (connectionId : ConnectionId) (key : Key) (reason : SetOskReason)
  deriving DecidableEq

structure ConnectionManager where
  nextConnectionId : ConnectionId
  activeConnection : Option (ConnectionId × AbortOnDropHandle)
  buddingConnections : OrdMap ConnectionId AbortOnDropHandle
  deriving DecidableEq

/-- What an event does apart from the change of the manager's state. -/
structure Effect where
  /-- The connection a task was spawned for, with its stream. -/
  spawned : Option (ConnectionId × StreamId) := none
  /-- The handles dropped at once. -/
  dropped : List AbortOnDropHandle := []
  /-- The call of the OSK handler. -/
  setOsk : Option SetOsk := none
  /-- The handles dropped when the OSK handler has returned. -/
  removed : List AbortOnDropHandle := []

/-- The handle of the task the event spawned. -/
def Effect.spawnedHandle (e : Effect) : List AbortOnDropHandle :=
  (e.spawned.map fun s => AbortOnDropHandle.mk s.1 s.2).toList

/-- All handles the event drops. -/
def Effect.allDropped (e : Effect) : List AbortOnDropHandle := e.dropped ++ e.removed

namespace ConnectionManager

def new : ConnectionManager := ⟨0, none, OrdMap.empty⟩

def activeConnectionId (m : ConnectionManager) : Option ConnectionId :=
  m.activeConnection.map Prod.fst

/-- Makes sure there is space in the budding connections. The source expects `pop_first` to find a
connection; that it does is part of `makeSpace_cases`. -/
def makeSpace (budding : OrdMap ConnectionId AbortOnDropHandle) :
    OrdMap ConnectionId AbortOnDropHandle × List AbortOnDropHandle :=
  if maxBuddingConnections ≤ budding.len then
    match budding.popFirst with
    | some ((_, handle), rest) => (rest, [handle])
    | none => (budding, [])
  else (budding, [])

def onAccept (m : ConnectionManager) (stream : StreamId) : ConnectionManager × Effect :=
  -- `allocate_connection_id`
  let connectionId := m.nextConnectionId
  let (budding, pruned) := makeSpace m.buddingConnections
  ({ m with
      nextConnectionId := (connectionId + 1) % connectionIds
      buddingConnections := budding.insert connectionId ⟨connectionId, stream⟩ },
    { spawned := some (connectionId, stream)
      -- `insert` drops the handle it replaces
      dropped := pruned ++ (budding.get? connectionId).toList })

def onExit (m : ConnectionManager) (connId : ConnectionId) : ConnectionManager × Effect :=
  if some connId = m.activeConnectionId then
    ({ m with activeConnection := none },
      { dropped := (m.activeConnection.map Prod.snd).toList })
  else
    match m.buddingConnections.get? connId with
    | some handle =>
      ({ m with buddingConnections := m.buddingConnections.erase connId }, { dropped := [handle] })
    | none => (m, {})

def onOskFromStale (m : ConnectionManager) : ConnectionManager × Effect := (m, {})

def onOskFromActive (m : ConnectionManager) (key : Key) (reason : SetOskReason) :
    ConnectionManager × Effect :=
  (m, { setOsk := some ⟨key, reason⟩ })

def onOskFromBudding (m : ConnectionManager) (newActiveId : ConnectionId) (key : Key)
    (reason : SetOskReason) : ConnectionManager × Effect :=
  match m.buddingConnections.get? newActiveId with
  | none => (m, {})
  | some newActiveHandle =>
    -- `split_off` keeps the smaller ids and returns the others; the two are then swapped
    let (removed, budding) := (m.buddingConnections.erase newActiveId).splitOff newActiveId
    ({ m with
        activeConnection := some (newActiveId, newActiveHandle)
        buddingConnections := budding },
      { dropped := (m.activeConnection.map Prod.snd).toList
        setOsk := some ⟨key, reason⟩
        removed := removed.entries.map Prod.snd })

def onOsk (m : ConnectionManager) (connId : ConnectionId) (key : Key) (reason : SetOskReason) :
    ConnectionManager × Effect :=
  match (m.activeConnectionId.map fun active => compare connId active).getD .gt with
  | .lt => m.onOskFromStale
  | .eq => m.onOskFromActive key reason
  | .gt => m.onOskFromBudding connId key reason

def onEvent (m : ConnectionManager) : StreamEvent → ConnectionManager × Effect
  | .accept stream => m.onAccept stream
  | .exit id => m.onExit id
  | .osk id key reason => m.onOsk id key reason

end ConnectionManager

/-! ### What an event can do -/

/-- The connection is active or budding. -/
def Tracked (m : ConnectionManager) (id : ConnectionId) : Prop :=
  m.activeConnectionId = some id ∨ id ∈ m.buddingConnections.keys

instance (m : ConnectionManager) (id : ConnectionId) : Decidable (Tracked m id) :=
  inferInstanceAs (Decidable (_ ∨ _))

/-- The handles of the active connection: one or none. -/
def activeHandles (m : ConnectionManager) : List AbortOnDropHandle :=
  (m.activeConnection.map Prod.snd).toList

/-- The event `ev` takes the manager from `m` to `m'` with the effect `e`. -/
inductive Trans (m : ConnectionManager) : StreamEvent → ConnectionManager → Effect → Prop
  | accept (stream : StreamId) {budding : OrdMap ConnectionId AbortOnDropHandle}
      {pruned : List AbortOnDropHandle}
      (hspace : ConnectionManager.makeSpace m.buddingConnections = (budding, pruned)) :
      Trans m (.accept stream)
        { m with
          nextConnectionId := (m.nextConnectionId + 1) % connectionIds
          buddingConnections := budding.insert m.nextConnectionId ⟨m.nextConnectionId, stream⟩ }
        { spawned := some (m.nextConnectionId, stream)
          dropped := pruned ++ (budding.get? m.nextConnectionId).toList }
  | exitActive {id : ConnectionId} {handle : AbortOnDropHandle}
      (ha : m.activeConnection = some (id, handle)) :
      Trans m (.exit id) { m with activeConnection := none } { dropped := [handle] }
  | exitBudding {id : ConnectionId} {handle : AbortOnDropHandle}
      (ha : m.activeConnectionId ≠ some id) (hb : (id, handle) ∈ m.buddingConnections.entries) :
      Trans m (.exit id) { m with buddingConnections := m.buddingConnections.erase id }
        { dropped := [handle] }
  | exitUnknown {id : ConnectionId} (hid : ¬ Tracked m id) : Trans m (.exit id) m {}
  | oskActive {id : ConnectionId} (key : Key) (reason : SetOskReason)
      (ha : m.activeConnectionId = some id) :
      Trans m (.osk id key reason) m { setOsk := some ⟨key, reason⟩ }
  | oskBudding {id : ConnectionId} {handle : AbortOnDropHandle} (key : Key) (reason : SetOskReason)
      (ha : ∀ a, m.activeConnectionId = some a → a < id)
      (hb : (id, handle) ∈ m.buddingConnections.entries) :
      Trans m (.osk id key reason)
        { m with
          activeConnection := some (id, handle)
          buddingConnections := m.buddingConnections.filterKeys fun j => id < j }
        { dropped := activeHandles m
          setOsk := some ⟨key, reason⟩
          removed := (m.buddingConnections.filterKeys fun j => j < id).entries.map Prod.snd }
  | oskIgnored {id : ConnectionId} (key : Key) (reason : SetOskReason)
      (hid : (∃ a, m.activeConnectionId = some a ∧ id < a) ∨ ¬ Tracked m id) :
      Trans m (.osk id key reason) m {}

theorem onExit_trans (m : ConnectionManager) (id : ConnectionId) :
    Trans m (.exit id) (m.onExit id).1 (m.onExit id).2 := by
  unfold ConnectionManager.onExit
  by_cases ha : some id = m.activeConnectionId
  · rw [if_pos ha]
    obtain ⟨⟨i, handle⟩, hm, hi⟩ := Option.map_eq_some_iff.mp ha.symm
    obtain rfl : i = id := hi
    simp only [hm, Option.map_some, Option.toList_some]
    exact .exitActive hm
  · rw [if_neg ha]
    cases hb : m.buddingConnections.get? id with
    | some handle => exact .exitBudding (Ne.symm ha) (OrdMap.get?_eq_some_iff.mp hb)
    | none =>
      refine .exitUnknown fun ht => ?_
      rcases ht with ht | ht
      · exact ha ht.symm
      · exact OrdMap.get?_eq_none_iff.mp hb ht

theorem onOskFromBudding_trans {m : ConnectionManager} {id : ConnectionId} (key : Key)
    (reason : SetOskReason) (ha : ∀ a, m.activeConnectionId = some a → a < id) :
    Trans m (.osk id key reason) (m.onOskFromBudding id key reason).1
      (m.onOskFromBudding id key reason).2 := by
  unfold ConnectionManager.onOskFromBudding
  cases hb : m.buddingConnections.get? id with
  | none =>
    refine .oskIgnored key reason (Or.inr fun ht => ?_)
    rcases ht with ht | ht
    · exact absurd (ha id ht) (lt_irrefl id)
    · exact OrdMap.get?_eq_none_iff.mp hb ht
  | some handle =>
    simp only [OrdMap.splitOff_erase]
    exact .oskBudding key reason ha (OrdMap.get?_eq_some_iff.mp hb)

theorem onOsk_trans (m : ConnectionManager) (id : ConnectionId) (key : Key)
    (reason : SetOskReason) :
    Trans m (.osk id key reason) (m.onOsk id key reason).1 (m.onOsk id key reason).2 := by
  unfold ConnectionManager.onOsk
  cases ha : m.activeConnectionId with
  | none => exact onOskFromBudding_trans key reason fun a h => by rw [ha] at h; cases h
  | some a =>
    simp only [Option.map_some, Option.getD_some]
    rcases lt_trichotomy id a with h | rfl | h
    · rw [compare_lt_iff_lt.mpr h]
      exact .oskIgnored key reason (Or.inl ⟨a, ha, h⟩)
    · rw [compare_eq_iff_eq.mpr rfl]
      exact .oskActive key reason ha
    · rw [compare_gt_iff_gt.mpr h]
      refine onOskFromBudding_trans key reason fun b hb => ?_
      rw [ha] at hb
      exact Option.some.inj hb ▸ h

/-- **Every event is one of these transitions.** -/
theorem onEvent_trans (m : ConnectionManager) (ev : StreamEvent) :
    Trans m ev (m.onEvent ev).1 (m.onEvent ev).2 := by
  cases ev with
  | accept stream => exact .accept stream rfl
  | exit id => exact onExit_trans m id
  | osk id key reason => exact onOsk_trans m id key reason

/-- Pruning removes the smallest budding connection, and only if there is no space. -/
theorem makeSpace_cases {b budding : OrdMap ConnectionId AbortOnDropHandle}
    {pruned : List AbortOnDropHandle}
    (h : ConnectionManager.makeSpace b = (budding, pruned)) :
    (b.len < maxBuddingConnections ∧ budding = b ∧ pruned = []) ∨
      (maxBuddingConnections ≤ b.len ∧
        ∃ id handle, b.popFirst = some ((id, handle), budding) ∧ pruned = [handle]) := by
  unfold ConnectionManager.makeSpace at h
  split_ifs at h with hl
  · right
    refine ⟨hl, ?_⟩
    split at h
    · next id handle rest hp =>
      obtain ⟨rfl, rfl⟩ := Prod.mk.inj h
      exact ⟨id, handle, hp, rfl⟩
    · next hp =>
      -- `pop_first` is expected to find a connection, and it does
      have hnil := OrdMap.popFirst_none.mp hp
      unfold OrdMap.len maxBuddingConnections at hl
      rw [hnil] at hl
      exact absurd hl (by decide)
  · obtain ⟨rfl, rfl⟩ := Prod.mk.inj h
    exact Or.inl ⟨by omega, rfl, rfl⟩

/-! ### The invariant -/

/-- The keys an event forwarded, with the connection they came from. -/
def forwardedBy : StreamEvent → Effect → List (ConnectionId × SetOsk)
  | .osk id _ _, e => (e.setOsk.map fun call => (id, call)).toList
  | _, _ => []

/-- The invariant of the manager, where `fwd` are the ids whose keys were forwarded so far. -/
structure Inv (m : ConnectionManager) (fwd : List ConnectionId) : Prop where
  active_lt : ∀ a, m.activeConnection = some a →
    a.1 < m.nextConnectionId ∧ a.2.connectionId = a.1
  active_ge : ∀ a, m.activeConnectionId = some a → ∀ j ∈ fwd, j ≤ a
  budding_lt : ∀ e ∈ m.buddingConnections.entries,
    e.1 < m.nextConnectionId ∧ e.2.connectionId = e.1
  budding_gt_active : ∀ id ∈ m.buddingConnections.keys, ∀ a, m.activeConnectionId = some a → a < id
  budding_gt_fwd : ∀ id ∈ m.buddingConnections.keys, ∀ j ∈ fwd, j < id
  fwd_lt : ∀ j ∈ fwd, j < m.nextConnectionId
  fwd_sorted : fwd.Pairwise (· ≤ ·)
  len_le : m.buddingConnections.len ≤ maxBuddingConnections

theorem Inv.new : Inv ConnectionManager.new [] where
  active_lt := by intro a h; cases h
  active_ge := by intro a h; cases h
  budding_lt := by intro e h; cases h
  budding_gt_active := by intro id h; cases h
  budding_gt_fwd := by intro id h; cases h
  fwd_lt := by intro j h; cases h
  fwd_sorted := List.Pairwise.nil
  len_le := Nat.zero_le _

section Inv
variable {m m' : ConnectionManager} {fwd : List ConnectionId}

theorem mem_keys_mono {b b' : OrdMap ConnectionId AbortOnDropHandle}
    (h : ∀ e ∈ b'.entries, e ∈ b.entries) {id : ConnectionId} (hid : id ∈ b'.keys) :
    id ∈ b.keys := by
  obtain ⟨v, hv⟩ := OrdMap.mem_keys.mp hid
  exact OrdMap.mem_keys.mpr ⟨v, h _ hv⟩

/-- Fewer tracked connections. -/
theorem Inv.shrink (h : Inv m fwd) (hn : m'.nextConnectionId = m.nextConnectionId)
    (ha : ∀ a, m'.activeConnection = some a → m.activeConnection = some a)
    (hb : ∀ e ∈ m'.buddingConnections.entries, e ∈ m.buddingConnections.entries)
    (hl : m'.buddingConnections.len ≤ m.buddingConnections.len) : Inv m' fwd := by
  have haid : ∀ a, m'.activeConnectionId = some a → m.activeConnectionId = some a := by
    intro a hm
    obtain ⟨p, hp, rfl⟩ := Option.map_eq_some_iff.mp hm
    exact Option.map_eq_some_iff.mpr ⟨p, ha p hp, rfl⟩
  refine ⟨?_, ?_, ?_, ?_, ?_, ?_, h.fwd_sorted, hl.trans h.len_le⟩
  · intro a hm
    rw [hn]
    exact h.active_lt a (ha a hm)
  · intro a hm
    exact h.active_ge a (haid a hm)
  · intro e he
    rw [hn]
    exact h.budding_lt e (hb e he)
  · intro id hid a hm
    exact h.budding_gt_active id (mem_keys_mono hb hid) a (haid a hm)
  · intro id hid
    exact h.budding_gt_fwd id (mem_keys_mono hb hid)
  · intro j hj
    rw [hn]
    exact h.fwd_lt j hj

theorem Inv.keys_lt (h : Inv m fwd) {id : ConnectionId} (hid : id ∈ m.buddingConnections.keys) :
    id < m.nextConnectionId := by
  obtain ⟨v, hv⟩ := OrdMap.mem_keys.mp hid
  exact (h.budding_lt _ hv).1

theorem Inv.activeId_lt (h : Inv m fwd) {a : ConnectionId} (ha : m.activeConnectionId = some a) :
    a < m.nextConnectionId := by
  obtain ⟨p, hp, rfl⟩ := Option.map_eq_some_iff.mp ha
  exact (h.active_lt p hp).1

/-- A key that is ignored comes from a connection that is not tracked. -/
theorem Inv.not_tracked (h : Inv m fwd) {id : ConnectionId}
    (hid : (∃ a, m.activeConnectionId = some a ∧ id < a) ∨ ¬ Tracked m id) : ¬ Tracked m id := by
  rcases hid with ⟨a, ha, hlt⟩ | hid
  · rintro (hi | hi)
    · rw [ha] at hi
      exact absurd (Option.some.inj hi) hlt.ne'
    · exact absurd (h.budding_gt_active id hi a ha) hlt.asymm
  · exact hid

/-- A new connection is above all others. -/
theorem Inv.insert (h : Inv m fwd) (hroom : m.buddingConnections.len < maxBuddingConnections)
    (stream : StreamId) :
    Inv { m with
      nextConnectionId := m.nextConnectionId + 1
      buddingConnections :=
        m.buddingConnections.insert m.nextConnectionId ⟨m.nextConnectionId, stream⟩ } fwd := by
  have hkeys : (m.buddingConnections.insert m.nextConnectionId ⟨m.nextConnectionId, stream⟩).keys =
      m.buddingConnections.keys ++ [m.nextConnectionId] :=
    OrdMap.keys_insert_of_lt fun j hj => h.keys_lt hj
  refine ⟨?_, h.active_ge, ?_, ?_, ?_, ?_, h.fwd_sorted, ?_⟩
  · intro a ha
    obtain ⟨hlt, hh⟩ := h.active_lt a ha
    exact ⟨Nat.lt_succ_of_lt hlt, hh⟩
  · intro e he
    rcases OrdMap.mem_insert.mp he with rfl | ⟨he, -⟩
    · exact ⟨Nat.lt_succ_self _, rfl⟩
    · obtain ⟨hlt, hh⟩ := h.budding_lt e he
      exact ⟨Nat.lt_succ_of_lt hlt, hh⟩
  · intro id hid a ha
    simp only [hkeys, List.mem_append, List.mem_singleton] at hid
    rcases hid with hid | rfl
    · exact h.budding_gt_active id hid a ha
    · exact h.activeId_lt ha
  · intro id hid j hj
    simp only [hkeys, List.mem_append, List.mem_singleton] at hid
    rcases hid with hid | rfl
    · exact h.budding_gt_fwd id hid j hj
    · exact h.fwd_lt j hj
  · intro j hj
    exact Nat.lt_succ_of_lt (h.fwd_lt j hj)
  · have hlen := congrArg List.length hkeys
    rw [List.length_append, OrdMap.length_keys, OrdMap.length_keys, List.length_singleton] at hlen
    simp only
    omega

/-- The promoted connection is above everything forwarded before, and below what stays budding. -/
theorem Inv.promote (h : Inv m fwd) {id : ConnectionId} {handle : AbortOnDropHandle}
    (hb : (id, handle) ∈ m.buddingConnections.entries) :
    Inv { m with
      activeConnection := some (id, handle)
      buddingConnections := m.buddingConnections.filterKeys fun j => id < j } (fwd ++ [id]) := by
  have hid : id ∈ m.buddingConnections.keys := OrdMap.mem_keys.mpr ⟨handle, hb⟩
  have hkept : ∀ j ∈ (m.buddingConnections.filterKeys fun j => id < j).keys,
      j ∈ m.buddingConnections.keys ∧ id < j := by
    intro j hj
    simpa using hj
  refine ⟨?_, ?_, ?_, ?_, ?_, ?_, ?_, ?_⟩
  · intro a ha
    obtain rfl := Option.some.inj ha
    exact h.budding_lt _ hb
  · intro a ha j hj
    obtain rfl : id = a := Option.some.inj ha
    rcases List.mem_append.mp hj with hj | hj
    · exact (h.budding_gt_fwd id hid j hj).le
    · exact (List.mem_singleton.mp hj).le
  · intro e he
    exact h.budding_lt e (OrdMap.mem_filterKeys.mp he).1
  · intro j hj a ha
    obtain rfl : id = a := Option.some.inj ha
    exact (hkept j hj).2
  · intro j hj i hi
    rcases List.mem_append.mp hi with hi | hi
    · exact h.budding_gt_fwd j (hkept j hj).1 i hi
    · rw [List.mem_singleton.mp hi]
      exact (hkept j hj).2
  · intro j hj
    rcases List.mem_append.mp hj with hj | hj
    · exact h.fwd_lt j hj
    · rw [List.mem_singleton.mp hj]
      exact h.keys_lt hid
  · refine List.pairwise_append.mpr ⟨h.fwd_sorted, List.pairwise_singleton _ _, ?_⟩
    intro j hj i hi
    rw [List.mem_singleton.mp hi]
    exact (h.budding_gt_fwd id hid j hj).le
  · exact (OrdMap.len_filterKeys_le _).trans h.len_le

/-- A key of the active connection adds its id once more. -/
theorem Inv.forwardActive (h : Inv m fwd) {id : ConnectionId}
    (ha : m.activeConnectionId = some id) : Inv m (fwd ++ [id]) := by
  have hmem : ∀ j ∈ fwd ++ [id], j ∈ fwd ∨ j = id := by
    intro j hj
    simpa using hj
  refine ⟨h.active_lt, ?_, h.budding_lt, h.budding_gt_active, ?_, ?_, ?_, h.len_le⟩
  · intro a ha' j hj
    rcases hmem j hj with hj | rfl
    · exact h.active_ge a ha' j hj
    · exact (Option.some.inj (ha.symm.trans ha')).le
  · intro i hi j hj
    rcases hmem j hj with hj | rfl
    · exact h.budding_gt_fwd i hi j hj
    · exact h.budding_gt_active i hi j ha
  · intro j hj
    rcases hmem j hj with hj | rfl
    · exact h.fwd_lt j hj
    · exact h.activeId_lt ha
  · refine List.pairwise_append.mpr ⟨h.fwd_sorted, List.pairwise_singleton _ _, ?_⟩
    intro j hj i hi
    rw [List.mem_singleton.mp hi]
    exact h.active_ge id ha j hj

/-- The budding connections after pruning. -/
theorem Inv.makeSpace (h : Inv m fwd) {budding : OrdMap ConnectionId AbortOnDropHandle}
    {pruned : List AbortOnDropHandle}
    (hs : ConnectionManager.makeSpace m.buddingConnections = (budding, pruned)) :
    Inv { m with buddingConnections := budding } fwd ∧ budding.len < maxBuddingConnections := by
  rcases makeSpace_cases hs with ⟨hl, rfl, -⟩ | ⟨hl, id, handle, hp, -⟩
  · exact ⟨h, hl⟩
  · have hentries := OrdMap.popFirst_some.mp hp
    have hlen : m.buddingConnections.len = budding.len + 1 := by
      unfold OrdMap.len
      rw [hentries]
      rfl
    have := h.len_le
    refine ⟨h.shrink rfl (fun _ ha => ha) (fun e he => ?_) (by simp only; omega), by omega⟩
    rw [hentries]
    exact List.mem_cons_of_mem _ he

/-- **Every event keeps the invariant**, as long as there are ids left. -/
theorem trans_inv {ev : StreamEvent} {e : Effect} (h : Inv m fwd) (ht : Trans m ev m' e)
    (hids : ∀ stream, ev = .accept stream → m.nextConnectionId + 1 < connectionIds) :
    Inv m' (fwd ++ (forwardedBy ev e).map Prod.fst) := by
  cases ht with
  | accept stream hspace =>
    obtain ⟨hinv, hlt⟩ := h.makeSpace hspace
    rw [Nat.mod_eq_of_lt (hids stream rfl)]
    simpa [forwardedBy] using hinv.insert hlt stream
  | exitActive ha =>
    simp only [forwardedBy, List.map_nil, List.append_nil]
    exact h.shrink rfl (fun a hn => by cases hn) (fun e he => he) le_rfl
  | exitBudding ha hb =>
    simp only [forwardedBy, List.map_nil, List.append_nil]
    exact h.shrink rfl (fun a hn => hn) (fun e he => (OrdMap.mem_erase.mp he).1)
      (OrdMap.len_filterKeys_le _)
  | exitUnknown hid => simpa [forwardedBy] using h
  | oskActive key reason ha => exact h.forwardActive ha
  | oskBudding key reason ha hb => exact h.promote hb
  | oskIgnored key reason hid => simpa [forwardedBy] using h

end Inv

/-! ### Runs -/

/-- The manager with its history. -/
structure History where
  manager : ConnectionManager
  /-- The handles of the spawned tasks. -/
  spawned : List AbortOnDropHandle
  /-- The keys passed to the OSK handler, with the connection they came from. -/
  forwarded : List (ConnectionId × SetOsk)
  /-- The handles dropped. -/
  dropped : List AbortOnDropHandle

def History.new : History := ⟨ConnectionManager.new, [], [], []⟩

/-- The manager processes an event, and the OSK handler succeeds. -/
def History.onEvent (r : History) (ev : StreamEvent) : History :=
  let (manager, e) := r.manager.onEvent ev
  { manager
    spawned := r.spawned ++ e.spawnedHandle
    forwarded := r.forwarded ++ forwardedBy ev e
    dropped := r.dropped ++ e.allDropped }

/-- The history after a sequence of events. -/
def after (evs : List StreamEvent) : History := evs.foldl History.onEvent History.new

theorem after_concat (evs : List StreamEvent) (ev : StreamEvent) :
    after (evs ++ [ev]) = (after evs).onEvent ev := by
  unfold after
  rw [List.foldl_append]
  rfl

/-- The ids whose keys were forwarded. -/
def History.forwardedIds (r : History) : List ConnectionId := r.forwarded.map Prod.fst

/-- The number of accepted connections. -/
def accepts : List StreamEvent → ℕ
  | [] => 0
  | .accept _ :: evs => accepts evs + 1
  | _ :: evs => accepts evs

theorem accepts_append : ∀ evs evs' : List StreamEvent,
    accepts (evs ++ evs') = accepts evs + accepts evs'
  | [], evs' => by simp [accepts]
  | ev :: evs, evs' => by
    have ih := accepts_append evs evs'
    cases ev <;> simp only [List.cons_append, accepts] <;> omega

/-- A front of a sequence has no more accepts. -/
theorem accepts_lt_of_append {evs evs' : List StreamEvent} {n : ℕ} (h : accepts (evs ++ evs') < n) :
    accepts evs < n := by
  rw [accepts_append] at h
  omega

/-- An accept takes the next id; no other event changes it. -/
theorem trans_next {m m' : ConnectionManager} {ev : StreamEvent} {e : Effect}
    (ht : Trans m ev m' e) (hlt : m.nextConnectionId + accepts [ev] < connectionIds) :
    m'.nextConnectionId = m.nextConnectionId + accepts [ev] := by
  cases ht with
  | accept stream hspace => exact Nat.mod_eq_of_lt hlt
  | exitActive | exitBudding | exitUnknown | oskActive | oskBudding | oskIgnored => rfl

/-- **The invariant holds after every sequence of events with fewer than `2 ^ 64` accepts.** -/
theorem run_inv {evs : List StreamEvent} (h : accepts evs < connectionIds) :
    (after evs).manager.nextConnectionId = accepts evs ∧
      Inv (after evs).manager (after evs).forwardedIds := by
  induction evs using List.reverseRecOn with
  | nil => exact ⟨rfl, Inv.new⟩
  | append_singleton evs ev ih =>
    rw [accepts_append] at h
    obtain ⟨hnext, hinv⟩ := ih (by omega)
    have ht := onEvent_trans (after evs).manager ev
    rw [← hnext] at h
    rw [after_concat, accepts_append, ← hnext]
    refine ⟨trans_next ht h, ?_⟩
    have hids : ∀ stream, ev = .accept stream →
        (after evs).manager.nextConnectionId + 1 < connectionIds := by
      rintro stream rfl
      exact h
    have := trans_inv hinv ht hids
    unfold History.forwardedIds at this ⊢
    simpa [History.onEvent] using this

end Daisyway.Net.Manager
