import Daisyway.Lib.Run
import Daisyway.Prim

/-! # The deadman

`OskDeadman` hands output keys to a worker thread through a queue of eight requests; the worker
passes each to its broker and erases the key of the broker, by setting a random one with the reason
`stale`, at its start, whenever no request arrives in time, and when all senders are gone.

The worker is a state machine: a state is the place in `event_loop` it is at, an action is what the
operation there returns. Time is the argument of the operations that read the clock. Every call of
the broker can succeed, return an error or panic; an error or a panic ends the thread at once, so a
worker whose broker fails on a fresh key ends without erasing anything (`stops_erased_iff`). -/

namespace Daisyway.Osk.Deadman

open Daisyway.Prim Daisyway.Lib.Run

/-! ### Output keys -/

inductive SetOskReason where
  /-- This is a new, secure key. -/
  | fresh
  /-- This is a randomly chosen, invalid key, used to erase the old key. -/
  | stale
  deriving DecidableEq

/-- A call of `OskHandler::set_osk`. -/
structure SetOsk where
  key : Key
  reason : SetOskReason
  deriving DecidableEq

def setFreshOsk (key : Key) : SetOsk := ⟨key, .fresh⟩

def eraseStaleOsk (random : Key) : SetOsk := ⟨random, .stale⟩

/-- How a call of a broker ends. -/
inductive BrokerResult where
  | ok
  | err
  | panicked
  deriving DecidableEq

/-- `WireGuardOskHandler::set_osk`: a poisoned lock is a panic, a failed `set_device` an error. -/
def wireGuardSetOsk (locked deviceSet : Bool) : BrokerResult :=
  if locked then if deviceSet then .ok else .err else .panicked

/-! ### The worker -/

inductive DeadmanRequest where
  | setOsk (key : Key) (reason : SetOskReason)
  deriving DecidableEq

/-- The worker's constants: `eraseAfter`, and the last instant the clock can represent. -/
structure Timing where
  eraseAfter : ℕ
  lastInstant : ℕ
  deriving DecidableEq

/-- Where the worker is. -/
inductive WorkerPc where
  /-- Before the erase at the start. -/
  | start
  /-- Before the computation of the deadline. -/
  | arm
  /-- Waiting for a request until the deadline. -/
  | recv (nextErase : ℕ)
  /-- Before `set_osk` of a request. -/
  | set (key : Key) (reason : SetOskReason)
  /-- Before the erase after a timeout. -/
  | expire
  /-- Before the erase after the channel was closed. -/
  | close
  /-- The event loop has returned `Ok`. -/
  | returned
  /-- The event loop has returned an error. -/
  | failed
  | panicked
  deriving DecidableEq

/-- The thread has ended. -/
def WorkerPc.stopped : WorkerPc → Bool
  | .returned | .failed | .panicked => true
  | _ => false

/-- The call of the broker made here; `random` is the key an erase draws. -/
def WorkerPc.brokerCall (random : Key) : WorkerPc → Option SetOsk
  | .start | .expire | .close => some (eraseStaleOsk random)
  | .set key reason => some ⟨key, reason⟩
  | _ => none

/-- Where the worker is after the call: `?` ends the event loop on an error. -/
def WorkerPc.afterCall (pc : WorkerPc) : BrokerResult → WorkerPc
  | .ok => if pc = .close then .returned else .arm
  | .err => .failed
  | .panicked => .panicked

structure DeadmanWorker where
  pc : WorkerPc
  /-- The calls made to the broker. -/
  calls : List SetOsk
  deriving DecidableEq

def DeadmanWorker.new : DeadmanWorker := ⟨.start, []⟩

/-- What the operation of the worker returns. -/
inductive WorkerAct where
  /-- `Instant::now()` for the deadline. -/
  | arm (now : ℕ)
  | received (req : DeadmanRequest)
  /-- All senders are gone and the queue is empty. -/
  | closed
  /-- The deadline has passed. -/
  | elapsed (now : ℕ)
  /-- The broker is called. -/
  | broker (random : Key) (res : BrokerResult)
  deriving DecidableEq

/-- The clock the operation of the worker reads shows `now`. -/
def WorkerAct.reads (now : ℕ) : WorkerAct → Bool
  | .arm n | .elapsed n => n = now
  | _ => true

/-- One step of the worker's event loop. -/
def DeadmanWorker.step (t : Timing) (w : DeadmanWorker) (a : WorkerAct) : Option DeadmanWorker :=
  match w.pc, a with
  | .arm, .arm now =>
    -- an instant beyond the range of the clock is a panic
    if now + t.eraseAfter ≤ t.lastInstant then some { w with pc := .recv (now + t.eraseAfter) }
    else some { w with pc := .panicked }
  | .recv _, .received (.setOsk key reason) => some { w with pc := .set key reason }
  | .recv _, .closed => some { w with pc := .close }
  | .recv nextErase, .elapsed now =>
    if nextErase ≤ now then some { w with pc := .expire } else none
  | pc, .broker random res =>
    (pc.brokerCall random).map fun call => ⟨pc.afterCall res, w.calls ++ [call]⟩
  | _, _ => none

/-! ### The queue -/

/-- The queue of requests with the worker at its end. -/
structure OskDeadman where
  queue : List DeadmanRequest
  worker : DeadmanWorker
  deriving DecidableEq

def OskDeadman.start : OskDeadman := ⟨[], DeadmanWorker.new⟩

/-- The capacity of the queue. -/
def requestCapacity : ℕ := 8

/-- `set_osk` puts a request into the queue. It waits while the queue is full, and it fails once the
worker has ended and the receiver is gone; both are `none` here. -/
def OskDeadman.setOsk (d : OskDeadman) (call : SetOsk) : Option OskDeadman :=
  if d.worker.pc.stopped = false ∧ d.queue.length < requestCapacity then
    some { d with queue := d.queue ++ [.setOsk call.key call.reason] }
  else none

/-- A step of the worker; `closed` says that all senders are gone. -/
def OskDeadman.workerStep (t : Timing) (closed : Bool) (d : OskDeadman) (a : WorkerAct) :
    Option OskDeadman :=
  match a, d.queue with
  | .received req, r :: rest => if r = req then (d.worker.step t a).map (⟨rest, ·⟩) else none
  | .received _, [] => none
  | .closed, [] => if closed then (d.worker.step t a).map (⟨[], ·⟩) else none
  | .closed, _ :: _ => none
  | _, queue => (d.worker.step t a).map (⟨queue, ·⟩)

/-- A step of the worker takes the first request off the queue, or leaves the queue as it is. -/
theorem workerStep_cases {t : Timing} {closed : Bool} {d d' : OskDeadman} {a : WorkerAct}
    (h : d.workerStep t closed a = some d') :
    d.worker.step t a = some d'.worker ∧
      ((∃ req, a = .received req ∧ d.queue = req :: d'.queue) ∨
        ((∀ req, a ≠ .received req) ∧ d'.queue = d.queue)) := by
  unfold OskDeadman.workerStep at h
  split at h
  · next req r rest hq =>
    split_ifs at h with hr
    obtain ⟨w, hw, rfl⟩ := Option.map_eq_some_iff.mp h
    exact ⟨hw, Or.inl ⟨req, rfl, by rw [hq, hr]⟩⟩
  · cases h
  · next hq =>
    split_ifs at h
    obtain ⟨w, hw, rfl⟩ := Option.map_eq_some_iff.mp h
    exact ⟨hw, Or.inr ⟨fun req he => (by cases he), hq.symm⟩⟩
  · cases h
  · next queue hcons hnil _ _ =>
    obtain ⟨w, hw, rfl⟩ := Option.map_eq_some_iff.mp h
    refine ⟨hw, Or.inr ⟨fun req he => ?_, rfl⟩⟩
    cases hq : d.queue with
    | nil => exact hnil req he hq
    | cons r rest => exact hcons req r rest he hq

/-! ### Stopping -/

/-- The last call erased the key. -/
def LastErase (calls : List SetOsk) : Prop := ∃ front c, calls = front ++ [c] ∧ c.reason = .stale

/-- A stopped worker has erased the key in its last call. -/
def DeadmanWorker.StopsErased (w : DeadmanWorker) : Prop :=
  w.pc.stopped = true → LastErase w.calls

/-- The step is not one of the two that end the thread with a fresh key set: a call for a fresh key
fails, or a deadline after such a call is beyond the range of the clock. -/
def KeepsErase (t : Timing) (w : DeadmanWorker) : WorkerAct → Prop
  | .broker _ res => ∀ key, w.pc = .set key .fresh → res = .ok
  | .arm now => w.pc = .arm → LastErase w.calls ∨ now + t.eraseAfter ≤ t.lastInstant
  | _ => True

theorem lastErase_concat {calls : List SetOsk} {c : SetOsk} :
    LastErase (calls ++ [c]) ↔ c.reason = .stale := by
  constructor
  · rintro ⟨front, d, he, hd⟩
    have hcd : [c] = [d] := (List.append_inj' he rfl).2
    rw [(List.cons.inj hcd).1]
    exact hd
  · intro hc
    exact ⟨calls, c, rfl, hc⟩

/-- What a step of the worker can do. -/
theorem step_cases {t : Timing} {w w' : DeadmanWorker} {a : WorkerAct} (h : w.step t a = some w') :
    (∃ now, a = .arm now ∧ w.pc = .arm ∧ now + t.eraseAfter ≤ t.lastInstant ∧
      w' = { w with pc := .recv (now + t.eraseAfter) }) ∨
    (∃ now, a = .arm now ∧ w.pc = .arm ∧ ¬ now + t.eraseAfter ≤ t.lastInstant ∧
      w' = { w with pc := .panicked }) ∨
    (∃ n key reason, a = .received (.setOsk key reason) ∧ w.pc = .recv n ∧
      w' = { w with pc := .set key reason }) ∨
    (∃ n, a = .closed ∧ w.pc = .recv n ∧ w' = { w with pc := .close }) ∨
    (∃ n now, a = .elapsed now ∧ w.pc = .recv n ∧ n ≤ now ∧ w' = { w with pc := .expire }) ∨
    ∃ random res call, a = .broker random res ∧ w.pc.brokerCall random = some call ∧
      w' = ⟨w.pc.afterCall res, w.calls ++ [call]⟩ := by
  unfold DeadmanWorker.step at h
  split at h
  · next now hpc =>
    split_ifs at h with hle <;> cases h
    · exact Or.inl ⟨now, rfl, hpc, hle, rfl⟩
    · exact Or.inr (Or.inl ⟨now, rfl, hpc, hle, rfl⟩)
  · next n key reason hpc =>
    cases h
    exact Or.inr (Or.inr (Or.inl ⟨n, key, reason, rfl, hpc, rfl⟩))
  · next n hpc =>
    cases h
    exact Or.inr (Or.inr (Or.inr (Or.inl ⟨n, rfl, hpc, rfl⟩)))
  · next n now hpc =>
    split_ifs at h with hle
    cases h
    exact Or.inr (Or.inr (Or.inr (Or.inr (Or.inl ⟨n, now, rfl, hpc, hle, rfl⟩))))
  · next random res =>
    obtain ⟨call, hcall, rfl⟩ := Option.map_eq_some_iff.mp h
    exact Or.inr (Or.inr (Or.inr (Or.inr (Or.inr ⟨random, res, call, rfl, hcall, rfl⟩))))
  · cases h

/-- A request is taken while the worker waits for one. -/
theorem step_received {t : Timing} {w w' : DeadmanWorker} {key : Key} {reason : SetOskReason}
    (h : w.step t (.received (.setOsk key reason)) = some w') :
    ∃ n, w.pc = .recv n ∧ w' = { w with pc := .set key reason } := by
  rcases step_cases h with ⟨_, he, -⟩ | ⟨_, he, -⟩ | ⟨n, key', reason', he, hpc, hw⟩ | ⟨_, he, -⟩ |
    ⟨_, _, he, -⟩ | ⟨_, _, _, he, -⟩
  case inr.inr.inl =>
    obtain ⟨rfl, rfl⟩ := DeadmanRequest.setOsk.inj (WorkerAct.received.inj he)
    exact ⟨n, hpc, hw⟩
  all_goals cases he

theorem step_of_stopped {t : Timing} {w : DeadmanWorker} {a : WorkerAct}
    (hw : w.pc.stopped = true) : w.step t a = none := by
  by_contra hne
  obtain ⟨w', h⟩ := Option.ne_none_iff_exists'.mp hne
  rcases step_cases h with ⟨_, -, hpc, -⟩ | ⟨_, -, hpc, -⟩ | ⟨_, _, _, -, hpc, -⟩ | ⟨_, -, hpc, -⟩ |
    ⟨_, _, -, hpc, -⟩ | ⟨random, _, _, -, hcall, -⟩
  case inr.inr.inr.inr.inr =>
    revert hw hcall
    cases w.pc <;> simp [WorkerPc.stopped, WorkerPc.brokerCall]
  all_goals rw [hpc] at hw; cases hw

theorem brokerCall_key {pc : WorkerPc} {random : Key} {call : SetOsk}
    (h : pc.brokerCall random = some call) : pc.brokerCall call.key = some call := by
  cases pc with
  | start | expire | close =>
    obtain rfl := Option.some.inj h
    rfl
  | set key reason => exact h
  | arm | recv | returned | failed | panicked => cases h

/-- Before a call the worker has no other step. -/
theorem step_of_brokerCall {t : Timing} {w w' : DeadmanWorker} {a : WorkerAct} {random : Key}
    {call : SetOsk} (hb : w.pc.brokerCall random = some call) (h : w.step t a = some w') :
    ∃ random' res, a = .broker random' res := by
  rcases step_cases h with ⟨_, -, hpc, -⟩ | ⟨_, -, hpc, -⟩ | ⟨_, _, _, -, hpc, -⟩ | ⟨_, -, hpc, -⟩ |
    ⟨_, _, -, hpc, -⟩ | ⟨random', res, _, ha, -⟩
  case inr.inr.inr.inr.inr => exact ⟨random', res, ha⟩
  all_goals rw [hpc] at hb; cases hb

theorem broker_step_eq {t : Timing} {w w' : DeadmanWorker} {random : Key} {res : BrokerResult}
    {call : SetOsk} (hb : w.pc.brokerCall random = some call)
    (h : w.step t (.broker random res) = some w') :
    w' = ⟨w.pc.afterCall res, w.calls ++ [call]⟩ := by
  rcases step_cases h with ⟨_, he, -⟩ | ⟨_, he, -⟩ | ⟨_, _, _, he, -⟩ | ⟨_, he, -⟩ | ⟨_, _, he, -⟩ |
    ⟨random', res', call', he, hcall, hw⟩
  case inr.inr.inr.inr.inr =>
    obtain ⟨rfl, rfl⟩ := WorkerAct.broker.inj he
    obtain rfl := Option.some.inj (hb.symm.trans hcall)
    exact hw
  all_goals cases he

/-- A step of the worker between two calls. -/
theorem step_between {t : Timing} {w w' : DeadmanWorker} {a : WorkerAct}
    (h : w.step t a = some w') (ha : ∀ random res, a ≠ .broker random res) :
    w'.calls = w.calls ∧ w'.pc ≠ .failed := by
  rcases step_cases h with ⟨_, -, -, -, rfl⟩ | ⟨_, -, -, -, rfl⟩ | ⟨_, _, _, -, -, rfl⟩ |
    ⟨_, -, -, rfl⟩ | ⟨_, _, -, -, -, rfl⟩ | ⟨random, res, _, he, -⟩
  case inr.inr.inr.inr.inr => exact absurd he (ha random res)
  all_goals exact ⟨rfl, by simp⟩

/-- A call of the broker ends the thread erased exactly if it is no failing call for a fresh key. -/
theorem afterCall_erased_iff {pc : WorkerPc} {random : Key} {call : SetOsk} (res : BrokerResult)
    (hcall : pc.brokerCall random = some call) :
    (∀ key, pc = .set key .fresh → res = .ok) ↔
      ((pc.afterCall res).stopped = true → call.reason = .stale) := by
  cases pc with
  | set key reason =>
    obtain rfl : ⟨key, reason⟩ = call := Option.some.inj hcall
    cases reason with
    | fresh => cases res <;> simp [WorkerPc.afterCall, WorkerPc.stopped]
    | stale => simp
  | start | expire | close =>
    obtain rfl : eraseStaleOsk random = call := Option.some.inj hcall
    simp [eraseStaleOsk]
  | arm | recv | returned | failed | panicked => cases hcall

/-- **A step ends the thread erased exactly if it keeps the erase.** -/
theorem keepsErase_iff {t : Timing} {w w' : DeadmanWorker} {a : WorkerAct}
    (h : w.step t a = some w') : KeepsErase t w a ↔ w'.StopsErased := by
  unfold DeadmanWorker.StopsErased
  rcases step_cases h with ⟨now, rfl, hpc, hle, rfl⟩ | ⟨now, rfl, hpc, hle, rfl⟩ |
    ⟨n, key, reason, rfl, hpc, rfl⟩ | ⟨n, rfl, hpc, rfl⟩ | ⟨n, now, rfl, hpc, hle, rfl⟩ |
    ⟨random, res, call, rfl, hcall, rfl⟩
  · simp [KeepsErase, WorkerPc.stopped, hle]
  · simp [KeepsErase, WorkerPc.stopped, hpc, hle]
  · simp [KeepsErase, WorkerPc.stopped]
  · simp [KeepsErase, WorkerPc.stopped]
  · simp [KeepsErase, WorkerPc.stopped]
  · rw [lastErase_concat]
    exact afterCall_erased_iff res hcall

/-- **When the worker stops erased.** In every run of the worker, a stop finds the key erased in the
last call exactly if no call for a fresh key failed and no deadline after such a call was out of
range. -/
theorem stops_erased_iff {t : Timing} {acts : List WorkerAct} {w : DeadmanWorker}
    (h : run (DeadmanWorker.step t) DeadmanWorker.new acts = some w) :
    w.StopsErased ↔ Along (DeadmanWorker.step t) (KeepsErase t) DeadmanWorker.new acts := by
  have hfinal : ∀ {w : DeadmanWorker} {a : WorkerAct}, ¬ w.StopsErased → w.step t a = none := by
    intro w a hw
    by_cases hs : w.pc.stopped = true
    · exact step_of_stopped hs
    · exact absurd (fun hs' => absurd hs' hs) hw
  have hnew : DeadmanWorker.new.StopsErased := fun hs => absurd hs (by decide)
  exact (along_iff_final keepsErase_iff hfinal hnew h).symm

/-! ### A sample failure -/

/-- The worker sets a fresh key, and the device of the broker reports an error for the next one. -/
def sampleFailure : List WorkerAct :=
  [.broker (zeroed 32) .ok, .arm 0,
    .received (.setOsk (Vector.replicate 32 1) .fresh),
    .broker (zeroed 32) (wireGuardSetOsk true true), .arm 120,
    .received (.setOsk (Vector.replicate 32 2) .fresh),
    .broker (zeroed 32) (wireGuardSetOsk true false)]

/-- The worker stops, and its last erase is the one at its start. -/
theorem stops_with_fresh_key :
    ∃ w, run (DeadmanWorker.step ⟨150, 2 ^ 63 - 1⟩) DeadmanWorker.new sampleFailure = some w ∧
      w.pc = .failed ∧ ¬ LastErase w.calls ∧
      w.calls = [eraseStaleOsk (zeroed 32), setFreshOsk (Vector.replicate 32 1),
        setFreshOsk (Vector.replicate 32 2)] := by
  refine ⟨⟨.failed, [eraseStaleOsk (zeroed 32), setFreshOsk (Vector.replicate 32 1),
    setFreshOsk (Vector.replicate 32 2)]⟩, by decide +kernel, rfl, ?_, rfl⟩
  intro hlast
  exact absurd (lastErase_concat.mp (show LastErase ([_, _] ++ [_]) from hlast)) (by decide)

/-- The worker sets a fresh key, and then all senders are gone. -/
def sampleShutdown : List WorkerAct :=
  sampleFailure.take 5 ++ [.closed, .broker (zeroed 32) .ok]

theorem stops_erased_iff_sample :
    ∃ w, run (DeadmanWorker.step ⟨150, 2 ^ 63 - 1⟩) DeadmanWorker.new sampleShutdown = some w ∧
      w.pc = .returned ∧ setFreshOsk (Vector.replicate 32 1) ∈ w.calls ∧ LastErase w.calls := by
  have h : run (DeadmanWorker.step ⟨150, 2 ^ 63 - 1⟩) DeadmanWorker.new sampleShutdown =
      some ⟨.returned, [eraseStaleOsk (zeroed 32), setFreshOsk (Vector.replicate 32 1),
        eraseStaleOsk (zeroed 32)]⟩ := by
    decide +kernel
  have hkeeps : ∀ a ∈ sampleShutdown, ∀ w, KeepsErase ⟨150, 2 ^ 63 - 1⟩ w a := by
    simp [sampleShutdown, sampleFailure, KeepsErase, wireGuardSetOsk]
  have halong : Along (DeadmanWorker.step ⟨150, 2 ^ 63 - 1⟩) (KeepsErase ⟨150, 2 ^ 63 - 1⟩)
      DeadmanWorker.new sampleShutdown :=
    along_of_invariant (I := fun _ => True) (fun _ _ => trivial) (fun _ hP => hP _) trivial hkeeps
  exact ⟨_, h, rfl, by simp, (stops_erased_iff h).mpr halong rfl⟩

end Daisyway.Osk.Deadman
