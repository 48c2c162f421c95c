import Daisyway.Osk.Deadman

/-! # Shutdown

The main thread sends keys while its event loop runs; when the loop has returned, `Daisyway` is
dropped and with it every sender, `main` returns and the process stops with all its threads. The
worker thread is joined nowhere. Its broker never fails here.

A process that stops after the worker has handled the closing of the queue leaves no fresh key
behind; in general what counts is the last message the worker has finished handling
(`erased_at_exit_iff`). -/

namespace Daisyway.Osk.Shutdown

open Daisyway.Prim Daisyway.Lib.Run Daisyway.Osk.Deadman

/-! ### The model -/

inductive MainPc where
  /-- In the event loop. -/
  | running
  /-- The event loop has returned. -/
  | returned
  /-- All senders are dropped. -/
  | dropped
  /-- `main` has returned and the process has stopped. -/
  | exited
  deriving DecidableEq

structure Process where
  main : MainPc
  deadman : OskDeadman
  deriving DecidableEq

def Process.new : Process := ⟨.running, OskDeadman.start⟩

inductive Act where
  /-- The event loop calls `set_fresh_osk`. -/
  | send (key : Key)
  | loopReturns
  | dropSenders
  | exit
  | worker (a : WorkerAct)
  deriving DecidableEq

/-- The broker never fails. -/
def brokerOk : WorkerAct → Bool
  | .broker _ res => res = .ok
  | _ => true

/-- One step of the process. -/
def Process.step (t : Timing) (s : Process) : Act → Option Process
  | .send key =>
    if s.main = .running then
      (s.deadman.setOsk (setFreshOsk key)).map fun deadman => { s with deadman }
    else none
  | .loopReturns => if s.main = .running then some { s with main := .returned } else none
  | .dropSenders => if s.main = .returned then some { s with main := .dropped } else none
  | .exit => if s.main = .dropped then some { s with main := .exited } else none
  | .worker a =>
    if s.main ≠ .exited ∧ brokerOk a = true then
      (s.deadman.workerStep t (s.main = .dropped) a).map fun deadman => { s with deadman }
    else none

/-! ### What the worker has handled -/

/-- The reason of the broker call a message leads to: a request has its own, a timeout and the
closing of the queue lead to an erase. -/
def messageReason : WorkerAct → Option SetOskReason
  | .received (.setOsk _ reason) => some reason
  | .closed | .elapsed _ => some .stale
  | .arm _ | .broker _ _ => none

/-- How far a schedule has brought the worker: the last message given to it, and the last one it has
finished handling. At the start it erases. -/
structure Progress where
  given : SetOskReason
  handled : SetOskReason

def Progress.next (p : Progress) : Act → Progress
  | .worker (.broker _ _) => { p with handled := p.given }
  | .worker a => { p with given := (messageReason a).getD p.given }
  | _ => p

def progress (acts : List Act) : Progress := acts.foldl Progress.next ⟨.stale, .stale⟩

/-- Every fresh key is erased later. -/
def ErasedAfterFresh (calls : List SetOsk) : Prop :=
  ∀ front c rest, calls = front ++ c :: rest → c.reason = .fresh → ∃ e ∈ rest, e.reason = .stale

theorem erasedAfterFresh_concat {calls : List SetOsk} {c : SetOsk} :
    ErasedAfterFresh (calls ++ [c]) ↔ c.reason = .stale := by
  constructor
  · intro h
    by_contra hc
    have hfresh : c.reason = .fresh := by cases hr : c.reason <;> simp_all
    obtain ⟨e, he, -⟩ := h calls c [] rfl hfresh
    exact absurd he List.not_mem_nil
  · intro hc front d rest he hd
    -- the last call is an erase, and it comes after `d`
    rcases List.eq_nil_or_concat rest with rfl | ⟨rest', e, rfl⟩
    · obtain ⟨-, h1⟩ := List.append_inj' he rfl
      rw [← (List.cons.inj h1).1, hc] at hd
      cases hd
    · have hlast : calls ++ [c] = (front ++ d :: rest') ++ [e] := by simpa using he
      obtain ⟨-, h1⟩ := List.append_inj' hlast rfl
      refine ⟨e, by simp, ?_⟩
      rw [← (List.cons.inj h1).1, hc]

/-- The calls of the worker follow the schedule. -/
structure Follows (w : DeadmanWorker) (p : Progress) : Prop where
  given : ∀ random call, w.pc.brokerCall random = some call → call.reason = p.given
  handled : ErasedAfterFresh w.calls ↔ p.handled = .stale
  returned : w.pc = .returned → p.handled = .stale

theorem follows_new : Follows DeadmanWorker.new ⟨.stale, .stale⟩ := by
  refine ⟨?_, ?_, ?_⟩
  · intro random call hcall
    obtain rfl : eraseStaleOsk random = call := Option.some.inj hcall
    rfl
  · refine ⟨fun _ => rfl, fun _ front c rest he => ?_⟩
    simp [DeadmanWorker.new] at he
  · intro h
    cases h

/-- A step of the worker follows the schedule. -/
theorem follows_worker {t : Timing} {w w' : DeadmanWorker} {p : Progress} {a : WorkerAct}
    (h : Follows w p) (hok : brokerOk a = true) (hs : w.step t a = some w') :
    Follows w' (p.next (.worker a)) := by
  rcases step_cases hs with ⟨now, rfl, -, -, rfl⟩ | ⟨now, rfl, -, -, rfl⟩ |
    ⟨n, key, reason, rfl, -, rfl⟩ | ⟨n, rfl, -, rfl⟩ | ⟨n, now, rfl, -, -, rfl⟩ |
    ⟨random, res, call, rfl, hcall, rfl⟩
  · exact ⟨fun _ _ hc => (nomatch hc), h.handled, fun hr => nomatch hr⟩
  · exact ⟨fun _ _ hc => (nomatch hc), h.handled, fun hr => nomatch hr⟩
  · exact ⟨fun _ _ hc => (by cases hc; rfl), h.handled, fun hr => nomatch hr⟩
  · exact ⟨fun _ _ hc => (by cases hc; rfl), h.handled, fun hr => nomatch hr⟩
  · exact ⟨fun _ _ hc => (by cases hc; rfl), h.handled, fun hr => nomatch hr⟩
  · obtain rfl : res = .ok := by simpa [brokerOk] using hok
    have hreason : call.reason = p.given := h.given random call hcall
    refine ⟨?_, ?_, ?_⟩
    · intro random' call' hc
      by_cases hclose : w.pc = .close
      · simp [WorkerPc.afterCall, hclose, WorkerPc.brokerCall] at hc
      · simp [WorkerPc.afterCall, hclose, WorkerPc.brokerCall] at hc
    · rw [erasedAfterFresh_concat, hreason]
      rfl
    · intro hr
      -- only the erase at the closing of the queue returns
      have hclose : w.pc = .close := by
        by_contra hne
        simp [WorkerPc.afterCall, hne] at hr
      rw [hclose] at hcall
      obtain rfl : eraseStaleOsk random = call := Option.some.inj hcall
      exact hreason.symm

theorem step_follows {t : Timing} {acts : List Act} {s s' : Process} {a : Act}
    (h : Follows s.deadman.worker (progress acts)) (hs : s.step t a = some s') :
    Follows s'.deadman.worker (progress (acts ++ [a])) := by
  have hnext : progress (acts ++ [a]) = (progress acts).next a := by
    simp [progress, List.foldl_append]
  rw [hnext]
  cases a with
  | send key =>
    simp only [Process.step] at hs
    split_ifs at hs
    obtain ⟨deadman, hd, rfl⟩ := Option.map_eq_some_iff.mp hs
    unfold OskDeadman.setOsk at hd
    split_ifs at hd
    cases hd
    exact h
  | loopReturns | dropSenders | exit =>
    simp only [Process.step] at hs
    split_ifs at hs
    cases hs
    exact h
  | worker a =>
    simp only [Process.step] at hs
    split_ifs at hs with hg
    obtain ⟨deadman, hd, rfl⟩ := Option.map_eq_some_iff.mp hs
    exact follows_worker h hg.2 (workerStep_cases hd).1

/-- **Erase on shutdown.** When `main` returns, every fresh key the worker installed has been erased
exactly if the last message the worker finished handling was no fresh key; this is so whenever the
worker has returned before. -/
theorem erased_at_exit_iff {t : Timing} {acts : List Act} {s : Process}
    (h : run (Process.step t) Process.new (acts ++ [.exit]) = some s) :
    (ErasedAfterFresh s.deadman.worker.calls ↔ (progress acts).handled = .stale) ∧
      (s.deadman.worker.pc = .returned → (progress acts).handled = .stale) := by
  have hinv : Follows s.deadman.worker (progress (acts ++ [.exit])) :=
    run_invariant_history (I := fun acts s => Follows s.deadman.worker (progress acts)) follows_new
      step_follows h
  have hnext : progress (acts ++ [.exit]) = progress acts := by
    simp [progress, List.foldl_append, Progress.next]
  rw [hnext] at hinv
  exact ⟨hinv.handled, hinv.returned⟩

/-! ### A sample shutdown -/

/-- The worker installs a key and the main thread returns at once. -/
def sampleExit : List Act :=
  [.worker (.broker (zeroed 32) .ok), .worker (.arm 0), .send (Vector.replicate 32 1),
    .worker (.received (.setOsk (Vector.replicate 32 1) .fresh)), .worker (.broker (zeroed 32) .ok),
    .loopReturns, .dropSenders]

/-- The process stops with the fresh key in place. -/
theorem exits_with_fresh_key :
    ∃ s, run (Process.step ⟨150, 2 ^ 63 - 1⟩) Process.new (sampleExit ++ [.exit]) = some s ∧
      s.main = .exited ∧ ¬ ErasedAfterFresh s.deadman.worker.calls := by
  have h : ((run (Process.step ⟨150, 2 ^ 63 - 1⟩) Process.new (sampleExit ++ [.exit])).map fun s =>
      (s.main, s.deadman.worker.calls)) =
        some (.exited, [eraseStaleOsk (zeroed 32)] ++ [setFreshOsk (Vector.replicate 32 1)]) := by
    decide +kernel
  obtain ⟨s, hs, hc⟩ := Option.map_eq_some_iff.mp h
  obtain ⟨hmain, hcalls⟩ := Prod.mk.inj hc
  refine ⟨s, hs, hmain, ?_⟩
  rw [hcalls, erasedAfterFresh_concat]
  decide

/-- In the sample the worker has handled the fresh key last. -/
theorem erased_at_exit_iff_sample :
    (progress sampleExit).handled = .fresh ∧
      ∃ s, run (Process.step ⟨150, 2 ^ 63 - 1⟩) Process.new (sampleExit ++ [.exit]) = some s ∧
        ¬ ErasedAfterFresh s.deadman.worker.calls := by
  have hsome : (run (Process.step ⟨150, 2 ^ 63 - 1⟩) Process.new (sampleExit ++ [.exit])).isSome =
      true := by
    decide +kernel
  obtain ⟨s, hs⟩ := Option.isSome_iff_exists.mp hsome
  refine ⟨rfl, s, hs, fun he => ?_⟩
  exact absurd ((erased_at_exit_iff hs).1.mp he) (by decide)

end Daisyway.Osk.Shutdown
