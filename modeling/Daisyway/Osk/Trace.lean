import Daisyway.Lib.Machine
import Daisyway.Osk.Deadman
import Mathlib.Data.List.Chain
import Mathlib.Tactic.Ring

/-! # The trace of the deadman

The worker alone with a clock: its requests arrive at given instants, its channel is closed at a
given instant, and its broker succeeds at once. Then every step of the worker is determined
(`Timed.act`): it waits until the next request, the closing of the channel or its deadline, whatever
comes first, and a request that arrives at the deadline is received, since `timeout_at` polls the
channel before the timer.

`plan` says which calls the broker should get and when. The worker makes exactly these calls and
returns, if the last deadline it computes is within the range of the clock; otherwise it panics
(`deadman_trace_iff`). -/

namespace Daisyway.Osk.Trace

open Daisyway.Prim Daisyway.Lib.Machine Daisyway.Osk.Deadman

/-! ### The worker with a clock -/

/-- A request and the instant at which it arrives. -/
abbrev Arrival := ℕ × DeadmanRequest

structure Timed where
  now : ℕ
  worker : DeadmanWorker
  /-- The requests the worker has not received. -/
  pending : List Arrival
  /-- The calls of the broker and their instants. -/
  trace : List (ℕ × SetOsk)
  deriving DecidableEq

section
variable (t : Timing) (random : ℕ → Key) (close : ℕ)

/-- The instant of the next request, or of the closing of the channel. -/
def nextArrival : List Arrival → ℕ
  | [] => close
  | (r, _) :: _ => r

/-- What the worker receives next. -/
def received : List Arrival → WorkerAct
  | [] => .closed
  | (_, req) :: _ => .received req

/-- The next operation of the worker and the instant at which it returns. -/
def Timed.act (s : Timed) : Option (ℕ × WorkerAct) :=
  match s.worker.pc with
  | .arm => some (s.now, .arm s.now)
  | .recv nextErase =>
    if nextArrival close s.pending ≤ nextErase then
      some (max s.now (nextArrival close s.pending), received s.pending)
    else some (nextErase, .elapsed nextErase)
  | .returned | .failed | .panicked => none
  | _ => some (s.now, .broker (random s.trace.length) .ok)

/-- The requests left after an operation. -/
def pendingAfter : WorkerAct → List Arrival → List Arrival
  | .received _, pending => pending.tail
  | _, pending => pending

/-- One step of the worker; `random n` is the key drawn for the call number `n`. -/
def Timed.step (s : Timed) : Option Timed :=
  (s.act random close).bind fun (now, a) =>
    (s.worker.step t a).map fun worker =>
      { now
        worker
        pending := pendingAfter a s.pending
        trace := s.trace ++ (worker.calls.drop s.worker.calls.length).map (now, ·) }

/-- The worker at its start. -/
def Timed.new (start : ℕ) (requests : List Arrival) : Timed :=
  ⟨start, DeadmanWorker.new, requests, []⟩

end

/-! ### The plan -/

/-- A planned call: a request, or an erase with a random key. -/
inductive Planned where
  | erase
  | request (req : DeadmanRequest)
  deriving DecidableEq

/-- The call that is made for a planned one, with `key` drawn for an erase. -/
def Planned.call (key : Key) : Planned → SetOsk
  | .erase => eraseStaleOsk key
  | .request (.setOsk k reason) => ⟨k, reason⟩

section
variable (eraseAfter : ℕ)

/-- The number of instants `s + eraseAfter`, `s + 2 * eraseAfter`, … strictly before `r`. -/
def eraseCount (s r : ℕ) : ℕ := (r - s - 1) / eraseAfter

/-- The first `n` erases of a waiting period that begins at `s`. -/
def erases (s n : ℕ) : List (ℕ × Planned) :=
  (List.range n).map fun i => (s + (i + 1) * eraseAfter, .erase)

/-- The calls after the instant `s`, at which a waiting period begins. -/
def planFrom (close : ℕ) : ℕ → List Arrival → List (ℕ × Planned)
  | s, [] => erases eraseAfter s (eraseCount eraseAfter s close) ++ [(close, .erase)]
  | s, (r, req) :: rest =>
    erases eraseAfter s (eraseCount eraseAfter s r) ++ (r, .request req) :: planFrom close r rest

/-- **The calls of the worker:** an erase at the start, every request when it arrives, an erase
whenever a waiting period has lasted for `eraseAfter`, again and again, and an erase at the end. -/
def plan (start close : ℕ) (requests : List Arrival) : List (ℕ × Planned) :=
  (start, .erase) :: planFrom eraseAfter close start requests

/-- The last deadline the worker computes: the first of the instants `s + eraseAfter`,
`s + 2 * eraseAfter`, … that is not before the closing, from the last request on. -/
def lastDeadline (close : ℕ) : ℕ → List Arrival → ℕ
  | s, [] => s + (eraseCount eraseAfter s close + 1) * eraseAfter
  | _, (r, _) :: rest => lastDeadline close r rest

end

/-- The calls made for a plan: those made before, and one for each planned call. -/
def carryOut (random : ℕ → Key) (made : List (ℕ × SetOsk)) (plan : List (ℕ × Planned)) :
    List (ℕ × SetOsk) :=
  plan.foldl (fun made p => made ++ [(p.1, p.2.call (random made.length))]) made

/-! ### Single steps -/

/-- A state whose worker is at `pc` and has made the calls of the trace. -/
def Timed.at (pc : WorkerPc) (now : ℕ) (pending : List Arrival) (trace : List (ℕ × SetOsk)) :
    Timed :=
  ⟨now, ⟨pc, trace.map Prod.snd⟩, pending, trace⟩

section
variable {t : Timing} {random : ℕ → Key} {close now : ℕ} {pending : List Arrival}
  {trace : List (ℕ × SetOsk)}

theorem step_broker {pc : WorkerPc} (p : Planned)
    (hact : (Timed.at pc now pending trace).act random close =
      some (now, .broker (random trace.length) .ok))
    (hcall : pc.brokerCall (random trace.length) = some (p.call (random trace.length))) :
    (Timed.at pc now pending trace).step t random close =
      some (Timed.at (pc.afterCall .ok) now pending (carryOut random trace [(now, p)])) := by
  have hstep : (Timed.at pc now pending trace).worker.step t (.broker (random trace.length) .ok) =
      some ⟨pc.afterCall .ok, trace.map Prod.snd ++ [p.call (random trace.length)]⟩ := by
    simp [Timed.at, DeadmanWorker.step, hcall]
  unfold Timed.step
  rw [hact]
  simp only [Option.bind_some, hstep, Option.map_some]
  simp [Timed.at, pendingAfter, carryOut]

theorem step_start : (Timed.at .start now pending trace).step t random close =
    some (Timed.at .arm now pending (carryOut random trace [(now, .erase)])) :=
  step_broker .erase rfl rfl

theorem step_expire : (Timed.at .expire now pending trace).step t random close =
    some (Timed.at .arm now pending (carryOut random trace [(now, .erase)])) :=
  step_broker .erase rfl rfl

theorem step_close : (Timed.at .close now pending trace).step t random close =
    some (Timed.at .returned now pending (carryOut random trace [(now, .erase)])) :=
  step_broker .erase rfl rfl

theorem step_set {key : Key} {reason : SetOskReason} :
    (Timed.at (.set key reason) now pending trace).step t random close =
      some (Timed.at .arm now pending
        (carryOut random trace [(now, .request (.setOsk key reason))])) :=
  step_broker (.request (.setOsk key reason)) rfl rfl

theorem step_arm (h : now + t.eraseAfter ≤ t.lastInstant) :
    (Timed.at .arm now pending trace).step t random close =
      some (Timed.at (.recv (now + t.eraseAfter)) now pending trace) := by
  simp [Timed.step, Timed.act, Timed.at, DeadmanWorker.step, h, pendingAfter]

theorem step_arm_panic (h : t.lastInstant < now + t.eraseAfter) :
    (Timed.at .arm now pending trace).step t random close =
      some (Timed.at .panicked now pending trace) := by
  have hle : ¬ now + t.eraseAfter ≤ t.lastInstant := by omega
  simp [Timed.step, Timed.act, Timed.at, DeadmanWorker.step, hle, pendingAfter]

theorem step_elapsed {deadline : ℕ} (h : deadline < nextArrival close pending) :
    (Timed.at (.recv deadline) now pending trace).step t random close =
      some (Timed.at .expire deadline pending trace) := by
  have hle : ¬ nextArrival close pending ≤ deadline := by omega
  simp [Timed.step, Timed.act, Timed.at, DeadmanWorker.step, hle, pendingAfter]

theorem step_received {deadline r : ℕ} {key : Key} {reason : SetOskReason} (hr : r ≤ deadline)
    (hnow : now ≤ r) :
    (Timed.at (.recv deadline) now ((r, .setOsk key reason) :: pending) trace).step t random close =
      some (Timed.at (.set key reason) r pending trace) := by
  simp [Timed.step, Timed.act, Timed.at, DeadmanWorker.step, nextArrival, hr, received,
    pendingAfter, hnow]

theorem step_closed {deadline : ℕ} (hr : close ≤ deadline) (hnow : now ≤ close) :
    (Timed.at (.recv deadline) now [] trace).step t random close =
      some (Timed.at .close close [] trace) := by
  simp [Timed.step, Timed.act, Timed.at, DeadmanWorker.step, nextArrival, hr, received,
    pendingAfter, hnow]

theorem step_of_ended {s : Timed} (h : s.worker.pc = .returned ∨ s.worker.pc = .panicked) :
    s.step t random close = none := by
  rcases h with h | h
  · simp [Timed.step, Timed.act, h]
  · simp [Timed.step, Timed.act, h]

end

/-! ### Waiting periods -/

theorem carryOut_append {random : ℕ → Key} (made : List (ℕ × SetOsk))
    (plan plan' : List (ℕ × Planned)) :
    carryOut random made (plan ++ plan') = carryOut random (carryOut random made plan) plan' :=
  List.foldl_append

theorem carryOut_cons {random : ℕ → Key} (made : List (ℕ × SetOsk)) (p : ℕ × Planned)
    (plan : List (ℕ × Planned)) :
    carryOut random made (p :: plan) = carryOut random (carryOut random made [p]) plan := rfl

section
variable {eraseAfter s r n : ℕ}

theorem shift_mul (s n eraseAfter : ℕ) :
    s + eraseAfter + n * eraseAfter = s + (n + 1) * eraseAfter := by ring

theorem erases_succ (s n : ℕ) :
    erases eraseAfter s (n + 1) =
      (s + eraseAfter, .erase) :: erases eraseAfter (s + eraseAfter) n := by
  simp only [erases, List.range_succ_eq_map, List.map_cons, List.map_map, Function.comp_def,
    Nat.succ_eq_add_one, shift_mul, Nat.zero_add, Nat.one_mul]

/-- The last erase of a period is not after its end, and the deadline after it is not before. -/
theorem eraseCount_bounds (hE : 0 < eraseAfter) (hsr : s ≤ r) :
    s + eraseCount eraseAfter s r * eraseAfter ≤ r ∧
      r ≤ s + (eraseCount eraseAfter s r + 1) * eraseAfter ∧
      s + (eraseCount eraseAfter s r + 1) * eraseAfter ≤ r + eraseAfter := by
  unfold eraseCount
  have h1 : (r - s - 1) / eraseAfter * eraseAfter ≤ r - s - 1 := Nat.div_mul_le_self _ _
  have h2 : r - s - 1 < ((r - s - 1) / eraseAfter + 1) * eraseAfter := by
    rw [Nat.add_mul, Nat.one_mul]
    exact Nat.lt_div_mul_add hE
  have h3 := shift_mul s ((r - s - 1) / eraseAfter) eraseAfter
  omega

/-- A period with an erase continues as the period that begins at it. -/
theorem eraseCount_succ (hE : 0 < eraseAfter) (h : eraseCount eraseAfter s r = n + 1) :
    s + eraseAfter < r ∧ eraseCount eraseAfter (s + eraseAfter) r = n := by
  unfold eraseCount at h ⊢
  have hle : eraseAfter ≤ r - s - 1 := by
    by_contra hlt
    rw [Nat.div_eq_of_lt (by omega)] at h
    omega
  have hdiv := Nat.div_eq_sub_div hE hle
  have hsub : r - (s + eraseAfter) - 1 = r - s - 1 - eraseAfter := by omega
  rw [hsub]
  omega

end

section
variable {t : Timing} {random : ℕ → Key} {close : ℕ} {pending : List Arrival}

/-- The worker arms its deadline, waits until it, and erases. -/
theorem erase_leads {s : ℕ} {trace : List (ℕ × SetOsk)} (hrange : s + t.eraseAfter ≤ t.lastInstant)
    (hlt : s + t.eraseAfter < nextArrival close pending) :
    Leads (Timed.step t random close) (Timed.at .arm s pending trace)
      (Timed.at .arm (s + t.eraseAfter) pending
        (carryOut random trace [(s + t.eraseAfter, .erase)])) :=
  (Leads.single (step_arm hrange)).trans
    ((Leads.single (step_elapsed hlt)).trans (Leads.single step_expire))

/-- A waiting period whose deadlines are in range: the worker erases again and again until the
deadline after the next arrival. The induction is on the number of erases. -/
theorem wait_leads (hE : 0 < t.eraseAfter) : ∀ (n s : ℕ) (trace : List (ℕ × SetOsk)),
    eraseCount t.eraseAfter s (nextArrival close pending) = n →
    s + (n + 1) * t.eraseAfter ≤ t.lastInstant →
      Leads (Timed.step t random close) (Timed.at .arm s pending trace)
        (Timed.at (.recv (s + (n + 1) * t.eraseAfter)) (s + n * t.eraseAfter) pending
          (carryOut random trace (erases t.eraseAfter s n)))
  | 0, s, trace, _, hrange => by
    rw [Nat.zero_add, Nat.one_mul] at hrange
    rw [Nat.zero_add, Nat.one_mul, Nat.zero_mul, Nat.add_zero]
    exact Leads.single (step_arm hrange)
  | n + 1, s, trace, hn, hrange => by
    obtain ⟨hlt, hn'⟩ := eraseCount_succ hE hn
    have hshift := shift_mul s (n + 1) t.eraseAfter
    have hrest := wait_leads hE n (s + t.eraseAfter)
      (carryOut random trace [(s + t.eraseAfter, .erase)]) hn' (by omega)
    rw [hshift, shift_mul, ← carryOut_cons, ← erases_succ] at hrest
    exact (erase_leads (by omega) hlt).trans hrest

/-- A waiting period with a deadline out of range ends in a panic. -/
theorem wait_panics (hE : 0 < t.eraseAfter) : ∀ (n s : ℕ) (trace : List (ℕ × SetOsk)),
    eraseCount t.eraseAfter s (nextArrival close pending) = n →
    t.lastInstant < s + (n + 1) * t.eraseAfter →
      ∃ s', Leads (Timed.step t random close) (Timed.at .arm s pending trace) s' ∧
        s'.worker.pc = .panicked
  | 0, s, trace, _, hrange => ⟨_, Leads.single (step_arm_panic (by omega)), rfl⟩
  | n + 1, s, trace, hn, hrange => by
    obtain ⟨hlt, hn'⟩ := eraseCount_succ hE hn
    have hshift := shift_mul s (n + 1) t.eraseAfter
    by_cases hfirst : s + t.eraseAfter ≤ t.lastInstant
    · obtain ⟨s', hrest, hpc⟩ := wait_panics hE n (s + t.eraseAfter)
        (carryOut random trace [(s + t.eraseAfter, .erase)]) hn' (by omega)
      exact ⟨s', (erase_leads hfirst hlt).trans hrest, hpc⟩
    · exact ⟨_, Leads.single (step_arm_panic (by omega)), rfl⟩

/-! ### The whole run -/

/-- The instants of the requests and of the closing are in order, from `s` on. -/
def InOrder (close s : ℕ) (requests : List Arrival) : Prop :=
  List.IsChain (· ≤ ·) (s :: (requests.map Prod.fst ++ [close]))

theorem inOrder_nil {s : ℕ} : InOrder close s [] ↔ s ≤ close := by
  simp [InOrder]

theorem inOrder_cons {s r : ℕ} {req : DeadmanRequest} {rest : List Arrival} :
    InOrder close s ((r, req) :: rest) ↔ s ≤ r ∧ InOrder close r rest := by
  simp [InOrder]

theorem le_lastDeadline (eraseAfter : ℕ) : ∀ {requests : List Arrival} {s : ℕ},
    InOrder close s requests → s + eraseAfter ≤ lastDeadline eraseAfter close s requests
  | [], s, _ => by
    have h := shift_mul s (eraseCount eraseAfter s close) eraseAfter
    unfold lastDeadline
    omega
  | (r, req) :: rest, s, h => by
    obtain ⟨hsr, hrest⟩ := inOrder_cons.mp h
    have hlast := le_lastDeadline eraseAfter hrest
    unfold lastDeadline
    omega

/-- With its last deadline in range, the worker follows the plan and returns. -/
theorem plan_leads (hE : 0 < t.eraseAfter) : ∀ (requests : List Arrival) (s : ℕ)
    (trace : List (ℕ × SetOsk)), InOrder close s requests →
    lastDeadline t.eraseAfter close s requests ≤ t.lastInstant →
      Leads (Timed.step t random close) (Timed.at .arm s requests trace)
        (Timed.at .returned close []
          (carryOut random trace (planFrom t.eraseAfter close s requests)))
  | [], s, trace, hord, hrange => by
    obtain ⟨hnow, hdue, -⟩ := eraseCount_bounds hE (inOrder_nil.mp hord)
    have hwait : Leads (Timed.step t random close) (Timed.at .arm s [] trace) _ :=
      wait_leads hE _ s trace rfl hrange
    rw [planFrom, carryOut_append]
    exact hwait.trans ((Leads.single (step_closed hdue hnow)).trans (Leads.single step_close))
  | (r, .setOsk key reason) :: rest, s, trace, hord, hrange => by
    obtain ⟨hsr, hrest⟩ := inOrder_cons.mp hord
    obtain ⟨hnow, hdue, hlate⟩ := eraseCount_bounds hE hsr
    have hlast := le_lastDeadline t.eraseAfter hrest
    rw [lastDeadline] at hrange
    have hwait : Leads (Timed.step t random close)
        (Timed.at .arm s ((r, .setOsk key reason) :: rest) trace) _ :=
      wait_leads hE _ s trace rfl (hlate.trans (hlast.trans hrange))
    rw [planFrom, carryOut_append, carryOut_cons]
    exact hwait.trans ((Leads.single (step_received hdue hnow)).trans
      ((Leads.single step_set).trans (plan_leads hE rest r _ hrest hrange)))

/-- With its last deadline out of range, the worker panics. -/
theorem plan_panics (hE : 0 < t.eraseAfter) : ∀ (requests : List Arrival) (s : ℕ)
    (trace : List (ℕ × SetOsk)), InOrder close s requests →
    t.lastInstant < lastDeadline t.eraseAfter close s requests →
      ∃ s', Leads (Timed.step t random close) (Timed.at .arm s requests trace) s' ∧
        s'.worker.pc = .panicked
  | [], s, trace, _, hrange => wait_panics hE _ s trace rfl hrange
  | (r, .setOsk key reason) :: rest, s, trace, hord, hrange => by
    obtain ⟨hsr, hrest⟩ := inOrder_cons.mp hord
    obtain ⟨hnow, hdue, -⟩ := eraseCount_bounds hE hsr
    rw [lastDeadline] at hrange
    by_cases hin : s + (eraseCount t.eraseAfter s r + 1) * t.eraseAfter ≤ t.lastInstant
    · have hwait : Leads (Timed.step t random close)
          (Timed.at .arm s ((r, .setOsk key reason) :: rest) trace) _ :=
        wait_leads hE _ s trace rfl hin
      obtain ⟨s', hlead, hpc⟩ := plan_panics hE rest r _ hrest hrange
      exact ⟨s', hwait.trans ((Leads.single (step_received hdue hnow)).trans
        ((Leads.single step_set).trans hlead)), hpc⟩
    · exact wait_panics hE _ s trace rfl (not_le.mp hin)

end

/-! ### The life of a key -/

/-- Every fresh key is followed by another call within `eraseAfter`. -/
def NoKeyOutlives (eraseAfter : ℕ) (trace : List (ℕ × SetOsk)) : Prop :=
  ∀ front u c rest, trace = front ++ (u, c) :: rest → c.reason = .fresh →
    ∃ v c' rest', rest = (v, c') :: rest' ∧ v ≤ u + eraseAfter

section
variable {eraseAfter close : ℕ} {random : ℕ → Key}

theorem map_fst_carryOut (random : ℕ → Key) (plan : List (ℕ × Planned)) :
    ∀ made : List (ℕ × SetOsk),
      (carryOut random made plan).map Prod.fst = made.map Prod.fst ++ plan.map Prod.fst := by
  induction plan with
  | nil => intro made; simp [carryOut]
  | cons p plan ih =>
    intro made
    rw [carryOut_cons, ih]
    simp [carryOut]

/-- Consecutive instants of a list are at most `eraseAfter` apart. -/
abbrev Spaced (eraseAfter : ℕ) (instants : List ℕ) : Prop :=
  List.IsChain (fun u v => v ≤ u + eraseAfter) instants

theorem spaced_erases (tail : List ℕ) : ∀ n s : ℕ,
    Spaced eraseAfter ((s + n * eraseAfter) :: tail) →
      Spaced eraseAfter (s :: ((erases eraseAfter s n).map Prod.fst ++ tail))
  | 0, s, h => by simpa [erases] using h
  | n + 1, s, h => by
    rw [← shift_mul] at h
    rw [erases_succ, List.map_cons, List.cons_append]
    exact List.isChain_cons_cons.mpr ⟨le_rfl, spaced_erases tail n (s + eraseAfter) h⟩

theorem spaced_planFrom (hE : 0 < eraseAfter) : ∀ (requests : List Arrival) (s : ℕ),
    InOrder close s requests →
      Spaced eraseAfter (s :: (planFrom eraseAfter close s requests).map Prod.fst)
  | [], s, hord => by
    obtain ⟨-, hdue, -⟩ := eraseCount_bounds hE (inOrder_nil.mp hord)
    rw [planFrom, List.map_append]
    refine spaced_erases _ _ s (List.isChain_cons_cons.mpr ⟨?_, List.isChain_singleton _⟩)
    rw [Nat.add_mul, Nat.one_mul] at hdue
    omega
  | (r, req) :: rest, s, hord => by
    obtain ⟨hsr, hrest⟩ := inOrder_cons.mp hord
    obtain ⟨-, hdue, -⟩ := eraseCount_bounds hE hsr
    rw [planFrom, List.map_append, List.map_cons]
    refine spaced_erases _ _ s (List.isChain_cons_cons.mpr ⟨?_, spaced_planFrom hE rest r hrest⟩)
    rw [Nat.add_mul, Nat.one_mul] at hdue
    omega

theorem planFrom_last (eraseAfter close : ℕ) : ∀ (requests : List Arrival) (s : ℕ),
    ∃ front, planFrom eraseAfter close s requests = front ++ [(close, .erase)]
  | [], s => ⟨_, rfl⟩
  | (r, req) :: rest, s => by
    obtain ⟨front, hf⟩ := planFrom_last eraseAfter close rest r
    refine ⟨erases eraseAfter s (eraseCount eraseAfter s r) ++ (r, .request req) :: front, ?_⟩
    rw [planFrom, hf, List.append_assoc, List.cons_append]

/-- In the calls made for the plan no key outlives its time: the last call is an erase, and
consecutive calls are at most `eraseAfter` apart. -/
theorem noKeyOutlives_plan (hE : 0 < eraseAfter) {start : ℕ} {requests : List Arrival}
    (hord : InOrder close start requests) :
    NoKeyOutlives eraseAfter (carryOut random [] (plan eraseAfter start close requests)) := by
  intro front u c rest htrace hfresh
  rcases rest with _ | ⟨⟨v, c'⟩, rest'⟩
  · -- the fresh key would be the last call, but that is an erase
    obtain ⟨before, hlast⟩ := planFrom_last eraseAfter close requests start
    have hplan : plan eraseAfter start close requests =
        (start, .erase) :: before ++ [(close, .erase)] := by
      rw [plan, hlast, List.cons_append]
    rw [hplan, carryOut_append] at htrace
    obtain ⟨-, hcall⟩ := List.append_inj' htrace rfl
    obtain ⟨-, rfl⟩ := Prod.mk.inj (List.cons.inj hcall).1
    exact absurd hfresh (by simp [Planned.call, eraseStaleOsk])
  · have hspaced : Spaced eraseAfter ((plan eraseAfter start close requests).map Prod.fst) :=
      spaced_planFrom hE requests start hord
    have htimes := map_fst_carryOut random (plan eraseAfter start close requests) []
    rw [htrace, List.map_nil, List.nil_append] at htimes
    rw [← htimes, List.map_append, List.map_cons, List.map_cons] at hspaced
    exact ⟨v, c', rest', rfl, (List.isChain_append_cons_cons.mp hspaced).2.1⟩

end

/-! ### The trace -/

/-- The worker makes exactly the planned calls and returns, and no key outlives its time. -/
def MakesPlan (t : Timing) (random : ℕ → Key) (start close : ℕ) (requests : List Arrival) : Prop :=
  ∃ n, ∀ m, n ≤ m → ∃ s, steps (Timed.step t random close) m (Timed.new start requests) = s ∧
    s.worker.pc = .returned ∧
    s.trace = carryOut random [] (plan t.eraseAfter start close requests) ∧
    s.worker.calls = s.trace.map Prod.snd ∧
    NoKeyOutlives t.eraseAfter s.trace

section
variable {t : Timing} {random : ℕ → Key} {start close : ℕ} {requests : List Arrival}

theorem start_leads (t : Timing) (random : ℕ → Key) (start close : ℕ) (requests : List Arrival) :
    Leads (Timed.step t random close) (Timed.new start requests)
      (Timed.at .arm start requests (carryOut random [] [(start, .erase)])) :=
  Leads.single step_start

theorem makesPlan_of_range (hE : 0 < t.eraseAfter) (hord : InOrder close start requests)
    (hrange : lastDeadline t.eraseAfter close start requests ≤ t.lastInstant) :
    MakesPlan t random start close requests := by
  have hlead := (start_leads t random start close requests).trans
    (plan_leads hE requests start _ hord hrange)
  obtain ⟨n, hn⟩ := hlead.final (step_of_ended (Or.inl rfl))
  exact ⟨n, fun m hm => ⟨_, hn m hm, rfl, rfl, rfl, noKeyOutlives_plan hE hord⟩⟩

theorem not_makesPlan_of_range (hE : 0 < t.eraseAfter) (hord : InOrder close start requests)
    (hrange : t.lastInstant < lastDeadline t.eraseAfter close start requests) :
    ¬ MakesPlan t random start close requests := by
  rintro ⟨n, hn⟩
  obtain ⟨s, hlead, hpc⟩ := plan_panics hE requests start _ hord hrange
  have hrun := (start_leads t random start close requests).trans hlead
  obtain ⟨n', hn'⟩ := hrun.final (step_of_ended (Or.inr hpc))
  obtain ⟨s', hs', hret, -⟩ := hn (max n n') (le_max_left _ _)
  rw [hn' _ (le_max_right _ _)] at hs'
  rw [← hs', hpc] at hret
  cases hret

end

/-- **The trace of the deadman.** For all requests and every closing of the channel, in order, the
worker makes exactly the planned calls if and only if its last deadline is within the range of the
clock. -/
theorem deadman_trace_iff (t : Timing) (random : ℕ → Key) (start close : ℕ)
    (requests : List Arrival) (hE : 0 < t.eraseAfter) (hord : InOrder close start requests) :
    MakesPlan t random start close requests ↔
      lastDeadline t.eraseAfter close start requests ≤ t.lastInstant := by
  constructor
  · intro h
    by_contra hrange
    exact not_makesPlan_of_range hE hord (not_le.mp hrange) h
  · intro hrange
    exact makesPlan_of_range hE hord hrange

/-! ### Sample runs -/

/-- Two fresh keys, the second one 400 seconds after the first. -/
def sampleRequests : List Arrival :=
  [(100, .setOsk (Vector.replicate 32 1) .fresh), (500, .setOsk (Vector.replicate 32 2) .fresh)]

theorem sampleRequests_inOrder : InOrder 600 0 sampleRequests := by
  simp [InOrder, sampleRequests]

/-- With a configured interval of `2 ^ 63 - 1` the first deadline is out of range: the worker erases
once and panics. -/
theorem large_interval_no_trace :
    ¬ MakesPlan ⟨2 ^ 63 - 1 + 30, 2 ^ 63 - 1⟩ (fun _ => zeroed 32) 0 600 sampleRequests :=
  not_makesPlan_of_range (by decide) sampleRequests_inOrder (by decide)

/-- After 150 seconds without a request the key is erased, twice before the second request. -/
theorem deadman_trace_iff_sample :
    MakesPlan ⟨150, 2 ^ 63 - 1⟩ (fun _ => zeroed 32) 0 600 sampleRequests ∧
      (plan 150 0 600 sampleRequests).map Prod.fst = [0, 100, 250, 400, 500, 600] := by
  refine ⟨?_, by decide⟩
  exact (deadman_trace_iff _ _ _ _ _ (by decide) sampleRequests_inOrder).mpr (by decide)

end Daisyway.Osk.Trace
